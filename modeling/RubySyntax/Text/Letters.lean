/-
  RubySyntax.Text.Letters
  ───────────────────────
  **CLASSES OF CHARACTERS.**

  `isBlank` is white space in the sense of Unicode, `isAlphanumeric` a letter or a number,
  `isWordChar` what a word in running text is made of (letters, marks, digits, connectors), and
  `isEscaped` what a quoted string does not show as itself.  The tables are those of Unicode 17;
  words are made of the characters of Unicode 16.  All classes answer for ASCII without looking
  at a table.
-/
import RubySyntax.Text.CharSet
import RubySyntax.Text.CharSet.Alphabetic
import RubySyntax.Text.CharSet.Number
import RubySyntax.Text.CharSet.Mark
import RubySyntax.Text.CharSet.Newest
import RubySyntax.Text.CharSet.Unprintable

namespace RubySyntax.Text

/-! ## §1. ASCII classes. -/

/-- The digits `0` to `9`. -/
def isDigit (c : Char) : Bool := '0' ≤ c && c ≤ '9'

/-- The digits of base sixteen, in either case. -/
def isHexDigit (c : Char) : Bool :=
  isDigit c || ('a' ≤ c && c ≤ 'f') || ('A' ≤ c && c ≤ 'F')

/-- The letters `A` to `Z`. -/
def isUpper (c : Char) : Bool := 'A' ≤ c && c ≤ 'Z'

/-- The letters `a` to `z`. -/
def isLower (c : Char) : Bool := 'a' ≤ c && c ≤ 'z'

/-- The letters of ASCII. -/
def isLetter (c : Char) : Bool := isUpper c || isLower c

/-- The characters of ASCII. -/
def isAscii (c : Char) : Bool := c.toNat < 0x80

/-- A capital letter of ASCII as the small one; any other character as itself. -/
def lowerCase (c : Char) : Char :=
  if isUpper c then Char.ofNat (c.toNat + 0x20) else c

/-! ## §2. Unicode classes. -/

/-- White space. -/
def isBlank (c : Char) : Bool := CharSet.whiteSpace.contains c

/-- A letter or a number of any script. -/
def isAlphanumeric (c : Char) : Bool :=
  if isAscii c then isLetter c || isDigit c
  else CharSet.alphabetic.contains c || CharSet.number.contains c

/-- A character that may be in a word: alphabetic, a mark, a decimal digit, connector punctuation,
or one of the two joiners. -/
def isWordLike (c : Char) : Bool :=
  CharSet.alphabetic.contains c || CharSet.mark.contains c || CharSet.decimalDigit.contains c ||
    CharSet.connector.contains c || CharSet.joinControl.contains c

/-- A character of a word.  The newest characters are in no word yet. -/
def isWordChar (c : Char) : Bool :=
  if isAscii c then isLetter c || isDigit c || c == '_'
  else isWordLike c && !CharSet.newest.contains c

/-- A character that a quoted string shows by its code point. -/
def isEscaped (c : Char) : Bool :=
  if isAscii c then c.toNat < 0x20 || c.toNat == 0x7F
  else CharSet.unprintable.contains c || CharSet.extendingMark.contains c

/-! ## §3. Trimming. -/

/-- The text without the characters of a class at its two ends. -/
def trimBoth (p : Char → Bool) (text : List Char) : List Char :=
  ((text.dropWhile p).reverse.dropWhile p).reverse

/-- The text without white space at its two ends. -/
def trim (text : String) : String := String.ofList (trimBoth isBlank text.toList)

end RubySyntax.Text
