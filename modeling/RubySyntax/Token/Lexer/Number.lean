/-
  RubySyntax.Token.Lexer.Number
  ─────────────────────────────
  **HOW FAR A NUMBER REACHES.**

  `numberLength` reads a number from its first digit and gives its kind and the number of its
  characters.  A number is a radix mark and digits, or digits with a fraction and an exponent;
  the letters `r` and `i` after it make it rational or imaginary.  Underscores may stand
  anywhere between digits.  `powerFollows` looks past a number for the power operator.
-/
import RubySyntax.Token.Kind
import RubySyntax.Text.Letters

namespace RubySyntax.Token.Lexer

open RubySyntax.Text

/-! ## §1. Characters of names and numbers. -/

/-- A character that begins a name: a letter, a low line, or any character past ASCII. -/
def isNameStart (c : Char) : Bool := c == '_' || isLetter c || !isAscii c

/-- A character of a name. -/
def isNameChar (c : Char) : Bool := isNameStart c || isDigit c

/-- A digit, or the low line that may separate digits. -/
def isDigitOrLine (c : Char) : Bool := isDigit c || c == '_'

/-- A digit of base sixteen, or the low line. -/
def isHexOrLine (c : Char) : Bool := isHexDigit c || c == '_'

/-- The letters that name a radix after a zero. -/
def isRadixLetter (c : Char) : Bool :=
  c == 'x' || c == 'X' || c == 'b' || c == 'B' || c == 'o' || c == 'O' || c == 'd' || c == 'D'

/-- Whether the next character, if any, is in a class. -/
def nextIs (p : Char → Bool) (cs : List Char) : Bool :=
  match cs with
  | c :: _ => p c
  | [] => false

/-! ## §2. The parts of a number. -/

/-- The length of a fraction: a point, a digit, and further digits. -/
def fractionLength : List Char → Nat
  | '.' :: rest => if nextIs isDigit rest then 1 + (rest.takeWhile isDigitOrLine).length else 0
  | _ => 0

/-- The length of an exponent: the letter `e`, perhaps a sign, a digit, and further digits. -/
def exponentLength : List Char → Nat
  | mark :: rest =>
    if mark == 'e' || mark == 'E' then
      if nextIs isDigit rest then 1 + (rest.takeWhile isDigitOrLine).length
      else match rest with
        | sign :: digits =>
          if (sign == '+' || sign == '-') && nextIs isDigit digits then
            2 + (digits.takeWhile isDigitOrLine).length
          else 0
        | [] => 0
    else 0
  | [] => 0

/-- The kind and the length of a number, its letters `r` and `i` aside. -/
def bodyLength (cs : List Char) : Kind × Nat :=
  if cs.head? == some '0' && nextIs isRadixLetter cs.tail then
    (.tINTEGER, 2 + ((cs.drop 2).takeWhile isHexOrLine).length)
  else
    let whole := (cs.takeWhile isDigitOrLine).length
    let fraction := fractionLength (cs.drop whole)
    let exponent := exponentLength (cs.drop (whole + fraction))
    (if fraction + exponent == 0 then .tINTEGER else .tFLOAT, whole + fraction + exponent)

/-- The kind and the length of a number. -/
def numberLength (cs : List Char) : Kind × Nat :=
  let (kind, n) := bodyLength cs
  let rest := cs.drop n
  let (kind, n) :=
    if rest.head? == some 'r' && !nextIs (fun c => isNameChar c && c != 'i') rest.tail then
      (.tRATIONAL, n + 1)
    else (kind, n)
  let rest := cs.drop n
  if rest.head? == some 'i' && !nextIs isNameChar rest.tail then (.tIMAGINARY, n + 1)
  else (kind, n)

/-! ## §3. Looking past a number. -/

/-- The text after a run of letters, digits, low lines, and points before a digit. -/
def skipNumber : List Char → List Char
  | [] => []
  | c :: rest =>
    if isLetter c || isDigitOrLine c || (c == '.' && nextIs isDigit rest) then skipNumber rest
    else c :: rest

/-- A space or a tab. -/
def isSpaceOrTab (c : Char) : Bool := c == ' ' || c == '\t'

/-- Whether the power operator follows the number at the beginning of the text. -/
def powerFollows (cs : List Char) : Bool :=
  "**".toList.isPrefixOf ((skipNumber cs).dropWhile isSpaceOrTab)

end RubySyntax.Token.Lexer
