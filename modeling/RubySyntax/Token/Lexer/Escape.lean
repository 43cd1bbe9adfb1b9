/-
  RubySyntax.Token.Lexer.Escape
  ─────────────────────────────
  **ESCAPES AND THE CONTENT OF LITERALS.**

  The text between the quotes of a literal falls into pieces: plain characters and escapes.
  Each piece keeps the characters it was read from, so the pieces of a content, put together,
  are that content; what they stand for is their values put together.  `readEscape` reads one
  escape in one of three styles, `readContent` all pieces up to the closing quote, the next
  interpolation or the end of the text.
-/
import RubySyntax.Token.Fault
import RubySyntax.Token.Lexer.Number

namespace RubySyntax.Token.Lexer

open RubySyntax.Text

/-! ## §1. Pieces. -/

/-- A part of a literal's content. -/
structure Piece where
  /-- The characters as they stand in the source. -/
  source : List Char
  /-- The characters that they stand for. -/
  value : List Char
  /-- What is wrong with them. -/
  fault? : Option Fault
deriving DecidableEq, Repr

/-- A character that stands for itself. -/
def Piece.plain (c : Char) : Piece := ⟨[c], [c], none⟩

/-! ## §2. Escapes by code point. -/

/-- The value of a digit in any base up to sixteen. -/
def digitValue (c : Char) : Nat :=
  if isDigit c then c.toNat - '0'.toNat
  else (lowerCase c).toNat - 'a'.toNat + 10

/-- The value of a run of digits in a base. -/
def baseValue (base : Nat) (digits : List Char) : Nat :=
  digits.foldl (fun n c => n * base + digitValue c) 0

/-- The first digits of a text, `most` of them at the most. -/
def digitsUpTo (p : Char → Bool) (most : Nat) (cs : List Char) : List Char :=
  (cs.take most).takeWhile p

/-- The character of a code point, if it is one. -/
def charOf? (code : Nat) : Option Char :=
  if code.isValidChar then some (Char.ofNat code) else none

/-- A digit of base eight. -/
def isOctalDigit (c : Char) : Bool := '0' ≤ c && c ≤ '7'

/-- The list of code points inside the braces of a `\u` escape: what was read, what it stands
for, and whether it is well formed.  A character that is no digit, blank or closing brace ends
the reading; a number that is no character's does not. -/
def readCodePoints (cs : List Char) : List Char × List Char × Bool :=
  let blanks := cs.takeWhile (· == ' ')
  match _h : cs.drop blanks.length with
  | [] => (blanks, [], false)
  | c :: rest =>
    if c == '\x7d' then (blanks ++ [c], [], true)
    else if isHexDigit c then
      let more := digitsUpTo isHexDigit 5 rest
      let (source, value, good) := readCodePoints (rest.drop more.length)
      match charOf? (baseValue 16 (c :: more)) with
      | some ch => (blanks ++ c :: more ++ source, ch :: value, good)
      | none => (blanks ++ c :: more ++ source, value, false)
    else (blanks, [], false)
termination_by cs.length
decreasing_by
  have h := congrArg List.length _h
  simp only [List.length_drop, List.length_cons] at h ⊢
  omega

/-- A `\u` escape, of which `mark` has been read and `cs` follows. -/
def readUnicode (mark cs : List Char) : Piece :=
  match cs with
  | '\x7b' :: rest =>
    let (source, value, good) := readCodePoints rest
    ⟨mark ++ '\x7b' :: source, value, if good then none else some .invalidUnicodeEscape⟩
  | _ =>
    let digits := digitsUpTo isHexDigit 4 cs
    match charOf? (baseValue 16 digits) with
    | some ch =>
      if digits.length == 4 then ⟨mark ++ digits, [ch], none⟩
      else ⟨mark ++ digits, [], some .invalidUnicodeEscape⟩
    | none => ⟨mark ++ digits, [], some .invalidUnicodeEscape⟩

/-- A `\x` escape, of which `mark` has been read and `cs` follows. -/
def readHex (mark cs : List Char) : Piece :=
  let digits := digitsUpTo isHexDigit 2 cs
  if digits.isEmpty then ⟨mark, [], some .invalidHexEscape⟩
  else ⟨mark ++ digits, [Char.ofNat (baseValue 16 digits)], none⟩

/-! ## §3. The three styles of escapes. -/

/-- How a literal reads a backslash. -/
inductive EscapeStyle where
  /-- Every escape has its meaning. -/
  | full
  /-- A backslash protects itself and the closing quote; any other stands for itself. -/
  | raw (close : Char)
  /-- A backslash protects the closing slash; with any other character it stays. -/
  | regexp (close : Char)
deriving DecidableEq, Repr

/-- What a letter after a backslash stands for. -/
def escapeLetter (c : Char) : List Char :=
  if c == 'n' then ['\n']
  else if c == 't' then ['\t']
  else if c == 's' then [' ']
  else if c == 'r' then ['\r']
  else if c == 'e' then ['\x1b']
  else if c == 'a' then ['\x07']
  else if c == 'b' then ['\x08']
  else if c == 'f' then ['\x0c']
  else if c == 'v' then ['\x0b']
  else if c == '\n' then []
  else [c]

/-- The escape that begins with a backslash before `cs`. -/
def readEscape (style : EscapeStyle) (cs : List Char) : Piece :=
  match style, cs with
  | .raw close, c :: _ =>
    if c == '\\' || c == close then ⟨['\\', c], [c], none⟩ else .plain '\\'
  | .raw _, [] => .plain '\\'
  | .regexp close, c :: _ =>
    if c == close then ⟨['\\', c], [c], none⟩ else ⟨['\\', c], ['\\', c], none⟩
  | .regexp _, [] => .plain '\\'
  | .full, [] => ⟨['\\'], [], none⟩
  | .full, c :: rest =>
    if c == 'u' then readUnicode ['\\', c] rest
    else if c == 'x' then readHex ['\\', c] rest
    else if isOctalDigit c then
      let digits := digitsUpTo isOctalDigit 3 (c :: rest)
      ⟨'\\' :: digits, [Char.ofNat (baseValue 8 digits)], none⟩
    else ⟨['\\', c], escapeLetter c, none⟩

/-! ## §4. The content of a literal. -/

/-- The forms of literals. -/
inductive LiteralForm where
  | string | command | symbol | regexp
deriving DecidableEq, Repr

/-- A literal that is open. -/
structure Literal where
  form : LiteralForm
  /-- The closing quote. -/
  close : Char
  /-- Whether escapes and interpolations are read. -/
  interpolates : Bool
  /-- The offset at which the literal begins. -/
  opened : Nat
deriving DecidableEq, Repr

/-- How a literal reads a backslash. -/
def Literal.escapes (l : Literal) : EscapeStyle :=
  if l.form = .regexp then .regexp l.close
  else if l.interpolates then .full
  else .raw l.close

/-- What follows a stretch of content. -/
inductive Ending where
  /-- The closing quote. -/
  | close
  /-- The mark that opens an interpolation. -/
  | interpolation
  /-- Nothing. -/
  | endOfText
deriving DecidableEq, Repr

/-- The pieces of a literal's content, and what follows them. -/
def readContent (l : Literal) : List Char → List Piece × Ending
  | [] => ([], .endOfText)
  | c :: rest =>
    if c == l.close then ([], .close)
    else if l.interpolates && c == '#' && rest.head? == some '\x7b' then ([], .interpolation)
    else
      let piece := if c == '\\' then readEscape l.escapes rest else .plain c
      let (pieces, ending) := readContent l (rest.drop (piece.source.length - 1))
      (piece :: pieces, ending)
termination_by cs => cs.length
decreasing_by simp only [List.length_drop, List.length_cons]; omega

/-- The characters that some pieces were read from. -/
def sourceOf (pieces : List Piece) : List Char := pieces.flatMap (·.source)

/-- The characters that some pieces stand for. -/
def valueOf (pieces : List Piece) : List Char := pieces.flatMap (·.value)

end RubySyntax.Token.Lexer
