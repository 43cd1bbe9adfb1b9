/-
  RubySyntax.Text.Lines
  ─────────────────────
  **LINES OF A TEXT.**

  A line ends after each newline, and a final newline opens no further line.  Lines count from
  one, columns count bytes from zero.  `rawLines` keeps the terminators, `logicalLines` strips
  `\n` or `\r\n`, and a `LineTable` answers for any byte offset on which line it lies.
-/
import RubySyntax.Text.Bytes

namespace RubySyntax.Text

/-! ## §1. Splitting. -/

/-- The lines of a text with their terminators. -/
def splitLines : List Char → List (List Char)
  | [] => []
  | c :: rest =>
    if c == '\n' then [c] :: splitLines rest
    else match splitLines rest with
      | [] => [[c]]
      | line :: lines => (c :: line) :: lines

/-- The line without one terminator at its end. -/
def chompChars (line : List Char) : List Char :=
  match line.reverse with
  | '\n' :: '\r' :: body => body.reverse
  | '\n' :: body => body.reverse
  | _ => line

/-- The lines of a text with their terminators. -/
def rawLines (text : String) : List String := (splitLines text.toList).map String.ofList

/-- The line without one terminator at its end. -/
def chomp (line : String) : String := String.ofList (chompChars line.toList)

/-- The lines of a text without their terminators. -/
def logicalLines (text : String) : List String := (rawLines text).map chomp

/-! ## §2. The line table. -/

/-- The byte offsets just after each newline, for a text that begins at `offset`. -/
def afterNewlines (offset : Nat) : List Char → List Nat
  | [] => []
  | c :: rest =>
    let next := offset + c.utf8Size
    if c == '\n' then next :: afterNewlines next rest else afterNewlines next rest

/-- Where the lines of a text begin, and how long the text is, in bytes. -/
structure LineTable where
  /-- The offset at which each line begins, rising from zero. -/
  starts : List Nat
  /-- The length of the text. -/
  size : Nat
deriving DecidableEq, Repr

namespace LineTable

/-- The table of a text. -/
def ofChars (text : List Char) : LineTable := ⟨0 :: afterNewlines 0 text, byteLength text⟩

/-- The table of a text. -/
def ofText (text : String) : LineTable := ofChars text.toList

/-- The line and the column of a byte offset; an offset past the end counts as the end. -/
def lineCol (table : LineTable) (offset : Nat) : Nat × Nat :=
  let at_ := min offset table.size
  let begun := table.starts.takeWhile (· ≤ at_)
  (begun.length, at_ - begun.getLastD 0)

/-- The byte offset at which a line begins. -/
def lineStart? (table : LineTable) (line : Nat) : Option Nat :=
  if line == 0 then none else table.starts[line - 1]?

/-- How many lines the text has; a last line without a terminator counts. -/
def lineCount (table : LineTable) : Nat :=
  if table.size == 0 then 0
  else if table.starts.getLastD 0 == table.size then table.starts.length - 1
  else table.starts.length

end LineTable

end RubySyntax.Text
