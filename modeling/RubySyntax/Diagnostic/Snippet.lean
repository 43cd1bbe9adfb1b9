/-
  RubySyntax.Diagnostic.Snippet
  ─────────────────────────────
  **DIAGNOSTICS WITH THE LINES AROUND THEM.**

  A diagnostic is shown with the line on which it begins and one line before and after it.  The
  lines form the snippet; the marked bytes are moved into it, and an empty place is widened by
  one byte.

  Marks on one line stand below it.  Marks over several lines run down the left side, from the
  line where they begin to the one where they end, and the code moves to the right.  Indentation
  that all lines share is cut when it is deep, and three points stand for what is cut.

  A row is drawn from the left to the right and may be drawn over: what is put at a column
  replaces what was there.
-/
import RubySyntax.Diagnostic
import RubySyntax.Text.Lines
import RubySyntax.Text.Letters

namespace RubySyntax.Diagnostic

/-! ## §1. The window. -/

/-- The offset at which a line begins, for a text that begins at `offset` with line one; the end of
the text if there is no such line. -/
def lineBegin (offset : Nat) : (line : Nat) → List Char → Nat
  | 0, _ | 1, _ => offset
  | _ + 2, [] => offset
  | n + 2, c :: rest =>
    lineBegin (offset + c.utf8Size) (if c == '\n' then n + 1 else n + 2) rest

/-- A number that lies between two bounds: itself, or the bound that it is beyond. -/
def clamp (low high n : Nat) : Nat := max low (min n high)

/-- A part of a source and the bytes of it that are marked. -/
structure Window where
  /-- The number of the first line. -/
  firstLine : Nat
  text : List Char
  /-- The offset in `text` of the first marked byte. -/
  start : Nat
  /-- The offset in `text` after the last marked byte. -/
  stop : Nat
deriving DecidableEq, Repr

/-- The window of a place in a source: the line of the place, the one before and the one after
it. -/
def window (span : Span) (source : List Char) : Window :=
  let firstLine := max 1 (span.line - 1)
  let low := lineBegin 0 firstLine source
  let high := lineBegin 0 (span.line + 2) source
  let text := Text.slice source low high
  let start := clamp low high span.start - low
  let stop := clamp low high span.stop - low
  let stop := if start == stop then min (stop + 1) (Text.byteLength text + 1) else stop
  ⟨firstLine, text, min start stop, stop⟩

/-! ## §2. Lines of a snippet. -/

/-- A line of a snippet. -/
structure SnippetLine where
  number : Nat
  /-- The offset of its first byte. -/
  start : Nat
  /-- The text without the terminator. -/
  text : List Char
  /-- The number of bytes of the terminator. -/
  terminator : Nat
deriving DecidableEq, Repr

namespace SnippetLine

/-- The offset after the last byte of the text. -/
def stop (l : SnippetLine) : Nat := l.start + Text.byteLength l.text

/-- The characters of the text before an offset. -/
def before (l : SnippetLine) (offset : Nat) : List Char :=
  go (offset - l.start) l.text
where
  /-- The characters that lie in a number of bytes. -/
  go : Nat → List Char → List Char
    | _, [] => []
    | room, c :: rest => if c.utf8Size ≤ room then c :: go (room - c.utf8Size) rest else []

/-- The column of an offset: control characters before it take no room. -/
def column (l : SnippetLine) (offset : Nat) : Nat :=
  (l.before offset).countP fun c => ' ' ≤ c && c != '\x7f'

/-- Whether the text has a character that is not white space. -/
def isVisible (l : SnippetLine) : Bool := l.text.any fun c => !Text.isBlank c

end SnippetLine

/-- The lines of a text from a number and an offset on. -/
def snippetLines (number offset : Nat) : List (List Char) → List SnippetLine
  | [] => []
  | raw :: rest =>
    let text := Text.chompChars raw
    ⟨number, offset, text, raw.length - text.length⟩ ::
      snippetLines (number + 1) (offset + Text.byteLength raw) rest

/-- The lines of a window. -/
def Window.lines (w : Window) : List SnippetLine :=
  snippetLines w.firstLine 0 (Text.splitLines w.text)

/-! ## §3. Where marks lie. -/

/-- How marks lie on a line. -/
inductive Extent where
  /-- Not at all. -/
  | outside
  /-- All of them. -/
  | within
  /-- They begin here and go on. -/
  | begins
  /-- They began before and go on. -/
  | passes
  /-- They began before and end here. -/
  | ends
deriving DecidableEq, Repr

/-- Whether no later line can hold more of the marks. -/
def Extent.isLast : Extent → Bool
  | .within | .ends => true
  | _ => false

/-- How marks between two offsets lie on a line.  A terminator counts as part of its line. -/
def SnippetLine.extent (l : SnippetLine) (start stop : Nat) : Extent :=
  let reach := l.stop + max l.terminator 1
  if l.stop + l.terminator < start then .outside
  else if l.start ≤ start then
    if stop ≤ reach then .within
    else if start ≤ l.stop + (l.terminator - 1) then .begins
    else .outside
  else if reach < stop then .passes
  else if l.start ≤ stop then .ends
  else .outside

/-- The lines with how the marks lie on them, up to the line where they end. -/
def extents (start stop : Nat) : List SnippetLine → List (SnippetLine × Extent)
  | [] => []
  | l :: rest =>
    let e := l.extent start stop
    (l, e) :: if e.isLast then rest.map (·, .outside) else extents start stop rest

/-- The line and the column, both from one, at which an offset is reported. -/
def reportedAt (lines : List SnippetLine) (offset : Nat) : Nat × Nat :=
  let holds (l : SnippetLine) := l.start ≤ offset && offset < l.stop + max l.terminator 1
  match lines.find? holds with
  | some l => (l.number, (l.before offset).length + 1)
  | none => (1, 1)

/-! ## §4. Rows. -/

/-- How a diagnostic is drawn. -/
structure Style where
  /-- The word at the beginning. -/
  heading : String
  /-- The character of the marks. -/
  mark : Char
  /-- The word beside the marks. -/
  label : String
deriving DecidableEq, Repr

/-- How diagnostics of a level are drawn. -/
def Style.ofLevel : Level → Style
  | .note => ⟨"note", '-', "note: note"⟩
  | .warning => ⟨"warning", '-', "warning"⟩
  | .error => ⟨"error", '^', "error"⟩
  | .fatal => ⟨"error", '^', "fatal"⟩

/-- Some blanks. -/
def blanks (n : Nat) : List Char := List.replicate n ' '

/-- A row with a text put at a column.  Blanks fill a row that ends before the column, if there is a
text. -/
def put (row : List Char) (column : Nat) (text : List Char) : List Char :=
  if text.isEmpty then row
  else row.take column ++ blanks (column - row.length) ++ text ++ row.drop (column + text.length)

/-- The text of a line as it is shown: a tab is four blanks. -/
def SnippetLine.shown (l : SnippetLine) : List Char :=
  l.text.flatMap fun c => if c == '\t' then blanks 4 else [c]

/-- The columns of white space that a line begins with. -/
def SnippetLine.indentation (l : SnippetLine) : Nat :=
  (l.shown.takeWhile Text.isBlank).length

/-- What is cut from the left side of the lines. -/
inductive Cut where
  /-- Some columns of each line. -/
  | columns (n : Nat)
  /-- All columns, for there is nothing to see. -/
  | all
deriving DecidableEq, Repr

namespace Cut

/-- The greatest indentation that is shown as it is. -/
def maxIndentation : Nat := 26

/-- The indentation that is left of a deeper one. -/
def keptIndentation : Nat := 22

/-- What is cut from lines: what they share of deep indentation. -/
def ofLines (lines : List SnippetLine) : Cut :=
  match ((lines.filter (·.isVisible)).map (·.indentation)).min? with
  | none => .all
  | some n => .columns (if n ≤ maxIndentation then 0 else n - keptIndentation)

/-- How many columns are cut from a line that is shown as a text. -/
def width (cut : Cut) (shown : List Char) : Nat :=
  match cut with
  | .columns n => min n shown.length
  | .all => shown.length

end Cut

/-- How a snippet is laid out. -/
structure Layout where
  style : Style
  /-- How many digits the line numbers have. -/
  width : Nat
  /-- Whether marks run down the left side. -/
  sided : Bool
  cut : Cut

namespace Layout

/-- The column of the marks at the left side. -/
def sideColumn (y : Layout) : Nat := y.width + 3

/-- The column at which the text of lines begins. -/
def codeColumn (y : Layout) : Nat := if y.sided then y.width + 5 else y.width + 3

/-- The row with nothing but the bar beside the line numbers. -/
def bar (y : Layout) : List Char := blanks (y.width + 1) ++ ['|']

/-- Whether marks that begin on a line have only white space before them. -/
def beginsAtSide (l : SnippetLine) (start : Nat) : Bool :=
  (l.shown.take (l.column start)).all Text.isBlank

/-- The character at the left side of a line. -/
def side? (l : SnippetLine) (e : Extent) (start : Nat) : Option Char :=
  match e with
  | .begins => if beginsAtSide l start then some '/' else none
  | .passes | .ends => some '|'
  | .outside | .within => none

/-- The row of a line. -/
def codeRow (y : Layout) (l : SnippetLine) (e : Extent) (start : Nat) : List Char :=
  let number := (toString l.number).toList
  let row := blanks (y.width - number.length) ++ number ++ [' ', '|']
  let row := match side? l e start with
    | some c => put row y.sideColumn [c]
    | none => row
  let row := put row y.codeColumn (l.shown.drop (y.cut.width l.shown))
  if y.cut == .columns 0 then row else put row y.codeColumn ['.', '.', '.']

/-- A row with marks put below the columns of a line from `first` to before `stop`. -/
def putMarks (y : Layout) (l : SnippetLine) (first stop : Nat) (row : List Char) : List Char :=
  (List.range' first (stop - first)).foldl (fun row column =>
    put row (y.codeColumn + column - y.cut.width l.shown) [y.style.mark]) row

/-- A row with a line drawn from the left side to below a column of a line. -/
def putLine (y : Layout) (l : SnippetLine) (column : Nat) (row : List Char) : List Char :=
  let first := y.sideColumn + 1
  put row first (List.replicate (y.codeColumn + column - y.cut.width l.shown - first) '_')

/-- A row with the label put after the marks that stop below a column of a line. -/
def putLabel (y : Layout) (l : SnippetLine) (stop : Nat) (row : List Char) : List Char :=
  put row (y.codeColumn + (stop + 1 - y.cut.width l.shown)) y.style.label.toList

/-- The row of marks below a line, if there is one. -/
def markRow? (y : Layout) (l : SnippetLine) (e : Extent) (start stop : Nat) :
    Option (List Char) :=
  match e with
  | .within =>
    let first := l.column start
    let last := max (l.column stop) (first + 1)
    some (y.putMarks l first last (y.putLabel l last y.bar))
  | .begins =>
    if beginsAtSide l start then none
    else
      let first := l.column start
      some (y.putMarks l first (first + 1) (y.putLine l first y.bar))
  | .ends =>
    let last := l.column stop - 1 + (if l.stop < stop then 1 else 0)
    let row := put (y.putLine l last y.bar) y.sideColumn ['|']
    some (y.putMarks l last (last + 1) (y.putLabel l (last + 1) row))
  | .outside | .passes => none

end Layout

/-- The number of digits of the greatest line number. -/
def numberWidth (lines : List SnippetLine) : Nat :=
  match lines.getLast? with
  | some l => (toString l.number).length
  | none => 0

/-- The rows of a diagnostic, for a source with a name. -/
def rows (d : Diagnostic) (source name : String) : List (List Char) :=
  let w := window d.span source.toList
  let lines := w.lines
  let marked := extents w.start w.stop lines
  let y : Layout := ⟨Style.ofLevel d.level, numberWidth lines,
    marked.any fun (_, e) => e == .begins, Cut.ofLines lines⟩
  let (line, column) := reportedAt lines w.start
  let heading := y.style.heading ++ if d.message.isEmpty then "" else ": " ++ d.message
  let place := (if name.isEmpty then "" else " " ++ name) ++ s!":{line}:{column}"
  let body := marked.flatMap fun (l, e) =>
    y.codeRow l e w.start :: (y.markRow? l e w.start w.stop).toList
  [heading.toList, blanks y.width ++ ("-->" ++ place).toList, y.bar] ++ body ++ [y.bar]

/-- The diagnostic with the lines around it, for a source with a name. -/
def render (d : Diagnostic) (source name : String) : String :=
  String.intercalate "\n" ((d.rows source name).map String.ofList)

end RubySyntax.Diagnostic
