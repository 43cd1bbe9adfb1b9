/-
  RubySyntax.Span
  ───────────────
  **RANGES OF A SOURCE TEXT.**

  A span covers the bytes from `start` up to, not including, `stop`, and remembers the line
  (from one) and the column (in bytes, from zero) of its start.  Any four numbers make a span:
  one whose ends are out of order is empty, and one that does not fit a text covers nothing of
  it.
-/
import RubySyntax.Text.Bytes

namespace RubySyntax

/-- A half-open range of bytes, and the line and column at which it begins. -/
structure Span where
  /-- The offset of the first byte. -/
  start : Nat
  /-- The offset after the last byte. -/
  stop : Nat
  /-- The line of the first byte, from one. -/
  line : Nat
  /-- The column of the first byte, from zero. -/
  column : Nat
deriving DecidableEq, Repr, Inhabited

namespace Span

/-- The span that stands for no place at all. -/
def nowhere : Span := ⟨0, 0, 0, 0⟩

/-- The least span over two spans.  Of two that begin together the first gives the position. -/
def join (a b : Span) : Span :=
  let first := if b.start < a.start then b else a
  { first with stop := max a.stop b.stop }

/-- The number of bytes covered. -/
def length (s : Span) : Nat := s.stop - s.start

/-- Whether no byte is covered. -/
def isEmpty (s : Span) : Bool := s.length == 0

/-- The empty span at the start of a span. -/
def atStart (s : Span) : Span := { s with stop := s.start }

/-- The empty span at the end of a span, on the same line. -/
def atEnd (s : Span) : Span := ⟨s.stop, s.stop, s.line, s.column + s.length⟩

/-- The text covered, or nothing when the span does not fit the text. -/
def source (s : Span) (text : String) : String :=
  String.ofList (Text.slice text.toList s.start s.stop)

/-- The line and the column from one, as reports show them. -/
def display (s : Span) : String := s!"{s.line}:{s.column + 1}"

end Span

end RubySyntax
