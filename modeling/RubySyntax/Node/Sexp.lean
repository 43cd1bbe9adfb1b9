/-
  RubySyntax.Node.Sexp
  ────────────────────
  **TREES AS TEXT.**

  A node is written as its tag and its slots between parentheses: `(send nil :puts (int 1))`.
  Names follow a colon, texts are quoted, an empty slot is `nil`.
-/
import RubySyntax.Node
import RubySyntax.Text.Quoted
import RubySyntax.Decimal.Shortest

namespace RubySyntax.Node

/-- Numbers have a point and no exponent from a ten-thousandth to just below ten to the
sixteenth; others have one digit before the point and an exponent. -/
def floatStyle : Decimal.Style := ⟨-3, 16, ['e'], ['i', 'n', 'f'], ['N', 'a', 'N']⟩

/-- The text of a floating-point number in a tree. -/
def floatText (x : Float) : String := Decimal.render floatStyle x

mutual

/-- The text of a tree. -/
def sexp : Node → String
  | .mk kind children _ => "(" ++ kind.tag ++ childrenSexp children ++ ")"

/-- The text of some slots, a space before each. -/
def childrenSexp : List Child → String
  | [] => ""
  | c :: rest => " " ++ childSexp c ++ childrenSexp rest

/-- The text of a slot. -/
def childSexp : Child → String
  | .node n => n.sexp
  | .symbol name => ":" ++ name
  | .text value => Text.quote value
  | .integer value => toString value
  | .float value => floatText value
  | .absent => "nil"

end

end RubySyntax.Node
