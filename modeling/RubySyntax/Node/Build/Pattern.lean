/-
  RubySyntax.Node.Build.Pattern
  ─────────────────────────────
  **PATTERNS.**

  A pattern takes a value apart: by its elements, by its keys, by its class, by what it equals.
  A list with an open rest at both ends looks for its middle anywhere in the value.
-/
import RubySyntax.Node.Build.Call

namespace RubySyntax.Node

/-- A name that the pattern binds. -/
def matchVar (t : Token) : Node := named .matchVar t

/-- A value that is compared and not bound. -/
def pin (caret : Token) (value : Node) : Node :=
  .mk .pin [.node value] (caret.span.join value.span)

/-- Two patterns of which one suffices. -/
def matchAlt (lhs rhs : Node) : Node := joined .matchAlt lhs rhs

/-- A pattern whose value is bound to a name. -/
def matchAs (pattern : Node) (name : Token) : Node := joined .matchAs pattern (matchVar name)

/-- An open rest, perhaps with a name. -/
def matchRest (star : Token) (name : Option Token) : Node :=
  match name with
  | some name => .mk .matchRest [.node (matchVar name)] (star.span.join name.span)
  | none => bare .matchRest star

/-- The mark that no further keys are allowed. -/
def matchNoRest (star nil_ : Token) : Node := .mk .matchNilPattern [] (star.span.join nil_.span)

/-- The kind of a list of patterns. -/
def listPatternKind (items : List Node) (trailingComma : Bool) : Kind :=
  let isRest (n : Node) := n.kind == .matchRest
  let rests := items.countP isRest
  if 3 ≤ items.length && rests == 2 && items.head?.any isRest && items.getLast?.any isRest then
    .findPattern
  else if trailingComma && rests == 0 then .arrayPatternWithTail
  else .arrayPattern

/-- A list of patterns between brackets. -/
def listPattern (opening : Token) (items : List Node) (trailingComma : Bool) (closing : Token) :
    Node :=
  .mk (listPatternKind items trailingComma) (slots items) (opening.span.join closing.span)

/-- A list of patterns without brackets; one pattern alone stays as it is. -/
def topPattern (items : List Node) (trailingComma : Bool) : Node :=
  let list := Node.mk (listPatternKind items trailingComma) (slots items) (cover items)
  match items with
  | [only] => if trailingComma || only.kind == .matchRest then list else only
  | _ => list

/-- Patterns by keys, between braces. -/
def hashPattern (opening : Token) (items : List Node) (closing : Token) : Node :=
  .mk .hashPattern (slots items) (opening.span.join closing.span)

/-- Patterns by keys, without braces. -/
def bareHashPattern (items : List Node) : Node := .mk .hashPattern (slots items) (cover items)

/-- A pattern for the parts of an object of a class. -/
def constPattern (class_ inner : Node) (closing : Token) : Node :=
  .mk .constPattern [.node class_, .node inner] (class_.span.join closing.span)

/-- A value and the pattern that it has to match or is asked to match.  The question was a kind
of its own before an arrow could ask for a match. -/
def matchPattern (v : Version) (value : Node) (op : Token) (pattern : Node) : Node :=
  let kind :=
    if op.kind == .tASSOC then .matchPattern
    else if v.supports .rightwardAssignment then .matchPatternP
    else .inMatch
  joined kind value pattern

end RubySyntax.Node
