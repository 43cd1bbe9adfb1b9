/-
  RubySyntax.Node.Build.Assignment
  ────────────────────────────────
  **ASSIGNMENTS.**

  What stands left of an equals sign is read as an expression first and then made a target:
  a variable, a constant, an attribute of an object, an element by its index.  Other expressions
  are no targets.
-/
import RubySyntax.Node.Build.Call

namespace RubySyntax.Node

/-! ## §1. Targets. -/

/-- The name of the method that sets an attribute, for the call that reads it: a receiver and a
name without arguments. -/
def attributeTarget? (n : Node) : Option Node :=
  match n.children with
  | [receiver, .symbol name] =>
    if receiver.isAbsent then none
    else some (.mk n.kind [receiver, .symbol (name ++ "=")] n.span)
  | _ => none

/-- The kind of the target that a variable, a constant or an index becomes. -/
def targetKind? : Kind → Option Kind
  | .lvar => some .lvasgn
  | .ivar => some .ivasgn
  | .cvar => some .cvasgn
  | .gvar => some .gvasgn
  | .constant => some .casgn
  | .index => some .indexasgn
  | _ => none

/-- The target that an expression becomes. -/
def target? (n : Node) : Option Node :=
  match targetKind? n.kind with
  | some kind => some (.mk kind n.children n.span)
  | none => if n.kind == .send || n.kind == .csend then attributeTarget? n else none

/-- Whether the expression reads an attribute of an object. -/
def readsAttribute (n : Node) : Bool :=
  (n.kind == .send || n.kind == .csend) &&
    match n.children with
    | [receiver, _] => !receiver.isAbsent
    | _ => false

/-! ## §2. Assignments. -/

/-- An assignment: a target whose last slot is the value. -/
def assign? (n value : Node) : Option Node :=
  (target? n).map fun t => .mk t.kind (t.children ++ [.node value]) (t.span.join value.span)

/-- An assignment with an operator.  An attribute stays the call that reads it. -/
def operatorAssign? (n : Node) (op : Token) (value : Node) : Option Node :=
  (if n.readsAttribute then some n else target? n).map fun t =>
    let span := t.span.join value.span
    if op.value == "||" then .mk .orAsgn [.node t, .node value] span
    else if op.value == "&&" then .mk .andAsgn [.node t, .node value] span
    else .mk .opAsgn [.node t, .symbol op.value, .node value] span

/-- A value with another one for the case that it fails. -/
def rescueModifier (body : Node) (kw : Token) (value : Node) : Node :=
  let clauseSpan := kw.span.join value.span
  let clause := Node.mk .resbody [.absent, .absent, .node value] clauseSpan
  .mk .rescue [.node body, .node clause, .absent] (body.span.join clauseSpan)

/-! ## §3. Multiple assignment. -/

/-- The right side of a multiple assignment: one value that is not spliced, or an array. -/
def multipleValues : List Node → Node
  | [n] => if n.kind == .splat then bareArray [n] else n
  | ns => bareArray ns

/-- A list of targets; a list that is all there is stays as it is. -/
def targets : List Node → Node
  | [n] => if n.kind == .mlhs then n else .mk .mlhs [.node n] (cover [n])
  | ns => .mk .mlhs (slots ns) (cover ns)

/-- A list of targets between parentheses. -/
def parenTargets (opening : Token) (items : List Node) (closing : Token) : Node :=
  .mk .mlhs (slots items) (opening.span.join closing.span)

/-- An assignment to a list of targets. -/
def multipleAssign (left value : Node) : Node := joined .masgn left value

/-- An assignment of several values, or of a spliced one, to one target. -/
def assignValues? (n : Node) (items : List Node) : Option Node :=
  match items with
  | [item] => if item.kind == .splat then assign? n (bareArray items) else none
  | _ => assign? n (bareArray items)

end RubySyntax.Node
