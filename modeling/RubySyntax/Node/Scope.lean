/-
  RubySyntax.Node.Scope
  ─────────────────────
  **WHICH NAMES ARE VARIABLES.**

  A bare name is a variable if a binding of it comes before it in a scope that it can see; any
  other bare name is a call without arguments.  Assignments, parameters, variables of patterns
  and named groups of a matched regular expression bind names.  The body of a method, a class or
  a module sees no name from outside; the body of a block sees all of them, but what is bound in
  it is not seen outside.

  `resolve` goes through the slots of a tree in order and carries the names that can be seen.
-/
import RubySyntax.Node.Build.Literal

namespace RubySyntax.Node

/-! ## §1. What the kinds of nodes do to names. -/

/-- What a kind of node has to do with names. -/
inductive Binding where
  /-- A bare name. -/
  | reference
  /-- The name in its first slot is bound before the slots are entered. -/
  | binder
  /-- From a slot on there is a body that sees no name from outside. -/
  | closedBody (slot : Nat)
  /-- From its second slot on there is a body that sees the names around it. -/
  | block
  /-- A block whose second slot tells how many numbered parameters it has. -/
  | numberedBlock
  /-- The named groups of its first slot are bound after the slots have been entered. -/
  | namedGroups
  /-- Nothing. -/
  | inert
deriving DecidableEq, Repr

/-- What a kind of node has to do with names. -/
def Kind.binding : Kind → Binding
  | .lvar => .reference
  | .lvasgn | .arg | .optarg | .restarg | .kwarg | .kwoptarg | .kwrestarg | .blockarg | .shadowarg
  | .matchVar => .binder
  | .methodDef => .closedBody 0
  | .defs | .moduleDef | .sclass => .closedBody 1
  | .classDef => .closedBody 2
  | .block => .block
  | .numblock => .numberedBlock
  | .matchWithLvasgn => .namedGroups
  | _ => .inert

/-- The names that can be seen. -/
abbrev Names := List String

/-- The names with the one in the first slot, if there is one. -/
def bindFirst (children : List Child) (names : Names) : Names :=
  match children with
  | .symbol name :: _ => name :: names
  | _ => names

/-- The names of a number of numbered parameters. -/
def numberedNames (count : Int) : Names := (List.range count.toNat).map fun i => s!"_{i + 1}"

/-- The names of the numbered parameters of a block with these slots. -/
def implicitNames (children : List Child) : Names :=
  match children with
  | _ :: .integer count :: _ => numberedNames count
  | _ => []

/-- The names with the named groups of the first slot. -/
def bindGroups (children : List Child) (names : Names) : Names :=
  match children with
  | .node regexp :: _ => namedCaptures regexp ++ names
  | _ => names

/-- A bare name as what it is: a variable if it can be seen, else a call. -/
def resolveName (children : List Child) (span : Span) (names : Names) : Node :=
  match children with
  | .symbol name :: _ =>
    if names.contains name then .mk .lvar children span else .mk .send (.absent :: children) span
  | _ => .mk .send (.absent :: children) span

/-! ## §2. Resolving a tree. -/

mutual

/-- A tree whose bare names are resolved, given the names seen before it, and the names seen after
it. -/
def resolveIn (names : Names) : Node → Node × Names
  | .mk kind children span =>
    match kind.binding with
    | .reference => (resolveName children span names, names)
    | .binder =>
      let (slots, names) := resolveSlots (bindFirst children names) children
      (.mk kind slots span, names)
    | .closedBody slot =>
      let (slots, names) := resolveBody (fun _ => []) slot names children
      (.mk kind slots span, names)
    | .block =>
      let (slots, names) := resolveBody id 1 names children
      (.mk kind slots span, names)
    | .numberedBlock =>
      let (slots, names) := resolveBody (implicitNames children ++ ·) 1 names children
      (.mk kind slots span, names)
    | .namedGroups =>
      let (slots, names) := resolveSlots names children
      (.mk kind slots span, bindGroups slots names)
    | .inert =>
      let (slots, names) := resolveSlots names children
      (.mk kind slots span, names)

/-- Slots one after another; each sees what the earlier ones have bound. -/
def resolveSlots (names : Names) : List Child → List Child × Names
  | [] => ([], names)
  | c :: rest =>
    let (c, names) := resolveSlot names c
    let (rest, names) := resolveSlots names rest
    (c :: rest, names)

/-- Slots of which those from an index on are a body: it sees what `enter` makes of the names around
it, and its own names are not seen after it. -/
def resolveBody (enter : Names → Names) : (slot : Nat) → Names → List Child → List Child × Names
  | _, names, [] => ([], names)
  | 0, names, c :: rest =>
    let (c, inner) := resolveSlot (enter names) c
    (c :: (resolveSlots inner rest).1, names)
  | slot + 1, names, c :: rest =>
    let (c, names) := resolveSlot names c
    let (rest, names) := resolveBody enter slot names rest
    (c :: rest, names)

/-- One slot. -/
def resolveSlot (names : Names) : Child → Child × Names
  | .node n =>
    let (n, names) := resolveIn names n
    (.node n, names)
  | c => (c, names)

end

/-- A program whose bare names are resolved. -/
def resolve (root : Node) : Node := (resolveIn [] root).1

end RubySyntax.Node
