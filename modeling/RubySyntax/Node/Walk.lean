/-
  RubySyntax.Node.Walk
  ────────────────────
  **TRAVERSING A TREE.**

  A traversal goes depth first: it visits a node, then, if the visitor wants to descend, the
  slots that the shape of the node enters, in order.  Each visit has a method, which is the kind
  of the node, or `args` for the slot of a parameter list.  What a visitor does not override it
  passes over: nothing is recorded, and the traversal descends.
-/
import RubySyntax.Node.Shape

namespace RubySyntax.Node

/-- What happens at each node, and whether the traversal goes on below it. -/
structure Visitor (σ : Type) where
  /-- The state after a visit by a method. -/
  visit : Kind → Node → σ → σ
  /-- Whether the slots of the node are entered after the visit. -/
  descends : Kind → Node → Bool

mutual

/-- Visit a node by a method, then what is below it. -/
def walkAs {σ : Type} (v : Visitor σ) (method : Kind) : Node → σ → σ
  | .mk kind children span, state =>
    let visited := v.visit method (.mk kind children span) state
    if v.descends method (.mk kind children span) then walkSlots v kind.shape 0 children visited
    else visited

/-- Visit the slots that a shape enters, from an index on. -/
def walkSlots {σ : Type} (v : Visitor σ) (shape : Shape) (i : Nat) : List Child → σ → σ
  | [], state => state
  | c :: rest, state => walkSlots v shape (i + 1) rest (walkSlot v (shape.slot i) c state)

/-- Visit one slot, if it holds a node and is to be entered. -/
def walkSlot {σ : Type} (v : Visitor σ) (use : SlotUse) : Child → σ → σ
  | .node n, state =>
    match use with
    | .skipped => state
    | .entered => walkAs v n.kind n state
    | .parameters => walkAs v .args n state
  | _, state => state

end

/-- Visit a tree. -/
def walk {σ : Type} (v : Visitor σ) (n : Node) (state : σ) : σ := walkAs v n.kind n state

/-- Visit some trees, in order. -/
def walkAll {σ : Type} (v : Visitor σ) (roots : List Node) (state : σ) : σ :=
  roots.foldl (fun state n => walk v n state) state

/-- Visit what is below a node, and not the node. -/
def walkBelow {σ : Type} (v : Visitor σ) (n : Node) (state : σ) : σ :=
  walkSlots v n.kind.shape 0 n.children state

/-- A visit that was recorded. -/
structure Visit where
  method : Kind
  node : Node

/-- The visitor that records the visits of some methods, latest first, and does not descend after
those of others. -/
def Visitor.recorder (records prunes : Kind → Bool) : Visitor (List Visit) where
  visit method n log := if records method then ⟨method, n⟩ :: log else log
  descends method _ := !(records method && prunes method)

end RubySyntax.Node
