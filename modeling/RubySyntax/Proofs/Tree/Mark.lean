/-
  RubySyntax.Proofs.Tree.Mark
  ───────────────────────────
  **THE MARKS THAT NUMBERS AND BLOCK ARGUMENTS LEAVE.**

  A number leaves a mark, its span, as a token and as a node.  An ampersand before a block argument
  or a block parameter leaves one too: the offset at which the token begins, and so does the node.
  The marks of a tree are those of its nodes, counted as often as they occur; so the numbers of a
  program can be compared with its tokens one for one.

  Main results:
    • `marks_eq_preorder` — the marks of a tree are those of the nodes of its preorder,
    • `marks_resolve` — resolving names leaves them alone.
-/
import Mathlib.Algebra.BigOperators.Group.Multiset.Basic
import RubySyntax.Proofs.Tree.Resolve

namespace RubySyntax

/-- What tells one part of a program from all others. -/
inductive Mark where
  /-- A number at a place. -/
  | number (span : Span)
  /-- An ampersand at an offset. -/
  | ampersand (start : Nat)
deriving DecidableEq

/-- The kinds of tokens that are numbers. -/
def Token.Kind.isNumber : Token.Kind → Bool
  | .tINTEGER | .tFLOAT | .tRATIONAL | .tIMAGINARY => true
  | _ => false

/-- The mark of a token. -/
def Token.marks (t : Token) : Multiset Mark :=
  if t.kind.isNumber then {.number t.span}
  else if t.kind = .tAMPER ∨ t.kind = .tAMPER2 then {.ampersand t.span.start}
  else 0

namespace Node

/-! ## §1. The marks of a node. -/

/-- The kinds of nodes that are numbers. -/
def Kind.isNumber : Kind → Bool
  | .int | .float | .rational | .complex => true
  | _ => false

/-- The kinds of nodes that begin with an ampersand: a block that is passed, and a parameter for a
block. -/
def Kind.isBlockArgument : Kind → Bool
  | .blockPass | .blockarg => true
  | _ => false

/-- The mark of a node of a kind at a place. -/
def Kind.marks (kind : Kind) (span : Span) : Multiset Mark :=
  if kind.isNumber then {.number span}
  else if kind.isBlockArgument then {.ampersand span.start}
  else 0

mutual

/-- The marks of a tree. -/
def marks : Node → Multiset Mark
  | .mk kind children span => kind.marks span + slotsMarks children

/-- The marks of some slots. -/
def slotsMarks : List Child → Multiset Mark
  | [] => 0
  | c :: rest => slotMarks c + slotsMarks rest

/-- The marks of a slot. -/
def slotMarks : Child → Multiset Mark
  | .node n => n.marks
  | _ => 0

end

/-- The marks of some nodes. -/
def marksOf (ns : Multiset Node) : Multiset Mark := (ns.map marks).sum

@[simp]
theorem marksOf_zero : marksOf 0 = 0 := rfl

@[simp]
theorem marksOf_singleton (n : Node) : marksOf {n} = n.marks := by
  rw [marksOf, Multiset.map_singleton, Multiset.sum_singleton]

@[simp]
theorem marksOf_add (ns ms : Multiset Node) : marksOf (ns + ms) = marksOf ns + marksOf ms := by
  rw [marksOf, Multiset.map_add, Multiset.sum_add]
  rfl

/-- The node of a slot, if there is one. -/
def nodeIn : Child → Multiset Node
  | .node n => {n}
  | _ => 0

/-- The nodes in some slots. -/
def nodesIn : List Child → Multiset Node
  | [] => 0
  | c :: rest => nodeIn c + nodesIn rest

@[simp]
theorem nodesIn_nil : nodesIn [] = 0 := rfl

@[simp]
theorem nodesIn_cons (c : Child) (rest : List Child) :
    nodesIn (c :: rest) = nodeIn c + nodesIn rest := rfl

theorem nodeIn_node (n : Node) : nodeIn (.node n) = {n} := rfl

@[simp]
theorem nodeIn_symbol (name : String) : nodeIn (.symbol name) = 0 := rfl

@[simp]
theorem nodeIn_integer (value : Int) : nodeIn (.integer value) = 0 := rfl

@[simp]
theorem nodeIn_text (value : String) : nodeIn (.text value) = 0 := rfl

@[simp]
theorem nodeIn_absent : nodeIn .absent = 0 := rfl

@[simp]
theorem nodesIn_append (a b : List Child) : nodesIn (a ++ b) = nodesIn a + nodesIn b := by
  induction a with
  | nil => rw [List.nil_append, nodesIn_nil, zero_add]
  | cons c rest ih => rw [List.cons_append, nodesIn_cons, nodesIn_cons, ih, add_assoc]

theorem mem_nodesIn {n : Node} {children : List Child} :
    n ∈ nodesIn children ↔ Child.node n ∈ children := by
  induction children with
  | nil => simp
  | cons c rest ih => cases c <;> simp [ih, nodeIn]

theorem nodesIn_eq_zero {children : List Child} :
    nodesIn children = 0 ↔ ∀ n, Child.node n ∉ children := by
  rw [Multiset.eq_zero_iff_forall_notMem]
  exact forall_congr' fun n => not_congr mem_nodesIn

theorem slotsMarks_eq (children : List Child) : slotsMarks children = marksOf (nodesIn children) := by
  induction children with
  | nil => rfl
  | cons c rest ih =>
      rw [slotsMarks, ih, nodesIn_cons, marksOf_add]
      congr 1
      cases c with
      | node n => exact (marksOf_singleton n).symm
      | _ => rfl

theorem marks_mk (kind : Kind) (children : List Child) (span : Span) :
    (Node.mk kind children span).marks = kind.marks span + marksOf (nodesIn children) := by
  rw [marks, slotsMarks_eq]

/-! ## §2. The preorder. -/

theorem marks_eq_rows (n : Node) : ∀ depth,
    ((((n.rows depth).filterMap fun row => row.slot.node?).map
      fun m => m.kind.marks m.span).sum : Multiset Mark) = n.marks := by
  induction n using ind with
  | mk kind children span ih =>
      intro depth
      rw [rows, List.filterMap_cons, Child.node?, List.map_cons, List.sum_cons, marks]
      congr 1
      clear kind span
      -- the rows of the slots, one slot after another
      induction children with
      | nil => rfl
      | cons c rest ihrest =>
          rw [childrenRows, List.filterMap_append, List.map_append, List.sum_append, slotsMarks,
            ihrest fun n hn => ih n (List.mem_cons_of_mem _ hn)]
          congr 1
          cases c with
          | node n => exact ih n List.mem_cons_self (depth + 1)
          | _ => rfl

/-- **The marks of a tree are those of the nodes of its preorder.** -/
theorem marks_eq_preorder (n : Node) :
    n.marks = (n.preorder.map fun m => m.kind.marks m.span).sum :=
  (marks_eq_rows n 0).symm

theorem mem_marks_iff {n : Node} {mark : Mark} :
    mark ∈ n.marks ↔ ∃ m ∈ n.preorder, mark ∈ m.kind.marks m.span := by
  rw [marks_eq_preorder]
  induction n.preorder with
  | nil => simp
  | cons m ns ih => simp [Multiset.mem_add, ih]

/-! ## §3. Resolving names. -/

theorem marksOf_slotsResolve {before after : List Child} (h : SlotsResolve before after)
    (ih : ∀ n, Child.node n ∈ before → ∀ names, (n.resolveIn names).1.marks = n.marks) :
    marksOf (nodesIn after) = marksOf (nodesIn before) := by
  induction h with
  | nil => rfl
  | @cons c d before after hc _ ihrest =>
      rw [nodesIn_cons, nodesIn_cons, marksOf_add, marksOf_add,
        ihrest fun n hn => ih n (List.mem_cons_of_mem _ hn)]
      congr 1
      cases hc with
      | node names n =>
          rw [nodeIn_node, nodeIn_node, marksOf_singleton, marksOf_singleton,
            ih n List.mem_cons_self]
      | other _ _ => rfl

theorem marks_resolveIn (n : Node) : ∀ names, (n.resolveIn names).1.marks = n.marks := by
  induction n using ind with
  | mk kind children span ih =>
      intro names
      rcases resolveIn_mk names kind children span with ⟨rfl, h | h⟩ | ⟨-, slots, hslots, h⟩
      · rw [h]
      · -- a name and the call that it becomes leave no mark
        rw [h, marks_mk, marks_mk, nodesIn_cons, nodeIn_absent, zero_add]
        rfl
      · rw [h, marks_mk, marks_mk, marksOf_slotsResolve hslots ih]

/-- **Resolving names leaves the marks of a tree alone.** -/
theorem marks_resolve (n : Node) : n.resolve.marks = n.marks := marks_resolveIn n []

end Node

end RubySyntax
