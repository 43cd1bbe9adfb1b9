/-
  RubySyntax.Proofs.Tree.Warning
  ──────────────────────────────
  **A TREE IS ONLY WARNED ABOUT.**

  A property of the state of a walk that the visit of any node of the tree keeps holds at its end,
  whatever the walk enters.  So what the visitor that collects doubts has collected is what is
  doubtful about some nodes, and all of it are warnings.

  Main results:
    • `walkAs_induction` — what every visit keeps, the walk keeps,
    • `exists_of_mem_warnings` — a doubt about a tree is one about a node in it,
    • `warnings_level` — the doubts about a tree are warnings.
-/
import RubySyntax.Node.Warning
import RubySyntax.Proofs.Tree.Everywhere

namespace RubySyntax.Node

/-! ## §1. Walks. -/

section Walk

variable {σ : Type} {v : Visitor σ} {P : σ → Prop}

theorem walkSlots_induction {children : List Child}
    (ih : ∀ n, Child.node n ∈ children → ∀ method state, P state → P (walkAs v method n state))
    (shape : Shape) (i : Nat) {state : σ} (h : P state) :
    P (walkSlots v shape i children state) := by
  induction children generalizing i state with
  | nil => exact h
  | cons c rest ihrest =>
      have hslot : P (walkSlot v (shape.slot i) c state) := by
        cases c with
        | node n =>
            generalize shape.slot i = use
            cases use with
            | skipped => exact h
            | entered => exact ih n List.mem_cons_self _ _ h
            | parameters => exact ih n List.mem_cons_self _ _ h
        | _ => simpa only [walkSlot] using h
      exact ihrest (fun n hn => ih n (List.mem_cons_of_mem _ hn)) _ hslot

/-- **What every visit of a node of a tree keeps, the walk of the tree keeps**, whatever it
enters. -/
theorem walkAs_induction {n : Node}
    (h : Everywhere (fun m => ∀ method state, P state → P (v.visit method m state)) n) :
    ∀ method state, P state → P (walkAs v method n state) := by
  induction h with
  | @mk kind children span here below ih =>
      intro method state hstate
      have hvisited := here method state hstate
      rw [walkAs]
      split
      · exact walkSlots_induction ih _ _ hvisited
      · exact hvisited

end Walk

/-! ## §2. Warnings. -/

theorem conditionWarnings_level (n : Node) : ∀ d ∈ n.conditionWarnings, d.level = .warning := by
  intro d hd
  unfold conditionWarnings at hd
  split at hd
  · split at hd
    · rw [List.mem_singleton.mp hd]
      rfl
    · cases hd
  · cases hd

theorem keyWarnings_level (n : Node) : ∀ d ∈ n.keyWarnings, d.level = .warning := by
  intro d hd
  obtain ⟨key, -, rfl⟩ := List.mem_map.mp hd
  rfl

theorem warningsAt_level (method : Kind) (n : Node) :
    ∀ d ∈ warningsAt method n, d.level = .warning := by
  unfold warningsAt
  split
  · exact conditionWarnings_level n
  · exact conditionWarnings_level n
  · exact conditionWarnings_level n
  · exact conditionWarnings_level n
  · exact conditionWarnings_level n
  · exact keyWarnings_level n
  · exact keyWarnings_level n
  · exact fun d hd => absurd hd List.not_mem_nil

/-- **A doubt about a tree is one about a node in it.** -/
theorem exists_of_mem_warnings {n : Node} {d : Diagnostic} (h : d ∈ n.warnings) :
    ∃ m ∈ n.preorder, ∃ method, d ∈ warningsAt method m := by
  have hvisit : Everywhere (fun m => ∀ method (found : List Diagnostic),
      (∀ d ∈ found, ∃ m ∈ n.preorder, ∃ method, d ∈ warningsAt method m) →
      ∀ d ∈ doubter.visit method m found, ∃ m ∈ n.preorder, ∃ method, d ∈ warningsAt method m) n := by
    refine everywhere_iff_preorder.mpr fun m hm method found hfound d hd => ?_
    rcases List.mem_append.mp hd with hd | hd
    · exact ⟨m, hm, method, List.mem_reverse.mp hd⟩
    · exact hfound d hd
  exact walkAs_induction hvisit n.kind [] nofun d (List.mem_reverse.mp h)

/-- **The doubts about a tree are warnings.** -/
theorem warnings_level (n : Node) : ∀ d ∈ n.warnings, d.level = .warning := by
  intro d hd
  obtain ⟨m, -, method, hd⟩ := exists_of_mem_warnings hd
  exact warningsAt_level method m d hd

end RubySyntax.Node
