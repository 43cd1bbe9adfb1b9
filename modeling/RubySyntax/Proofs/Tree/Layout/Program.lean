/-
  RubySyntax.Proofs.Tree.Layout.Program
  ─────────────────────────────────────
  **THE TREES OF PROGRAMS ARE WELL FORMED.**

  The grammar reads well-formed trees, and resolving their names keeps them so: a bare name that
  becomes a call gets the slots of a call, and no kind asks for a bare name in a slot.

  Main results:
    • `Fits.resolveIn` — resolving names keeps a tree well formed,
    • `Program.slots_fit` — every node of a program has the slots that its kind promises.
-/
import RubySyntax.Proofs.Program
import RubySyntax.Proofs.Tree.Layout.Rules
import RubySyntax.Proofs.Tree.Resolve

namespace RubySyntax

namespace Node

/-! ## §1. Slots that do not tell bare names from calls. -/

/-- Whether a form holds of no bare name only for being one. -/
def Form.isSettled : Form → Bool
  | .nodeOf kinds => !kinds.contains .lvar
  | _ => true

/-- No kind asks for a bare name in a slot. -/
theorem layouts_settled (k : Kind) :
    ∀ l ∈ k.layouts, ∀ form ∈ l.forms, form.isSettled = true := by
  cases k <;> decide

theorem SlotsResolve.getLast? {before after : List Child} (h : SlotsResolve before after) :
    (before.getLast? = none ∧ after.getLast? = none) ∨
      ∃ c d, before.getLast? = some c ∧ after.getLast? = some d ∧ Resolves c d := by
  have hreverse := List.forall₂_reverse_iff.mpr h
  rw [← List.head?_reverse, ← List.head?_reverse]
  generalize before.reverse = b, after.reverse = a at hreverse
  cases hreverse with
  | nil => exact .inl ⟨rfl, rfl⟩
  | @cons c d _ _ hc _ => exact .inr ⟨c, d, rfl, rfl, hc⟩

theorem passesBlock_resolveIn {n : Node} (hn : n.kind ≠ .lvar) (names : Names) :
    (resolveIn names n).1.passesBlock = n.passesBlock := by
  cases n with
  | mk kind children span =>
      rcases resolveIn_mk names kind children span with ⟨rfl, -⟩ | ⟨-, slots, hslots, h⟩
      · exact absurd rfl hn
      rw [h]
      simp only [passesBlock, lastChild?, Node.children]
      rcases SlotsResolve.getLast? hslots with ⟨hb, ha⟩ | ⟨c, d, hb, ha, hcd⟩
      · rw [hb, ha]
      rw [hb, ha]
      cases hcd with
      | node names m =>
          show ((resolveIn names m).1.kind == .blockPass) = (m.kind == .blockPass)
          rcases kind_resolveIn names m with h | ⟨hm, h⟩
          · rw [h]
          · rw [h, hm]
            rfl
      | other c hc => rfl

theorem holds_of_resolves {form : Form} (hform : form.isSettled = true) {c d : Child}
    (h : Resolves c d) (hc : form.holds c = true) : form.holds d = true := by
  cases h with
  | other c h => exact hc
  | node names n =>
      have hkind := kind_resolveIn names n
      cases form with
      | nodeOf kinds =>
          -- the only kind that changes is one that the form does not ask for
          simp only [nodeOf_holds] at hc ⊢
          rcases hkind with hkind | ⟨hname, -⟩
          · rw [hkind, hc]
          · rw [hname] at hc
            simp only [Form.isSettled, hc] at hform
            cases hform
      | callee =>
          -- a bare name does not take a block, so the kind is as it was
          simp only [callee_holds, Bool.and_eq_true] at hc ⊢
          rcases hkind with hkind | ⟨hname, -⟩
          · have hn : n.kind ≠ .lvar := by
              intro hname
              rw [hname] at hc
              exact absurd hc.1 (by decide)
            rw [hkind, passesBlock_resolveIn hn]
            exact hc
          · rw [hname] at hc
            exact absurd hc.1 (by decide)
      | node | part => rfl
      | name | text | number | count => cases hc

/-! ## §2. Resolving names. -/

theorem fits_of_slotsResolve (kind : Kind) (before after : List Child) (span : Span)
    (hslots : SlotsResolve before after) (h : Fits (.mk kind before span)) :
    Fits (.mk kind after span) := by
  obtain ⟨l, hl, hfits⟩ := List.any_eq_true.mp h
  refine Kind.fits_of_layout l hl (Layout.fits_mono (layouts_settled kind l hl) ?_ hfits)
  exact hslots.imp fun c d hcd form hform hc => holds_of_resolves hform hcd hc

theorem fits_of_name (children : List Child) (span : Span) (h : Fits (.mk .lvar children span)) :
    Fits (.mk .send (.absent :: children) span) := by
  obtain ⟨t, ht⟩ := eq_of_fits_name (h.of_layouts rfl)
  simp only [Node.children] at ht
  rw [ht]
  exact rfl

/-- **Resolving names keeps a tree well formed.** -/
theorem WellFormed.resolve {n : Node} (h : n.WellFormed) : n.resolve.WellFormed :=
  Everywhere.resolveIn fits_of_slotsResolve fits_of_name h []

end Node

/-! ## §3. Programs. -/

namespace Program

theorem treeOf_wellFormed {tokens : List Token} {version : Version} {text : String} {tree : Node}
    (h : treeOf tokens version text = .ok tree) : tree.WellFormed := by
  obtain ⟨root, hroot, rfl⟩ := eq_of_treeOf h
  apply Node.WellFormed.resolve
  cases root with
  | none => exact Node.wellFormed_mk (by simp) Node.slotsAll_nil
  | some n => exact Grammar.readProgram_wellFormed hroot n rfl

/-- **Every node of a program has the slots that its kind promises.** -/
theorem slots_fit {version : Version} {text : String} {p : Program}
    (h : (read version text).1 = .ok p) : ∀ n ∈ p.tree.preorder, n.kind.fits n.children = true := by
  obtain ⟨lexed, found, -, -, -, htree⟩ := eq_of_read h
  exact Node.everywhere_iff_preorder.mp (treeOf_wellFormed htree)

theorem slots_fit_of_block : ∃ p, (read ⟨3, 4⟩ "f { |a| a }").1 = .ok p ∧
    p.tree.kind = .block ∧ ∀ n ∈ p.tree.preorder, n.kind.fits n.children = true := by
  have hread : ((read ⟨3, 4⟩ "f { |a| a }").1.toOption.any fun p =>
      p.tree.kind == .block) = true := by decide +kernel
  obtain ⟨p, hp, hkind⟩ := exists_of_any hread
  exact ⟨p, hp, by simpa using hkind, slots_fit hp⟩

end Program

end RubySyntax
