/-
  RubySyntax.Proofs.Grammar.Forward
  ─────────────────────────────────
  **READING GOES FORWARD.**

  Positions in the tokens are measured, for example by the bytes up to them.  If no token and no
  symbol leads back, no expression does.  So a proof about where the pieces of a rule stand may
  take it that each piece begins where the one before has ended, or further on.

  Main results:
    • `Reads.forward` — the measure does not decrease along a reading,
    • `Forward.yields` — postconditions, given that no piece leads back,
    • `Reads.star_within`, … — the elements of a list lie within what was read.
-/
import RubySyntax.Proofs.Grammar.Yields

namespace RubySyntax.Grammar

/-- Neither tokens nor symbols lead back. -/
structure Context.Forward {Symbol : Type} {Result : Symbol → Type} (c : Context Symbol Result)
    (measure : Nat → Nat) : Prop where
  token : ∀ i t, c.tokens[i]? = some t → measure i ≤ measure (i + 1)
  gives : ∀ s i v j, c.gives s i v j → measure i ≤ measure j

theorem Repeats.forward {α : Type} {R : Nat → α → Nat → Prop} {measure : Nat → Nat} {i j : Nat}
    {as : List α} (hR : ∀ i a j, R i a j → measure i ≤ measure j) (h : Repeats R i as j) :
    measure i ≤ measure j := by
  induction h with
  | nil i => exact Nat.le_refl _
  | cons head tail ih => exact Nat.le_trans (hR _ _ _ head) ih

/-- What holds of each element where it was read holds of it within the whole list. -/
theorem Repeats.within {α : Type} {R : Nat → α → Nat → Prop} {measure : Nat → Nat}
    {P : Nat → Nat → α → Prop} {i j : Nat} {as : List α}
    (hP : ∀ {lo hi lo' hi' a}, P lo hi a → lo' ≤ lo → hi ≤ hi' → P lo' hi' a)
    (hR : ∀ i a j, R i a j → measure i ≤ measure j)
    (hx : ∀ i a j, R i a j → P (measure i) (measure j) a) (h : Repeats R i as j) :
    ∀ a ∈ as, P (measure i) (measure j) a := by
  induction h with
  | nil i => exact fun a ha => absurd ha List.not_mem_nil
  | cons head tail ih =>
      -- the first element is widened to the right, the others to the left
      refine List.forall_mem_cons.mpr ⟨?_, fun a ha => ?_⟩
      · exact hP (hx _ _ _ head) (Nat.le_refl _) (tail.forward hR)
      · exact hP (ih a ha) (hR _ _ _ head) (Nat.le_refl _)

namespace Expr

variable {Symbol : Type} {Result : Symbol → Type} {c : Context Symbol Result}
  {measure : Nat → Nat} {α β : Type} {i j : Nat}

/-! ## §1. Readings. -/

/-- **No reading leads back.** -/
theorem Reads.forward (hc : c.Forward measure) {e : Expr Symbol Result α} {v : α}
    (h : e.Reads c i v j) : measure i ≤ measure j := by
  induction e generalizing i j with
  | token kinds =>
      obtain ⟨ht, -, rfl⟩ := h
      exact hc.token i v ht
  | done value =>
      obtain ⟨-, rfl⟩ := h
      exact Nat.le_refl _
  | seq f x ihf ihx =>
      obtain ⟨k, g, hf, a, hx, -⟩ := h
      exact Nat.le_trans (ihf hf) (ihx hx)
  | map f x ih =>
      obtain ⟨a, hx, -⟩ := h
      exact ih hx
  | check f x ih =>
      obtain ⟨a, hx, -⟩ := h
      exact ih hx
  | since v₀ x ih => exact ih h.1
  | orElse a b iha ihb => exact h.elim iha ihb
  | star x ih => exact Repeats.forward (fun _ _ _ h => ih h) h
  | next kinds | notNext kinds | finish =>
      obtain ⟨rfl, -⟩ := h
      exact Nat.le_refl _
  | call s => exact hc.gives s i v j h

/-! ## §2. Postconditions. -/

/-- Every value that an expression can give, and the position after it, satisfy `Q`, given that no
piece leads back. -/
def Advances (c : Context Symbol Result) (measure : Nat → Nat) :
    {α : Type} → Expr Symbol Result α → Nat → (α → Nat → Prop) → Prop
  | _, .seq f x, i, Q => f.Advances c measure i fun g k =>
    ∀ a j, x.Reads c k a j → measure k ≤ measure j → Q (g a) j
  | _, .map f x, i, Q => x.Advances c measure i fun a j => Q (f a) j
  | _, .check f x, i, Q => x.Advances c measure i fun a j => ∀ b, f c.version a = some b → Q b j
  | _, .since v₀ x, i, Q =>
    x.Advances c measure i fun a j => c.version.atLeast v₀ = true → Q a j
  | _, .orElse a b, i, Q => a.Advances c measure i Q ∧ b.Advances c measure i Q
  | _, e, i, Q => ∀ v j, e.Reads c i v j → measure i ≤ measure j → Q v j

/-- **What is yielded by pieces that do not lead back is yielded.** -/
theorem Advances.yields {e : Expr Symbol Result α} {Q : α → Nat → Prop}
    (h : e.Advances c measure i Q) (hc : c.Forward measure) : e.Yields c i Q := by
  refine .of_reads fun v j hv => ?_
  induction e generalizing i j with
  | seq f x ihf =>
      obtain ⟨k, g, hf, a, hx, rfl⟩ := hv
      exact ihf h g k hf a j hx (hx.forward hc)
  | map f x ih =>
      obtain ⟨a, hx, rfl⟩ := hv
      exact ih h _ _ hx
  | check f x ih =>
      obtain ⟨a, hx, hb⟩ := hv
      exact ih h _ _ hx _ hb
  | since v₀ x ih => exact ih h _ _ hv.1 hv.2
  | orElse a b iha ihb => exact hv.elim (iha h.1 _ _) (ihb h.2 _ _)
  | _ => exact h _ _ hv (Reads.forward hc hv)

/-- A postcondition may be proved of the readings themselves. -/
theorem Advances.of_reads {e : Expr Symbol Result α} {Q : α → Nat → Prop}
    (h : ∀ v j, e.Reads c i v j → Q v j) : e.Advances c measure i Q := by
  induction e generalizing i with
  | seq f x ihf => exact ihf fun g k hg a j ha _ => h _ _ ⟨k, g, hg, a, ha, rfl⟩
  | map f x ih => exact ih fun a j ha => h _ _ ⟨a, ha, rfl⟩
  | check f x ih => exact ih fun a j ha b hb => h _ _ ⟨a, ha, hb⟩
  | since v₀ x ih => exact ih fun a j ha hv => h _ _ ⟨ha, hv⟩
  | orElse a b iha ihb =>
      exact ⟨iha fun v j hv => h v j (.inl hv), ihb fun v j hv => h v j (.inr hv)⟩
  | _ => exact fun v j hv _ => h v j hv

/-! ## §3. Lists. -/

section Within

variable {x : Expr Symbol Result α} {sep : Expr Symbol Result β} {P : Nat → Nat → α → Prop}
  {as : List α} (hc : c.Forward measure)
  (hP : ∀ {lo hi lo' hi' a}, P lo hi a → lo' ≤ lo → hi ≤ hi' → P lo' hi' a)
  (hx : ∀ i a j, x.Reads c i a j → P (measure i) (measure j) a)
include hc hP hx

theorem Reads.star_within (h : (Expr.star x).Reads c i as j) :
    ∀ a ∈ as, P (measure i) (measure j) a :=
  Repeats.within hP (fun _ _ _ h => h.forward hc) hx h

theorem Reads.plus_within (h : (Expr.plus x).Reads c i as j) :
    ∀ a ∈ as, P (measure i) (measure j) a := by
  obtain ⟨a, rest, k, rfl, ha, hrest⟩ := h.plus
  exact Repeats.within hP (fun _ _ _ h => h.forward hc) hx (.cons ha hrest)

theorem Reads.sepBy1_split (h : (Expr.sepBy1 x sep).Reads c i as j) :
    ∃ a rest k, as = a :: rest ∧ x.Reads c i a k ∧ measure k ≤ measure j ∧
      ∀ b ∈ rest, P (measure k) (measure j) b := by
  obtain ⟨a, rest, k, rfl, ha, hrest⟩ := h.sepBy1
  have hforward : ∀ i a j, (sep *> x).Reads c i a j → measure i ≤ measure j :=
    fun _ _ _ h => h.forward hc
  refine ⟨a, rest, k, rfl, ha, Repeats.forward hforward hrest, ?_⟩
  refine Repeats.within hP hforward (fun i a j h => ?_) hrest
  obtain ⟨k, v, hsep, h⟩ := h.seqRight
  exact hP (hx _ _ _ h) (hsep.forward hc) (Nat.le_refl _)

theorem Reads.sepBy1_within (h : (Expr.sepBy1 x sep).Reads c i as j) :
    ∀ a ∈ as, P (measure i) (measure j) a := by
  obtain ⟨a, rest, k, rfl, ha, hk, hrest⟩ := h.sepBy1_split (P := P) hc hP hx
  refine List.forall_mem_cons.mpr ⟨?_, fun b hb => ?_⟩
  · exact hP (hx _ _ _ ha) (Nat.le_refl _) hk
  · exact hP (hrest b hb) (ha.forward hc) (Nat.le_refl _)

theorem Reads.sepBy_within (h : (Expr.sepBy x sep).Reads c i as j) :
    ∀ a ∈ as, P (measure i) (measure j) a := by
  rcases h.sepBy with h | ⟨rfl, -⟩
  · exact h.sepBy1_within hc hP hx
  · exact fun a ha => absurd ha List.not_mem_nil

end Within

/-- What is optional was read between the same positions, if it is there. -/
theorem Reads.opt_some {x : Expr Symbol Result α} {o : Option α} (h : (Expr.opt x).Reads c i o j) :
    ∀ a ∈ o, x.Reads c i a j := by
  rintro a rfl
  rcases h.opt with ⟨ho, -⟩ | ⟨a', ho, ha⟩
  · cases ho
  · cases ho
    exact ha

end Expr

end RubySyntax.Grammar
