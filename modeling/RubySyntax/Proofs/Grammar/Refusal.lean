/-
  RubySyntax.Proofs.Grammar.Refusal
  ─────────────────────────────────
  **WHAT A VERSION REFUSES.**

  Syntax that a version lacks is read all the same, and refused when it has been read; another
  alternative may then read its tokens in a way of its own.  The trace of a finding keeps the
  versions that brought what was refused.

  All syntax that a version has brought contains a token of one of a few kinds.  So a program
  without such tokens has nothing refused.

  Main results:
    • `stands_of_needs` — what an expression needs is there when it gives a value,
    • `stands_of_refused` — what is refused contains a token of its kinds,
    • `Program.stands_of_refuses` — so does what is refused in a program.
-/
import RubySyntax.Proofs.Grammar.Extent

namespace RubySyntax.Grammar

open Token

variable {Symbol : Type} {Result : Symbol → Type}

/-! ## §1. Needed tokens. -/

namespace Expr

/-- Whether the expression gives a value only after reading a token of one of some kinds. -/
def needs (kinds : List Kind) : {α : Type} → Expr Symbol Result α → Bool
  | _, .token ks => ks.all kinds.contains
  | _, .seq f x => f.needs kinds || x.needs kinds
  | _, .map _ x | _, .check _ x | _, .since _ x => x.needs kinds
  | _, .orElse a b => a.needs kinds && b.needs kinds
  | _, _ => false

/-- Whether all syntax that a version has brought needs a token of the kinds of that version. -/
def marked (kinds : Version → List Kind) : {α : Type} → Expr Symbol Result α → Bool
  | _, .seq f x => f.marked kinds && x.marked kinds
  | _, .map _ x | _, .check _ x | _, .star x => x.marked kinds
  | _, .since v x => x.needs (kinds v) && x.marked kinds
  | _, .orElse a b => a.marked kinds && b.marked kinds
  | _, _ => true

variable {α : Type} {i : Nat}

/-- **What an expression needs is there when it gives a value.** -/
theorem stands_of_needs {c : Context Symbol Result} {kinds : List Kind} {e : Expr Symbol Result α}
    {v : α} {j : Nat} (h : e.needs kinds = true) (hread : e.Reads c i v j) :
    ∃ k, Stands c.tokens kinds k := by
  induction e generalizing i j with
  | token ks =>
      obtain ⟨htok, hkind, -⟩ := hread
      exact ⟨i, v, htok, List.contains_iff_mem.mp (List.all_eq_true.mp h _ hkind)⟩
  | seq f x ihf ihx =>
      obtain ⟨k, g, hf, a, hx, -⟩ := hread
      -- one of the parts has the token
      rcases Bool.or_eq_true _ _ ▸ h with h | h
      · exact ihf h hf
      · exact ihx h hx
  | map f x ih =>
      obtain ⟨a, hx, -⟩ := hread
      exact ih h hx
  | check f x ih =>
      obtain ⟨a, hx, -⟩ := hread
      exact ih h hx
  | since v₀ x ih => exact ih h hread.1
  | orElse a b iha ihb =>
      simp only [needs, Bool.and_eq_true] at h
      exact hread.elim (iha h.1) (ihb h.2)
  | _ => cases h

/-- **What is refused contains a token of its kinds**, if that is so for the symbols. -/
theorem stands_of_refused {c : Facts Symbol Result} {kinds : Version → List Kind}
    {e : Expr Symbol Result α} {o : Option (α × Nat)} {t : Trace} (h : e.marked kinds = true)
    (hcall : ∀ s i o t, c.finds s i o t → ∀ g ∈ t.refused, ∃ k, Stands c.tokens (kinds g) k)
    (hfound : e.Finds c i o t) : ∀ g ∈ t.refused, ∃ k, Stands c.tokens (kinds g) k := by
  have hnone : ∀ g ∈ Trace.none.refused, ∃ k, Stands c.tokens (kinds g) k :=
    List.forall_mem_nil _
  have happend : ∀ {t u : Trace}, (∀ g ∈ t.refused, ∃ k, Stands c.tokens (kinds g) k) →
      (∀ g ∈ u.refused, ∃ k, Stands c.tokens (kinds g) k) →
      ∀ g ∈ (t ++ u).refused, ∃ k, Stands c.tokens (kinds g) k :=
    fun ht hu => List.forall_mem_append.mpr ⟨ht, hu⟩
  induction e generalizing i t with
  | token ks =>
      cases hfound with
      | here | other | past => exact hnone
  | done value =>
      obtain ⟨-, rfl⟩ := hfound
      exact hnone
  | seq f x ihf ihx =>
      simp only [marked, Bool.and_eq_true] at h
      cases hfound with
      | first hf => exact ihf h.1 hf
      | second hf hx | both hf hx => exact happend (ihf h.1 hf) (ihx h.2 hx)
  | map f x ih =>
      cases hfound with
      | fails hx | finds hx => exact ih h hx
  | check f x ih =>
      cases hfound with
      | fails hx | finds hx => exact ih h hx
      | refuses hx => exact happend (ih h hx) hnone
  | since v x ih =>
      simp only [marked, Bool.and_eq_true] at h
      cases hfound with
      | fails hx | finds hx => exact ih h.2 hx
      | refuses hx =>
          -- what was refused has been read, and it has a token by which it is told
          refine happend (ih h.2 hx) fun g hg => ?_
          cases List.mem_singleton.mp hg
          exact stands_of_needs h.1 hx.reads
  | orElse a b iha ihb =>
      simp only [marked, Bool.and_eq_true] at h
      cases hfound with
      | first ha => exact iha h.1 ha
      | second ha hb => exact happend (iha h.1 ha) (ihb h.2 hb)
  | star x ih =>
      obtain ⟨as, j, -, hstar⟩ := hfound
      induction hstar with
      | stop hx => exact ih h hx
      | more hx _ iht => exact happend (ih h hx) iht
  | next ks | notNext ks | finish =>
      cases hfound with
      | holds | fails => exact hnone
  | call s => exact hcall s i o t hfound

end Expr

/-! ## §2. The language. -/

/-- The kinds of tokens by which the syntax is known that a version has brought. -/
def newKinds : Version → List Kind
  | ⟨2, 6⟩ => rangePoints
  | ⟨2, 7⟩ => .kIN :: openPoints
  | ⟨3, 0⟩ => [.tASSOC, .tEQL]
  | ⟨3, 1⟩ => [.tAMPER, .tLABEL]
  | ⟨3, 2⟩ => [.tSTAR, .tDSTAR]
  | _ => []

theorem rule_marked (s : Grammar.Symbol) : (rule s).marked newKinds = true := by
  cases s with
  | operation level =>
      exact forall_operationRule (P := fun e => e.marked newKinds = true) (by decide) level
  | expression level =>
      exact forall_expressionRule (P := fun e => e.marked newKinds = true) (by decide) level
  | param ofBlock => cases ofBlock <;> rfl
  | _ => rfl

end RubySyntax.Grammar

namespace RubySyntax.Program

open Token Grammar

/-- Reading a program in a version refuses syntax that another version has brought. -/
def Refuses (version : Version) (tokens : List Token) (g : Version) : Prop :=
  ∃ o t, program.Finds (language.derived tokens.toArray version) 0 o t ∧ g ∈ t.refused

/-- **What is refused in a program contains a token of its kinds.** -/
theorem stands_of_refuses {version : Version} {tokens : List Token} {g : Version}
    (h : Refuses version tokens g) : ∃ tok ∈ tokens, tok.kind ∈ newKinds g := by
  obtain ⟨o, t, hfound, hg⟩ := h
  have hcall : ∀ s i o t, (language.derived tokens.toArray version).finds s i o t →
      ∀ g ∈ t.refused, ∃ k, Stands tokens.toArray (newKinds g) k := by
    intro s i o t hs
    refine Rules.derived_induction (P := fun _ _ _ t => ∀ g ∈ t.refused,
      ∃ k, Stands tokens.toArray (newKinds g) k) (fun s i o t hrule => ?_) hs
    exact Expr.stands_of_refused (rule_marked s) (fun _ _ _ _ (h : _ ∧ _) => h.2) hrule
  obtain ⟨k, tok, htok, hkind⟩ := Expr.stands_of_refused rfl hcall hfound g hg
  rw [List.getElem?_toArray] at htok
  exact ⟨tok, List.mem_of_getElem? htok, hkind⟩

/-- The kinds of tokens by which new syntax is known. -/
def markKinds : List Kind :=
  ([⟨2, 6⟩, ⟨2, 7⟩, ⟨3, 0⟩, ⟨3, 1⟩, ⟨3, 2⟩] : List Version).flatMap newKinds

theorem mem_markKinds {g : Version} {kind : Kind} (h : kind ∈ newKinds g) : kind ∈ markKinds := by
  have hg : g ∈ ([⟨2, 6⟩, ⟨2, 7⟩, ⟨3, 0⟩, ⟨3, 1⟩, ⟨3, 2⟩] : List Version) := by
    unfold newKinds at h
    split at h
    case h_6 => cases h
    all_goals decide
  exact List.mem_flatMap.mpr ⟨g, hg, h⟩

/-- In a program without such tokens nothing is refused. -/
theorem not_refuses {version : Version} {tokens : List Token}
    (h : ∀ tok ∈ tokens, tok.kind ∉ markKinds) (g : Version) : ¬ Refuses version tokens g := by
  intro hg
  obtain ⟨tok, htok, hkind⟩ := stands_of_refuses hg
  exact h tok htok (mem_markKinds hkind)

end RubySyntax.Program
