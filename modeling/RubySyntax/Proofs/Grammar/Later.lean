/-
  RubySyntax.Proofs.Grammar.Later
  ───────────────────────────────
  **READING IN A LATER VERSION.**

  The same tokens are read in two versions, the second not before the first.  As long as the first
  refuses nothing that the second has, both take the same alternatives: they fail together, or give
  values at one position.  The values need not be the same, but they are related; what is asked of
  them to decide whether they are refused must not tell related values apart.

  `e.Keeps c c' R` says that of an expression, and there is one lemma for each constructor.

  Main results:
    • `Keeps.seq`, `Keeps.check`, `Keeps.since`, … — one lemma for each constructor,
    • `keeps_eq` — where no test depends on the version, values stay the same,
    • `keeps_any` — where tests decide alike, both versions read up to the same position,
    • `derived_later` — what the rules keep, all symbols of a grammar keep.
-/
import Mathlib.Data.List.Forall2
import RubySyntax.Proofs.Grammar.Finding

namespace RubySyntax.Grammar

open Token

/-! ## §1. Related findings. -/

/-- All that was refused, a version lacks as well. -/
def Trace.Spares (t : Trace) (w : Version) : Prop := ∀ g ∈ t.refused, w.atLeast g = false

@[simp] theorem Trace.spares_append {s t : Trace} {w : Version} :
    (s ++ t).Spares w ↔ s.Spares w ∧ t.Spares w :=
  List.forall_mem_append

/-- Two readings fail, or give related values at one position. -/
inductive Corresponds {α : Type} (R : α → α → Prop) :
    Option (α × Nat) → Option (α × Nat) → Prop where
  | fails : Corresponds R none none
  | finds {a b : α} {j : Nat} (h : R a b) : Corresponds R (some (a, j)) (some (b, j))

/-- What is found corresponds to something that is found elsewhere, if all that was refused is
refused there too. -/
def Finding.Keeps {α : Type} (w : Version) (R : α → α → Prop) (X Y : Finding α) : Prop :=
  ∀ o t, X o t → t.Spares w → ∃ o' t', Y o' t' ∧ Corresponds R o o'

/-- What an expression finds from any position on corresponds to what it finds by other facts. -/
def Expr.Keeps {Symbol : Type} {Result : Symbol → Type} (c c' : Facts Symbol Result) {α : Type}
    (R : α → α → Prop) (e : Expr Symbol Result α) : Prop :=
  ∀ i, Finding.Keeps c'.version R (e.Finds c i) (e.Finds c' i)

variable {Symbol : Type} {Result : Symbol → Type}

/-- Facts about the same tokens in a version that is not before the other one, where what symbols
find corresponds. -/
structure Later (R : (s : Symbol) → Result s → Result s → Prop) (c c' : Facts Symbol Result) :
    Prop where
  tokens : c'.tokens = c.tokens
  version : c'.version.atLeast c.version = true
  call : ∀ s, (Expr.call s).Keeps c c' (R s)

namespace Expr

/-! ## §2. One lemma for each constructor. -/

section Constructors

variable {R : (s : Symbol) → Result s → Result s → Prop} {c c' : Facts Symbol Result} {α β : Type}
  {S : α → α → Prop} {T : β → β → Prop}

theorem Keeps.imp {e : Expr Symbol Result α} {S' : α → α → Prop} (h : e.Keeps c c' S)
    (hS : ∀ a b, S a b → S' a b) : e.Keeps c c' S' := by
  intro i o t hx ht
  obtain ⟨o', t', hx', ho⟩ := h i o t hx ht
  refine ⟨o', t', hx', ?_⟩
  cases ho with
  | fails => exact .fails
  | finds hab => exact .finds (hS _ _ hab)

theorem Keeps.token (h : Later R c c') (kinds : List Kind) :
    (Expr.token kinds : Expr Symbol Result Token).Keeps c c' Eq := by
  intro i o t hx _
  refine ⟨o, t, ?_, ?_⟩
  · show TokenFinds c'.tokens kinds i o t
    exact h.tokens ▸ hx
  · cases hx with
    | here => exact .finds rfl
    | other | past => exact .fails

theorem Keeps.done {a : α} (ha : S a a) : (Expr.done a : Expr Symbol Result α).Keeps c c' S := by
  rintro i o t ⟨rfl, rfl⟩ _
  exact ⟨_, _, ⟨rfl, rfl⟩, .finds ha⟩

theorem Keeps.seq {f : Expr Symbol Result (α → β)} {x : Expr Symbol Result α}
    (hf : f.Keeps c c' fun g g' => ∀ a a', S a a' → T (g a) (g' a')) (hx : x.Keeps c c' S) :
    (Expr.seq f x).Keeps c c' T := by
  intro i o t h ht
  cases h with
  | first h =>
      obtain ⟨_, t', h', ho⟩ := hf _ _ _ h ht
      cases ho with
      | fails => exact ⟨none, t', .first h', .fails⟩
  | second h hnone =>
      -- the trace of both parts spares what the trace of each spares
      rw [Trace.spares_append] at ht
      obtain ⟨_, t', h', ho⟩ := hf _ _ _ h ht.1
      cases ho with
      | finds =>
          obtain ⟨_, u', hnone', ho⟩ := hx _ _ _ hnone ht.2
          cases ho with
          | fails => exact ⟨none, t' ++ u', .second h' hnone', .fails⟩
  | both h hsome =>
      rw [Trace.spares_append] at ht
      obtain ⟨_, t', h', ho⟩ := hf _ _ _ h ht.1
      cases ho with
      | finds hg =>
          obtain ⟨_, u', hsome', ho⟩ := hx _ _ _ hsome ht.2
          cases ho with
          | finds ha => exact ⟨_, t' ++ u', .both h' hsome', .finds (hg _ _ ha)⟩

theorem Keeps.map {f : α → β} {x : Expr Symbol Result α} (hx : x.Keeps c c' S)
    (hf : ∀ a a', S a a' → T (f a) (f a')) : (Expr.map f x).Keeps c c' T := by
  intro i o t h ht
  cases h with
  | fails h =>
      obtain ⟨_, t', h', ho⟩ := hx _ _ _ h ht
      cases ho with
      | fails => exact ⟨none, t', .fails h', .fails⟩
  | finds h =>
      obtain ⟨_, t', h', ho⟩ := hx _ _ _ h ht
      cases ho with
      | finds ha => exact ⟨_, t', .finds h', .finds (hf _ _ ha)⟩

theorem Keeps.check {f : Version → α → Option β} {x : Expr Symbol Result α} (hx : x.Keeps c c' S)
    (hf : ∀ a a', S a a' → Option.Rel T (f c.version a) (f c'.version a')) :
    (Expr.check f x).Keeps c c' T := by
  intro i o t h ht
  cases h with
  | fails h =>
      obtain ⟨_, t', h', ho⟩ := hx _ _ _ h ht
      cases ho with
      | fails => exact ⟨none, t', .fails h', .fails⟩
  | refuses h hnone =>
      obtain ⟨_, t', h', ho⟩ := hx _ _ _ h (Trace.spares_append.mp ht).1
      cases ho with
      | finds ha =>
          -- the check answers the other value alike, so it refuses that too
          have hrel := hf _ _ ha
          rw [hnone] at hrel
          generalize hnone' : f c'.version _ = r at hrel
          cases hrel with
          | none => exact ⟨none, _, .refuses h' hnone', .fails⟩
  | finds h hsome =>
      obtain ⟨_, t', h', ho⟩ := hx _ _ _ h ht
      cases ho with
      | finds ha =>
          have hrel := hf _ _ ha
          rw [hsome] at hrel
          generalize hsome' : f c'.version _ = r at hrel
          cases hrel with
          | some hb => exact ⟨_, _, .finds h' hsome', .finds hb⟩

/-- What the earlier version refuses, the later one lacks; what the earlier one has, the later one
has too. -/
theorem Keeps.since (h : Later R c c') (v : Version) {x : Expr Symbol Result α}
    (hx : x.Keeps c c' S) : (Expr.since v x).Keeps c c' S := by
  intro i o t hfound ht
  cases hfound with
  | fails hnone =>
      obtain ⟨_, t', hnone', ho⟩ := hx _ _ _ hnone ht
      cases ho with
      | fails => exact ⟨none, t', .fails hnone', .fails⟩
  | refuses hsome =>
      rw [Trace.spares_append] at ht
      obtain ⟨_, t', hsome', ho⟩ := hx _ _ _ hsome ht.1
      cases ho with
      | finds =>
          have hlacks : c'.version.atLeast v = false := ht.2 v List.mem_cons_self
          exact ⟨none, _, .refuses hsome' hlacks, .fails⟩
  | finds hsome hv =>
      obtain ⟨_, t', hsome', ho⟩ := hx _ _ _ hsome ht
      cases ho with
      | finds ha => exact ⟨_, t', .finds hsome' (Version.atLeast_trans h.version hv), .finds ha⟩

theorem Keeps.orElse {a b : Expr Symbol Result α} (ha : a.Keeps c c' S) (hb : b.Keeps c c' S) :
    (Expr.orElse a b).Keeps c c' S := by
  intro i o t h ht
  cases h with
  | first h =>
      obtain ⟨_, t', h', ho⟩ := ha _ _ _ h ht
      cases ho with
      | finds hv => exact ⟨_, t', .first h', .finds hv⟩
  | second h hsecond =>
      rw [Trace.spares_append] at ht
      obtain ⟨_, t', h', ho⟩ := ha _ _ _ h ht.1
      cases ho with
      | fails =>
          obtain ⟨o', u', hsecond', ho⟩ := hb _ _ _ hsecond ht.2
          exact ⟨o', t' ++ u', .second h' hsecond', ho⟩

theorem Keeps.star {x : Expr Symbol Result α} (hx : x.Keeps c c' S) :
    (Expr.star x).Keeps c c' (List.Forall₂ S) := by
  rintro i o t ⟨as, j, rfl, h⟩ ht
  suffices ∃ as' t', StarFinds (x.Finds c') i as' j t' ∧ List.Forall₂ S as as' by
    obtain ⟨as', t', h', has⟩ := this
    exact ⟨_, t', ⟨as', j, rfl, h'⟩, .finds has⟩
  induction h with
  | stop h =>
      obtain ⟨_, t', h', ho⟩ := hx _ _ _ h ht
      cases ho with
      | fails => exact ⟨[], t', .stop h', .nil⟩
  | more h _ ih =>
      rw [Trace.spares_append] at ht
      obtain ⟨_, t', h', ho⟩ := hx _ _ _ h ht.1
      cases ho with
      | finds ha =>
          obtain ⟨as', u', hrest', has⟩ := ih ht.2
          exact ⟨_, t' ++ u', .more h' hrest', .cons ha has⟩

theorem Keeps.test {P : Facts Symbol Result → Nat → Prop} {x : Expr Symbol Result Unit}
    {S : Unit → Unit → Prop} (hS : ∀ a b, S a b) (hP : ∀ i, P c i ↔ P c' i)
    (hx : ∀ c i, x.Finds c i = TestFinds (P c i) i) : x.Keeps c c' S := by
  intro i o t h _
  rw [hx] at h
  rw [hx]
  cases h with
  | holds h => exact ⟨_, _, .holds ((hP i).mp h), .finds (hS _ _)⟩
  | fails h => exact ⟨_, _, .fails fun h' => h ((hP i).mpr h'), .fails⟩

theorem Keeps.next (h : Later R c c') (kinds : List Kind) {S : Unit → Unit → Prop}
    (hS : ∀ a b, S a b) : (Expr.next kinds : Expr Symbol Result Unit).Keeps c c' S :=
  .test hS (P := fun c i => Stands c.tokens kinds i) (fun _ => by rw [h.tokens]) fun _ _ => rfl

theorem Keeps.notNext (h : Later R c c') (kinds : List Kind) {S : Unit → Unit → Prop}
    (hS : ∀ a b, S a b) : (Expr.notNext kinds : Expr Symbol Result Unit).Keeps c c' S :=
  .test hS (P := fun c i => ¬ Stands c.tokens kinds i) (fun _ => by rw [h.tokens]) fun _ _ => rfl

theorem Keeps.finish (h : Later R c c') {S : Unit → Unit → Prop} (hS : ∀ a b, S a b) :
    (Expr.finish : Expr Symbol Result Unit).Keeps c c' S :=
  .test hS (P := fun c i => c.tokens.size ≤ i) (fun _ => by rw [h.tokens]) fun _ _ => rfl

/-! ## §3. Derived expressions. -/

variable {x : Expr Symbol Result α} {y : Expr Symbol Result β}

theorem Keeps.opt (hx : x.Keeps c c' S) : (Expr.opt x).Keeps c c' (Option.Rel S) :=
  .orElse (.map hx fun _ _ => .some) (.done .none)

theorem Keeps.seqLeft (hx : x.Keeps c c' S) (hy : y.Keeps c c' T) : (x <* y).Keeps c c' S :=
  .seq (.map hx fun _ _ ha _ _ _ => ha) hy

theorem Keeps.seqRight (hx : x.Keeps c c' S) (hy : y.Keeps c c' T) : (x *> y).Keeps c c' T :=
  .seq (.map hx fun _ _ _ _ _ hb => hb) hy

theorem Keeps.plus (hx : x.Keeps c c' S) : (Expr.plus x).Keeps c c' (List.Forall₂ S) :=
  .seq (.map hx fun _ _ ha _ _ has => .cons ha has) (.star hx)

theorem Keeps.sepBy1 (hx : x.Keeps c c' S) (hy : y.Keeps c c' T) :
    (Expr.sepBy1 x y).Keeps c c' fun as as' => List.Forall₂ S as as' ∧ as ≠ [] :=
  .seq (.map hx fun _ _ ha _ _ has => ⟨.cons ha has, List.cons_ne_nil _ _⟩)
    (.star (.seqRight hy hx))

theorem Keeps.sepBy (hx : x.Keeps c c' S) (hy : y.Keeps c c' T) :
    (Expr.sepBy x y).Keeps c c' (List.Forall₂ S) :=
  .orElse ((Keeps.sepBy1 hx hy).imp fun _ _ h => h.1) (.done .nil)

theorem Keeps.firstOf {xs : List (Expr Symbol Result α)} (hxs : ∀ x ∈ xs, x.Keeps c c' S)
    (hx : x.Keeps c c' S) : (Expr.firstOf xs x).Keeps c c' S := by
  induction xs with
  | nil => exact hx
  | cons y xs ih =>
      exact .orElse (hxs y List.mem_cons_self)
        (ih fun x hx => hxs x (List.mem_cons_of_mem _ hx))

theorem Keeps.foldl_orElse {xs : List (Expr Symbol Result α)} {x : Expr Symbol Result α}
    (hx : x.Keeps c c' S) (hxs : ∀ x ∈ xs, x.Keeps c c' S) :
    (xs.foldl Expr.orElse x).Keeps c c' S := by
  induction xs generalizing x with
  | nil => exact hx
  | cons y xs ih =>
      exact ih (.orElse hx (hxs y List.mem_cons_self)) fun z hz =>
        hxs z (List.mem_cons_of_mem _ hz)

end Constructors

/-! ## §4. Tests of values. -/

/-- All tests of values in an expression have a property, each together with the expression whose
values are tested. -/
def Tests (Q : ∀ {α β : Type}, (Version → α → Option β) → Expr Symbol Result α → Prop) :
    {α : Type} → Expr Symbol Result α → Prop
  | _, .seq f x => f.Tests Q ∧ x.Tests Q
  | _, .map _ x | _, .since _ x | _, .star x => x.Tests Q
  | _, .check f x => Q f x ∧ x.Tests Q
  | _, .orElse a b => a.Tests Q ∧ b.Tests Q
  | _, _ => True

/-- Whether an expression tests no values. -/
def testless : {α : Type} → Expr Symbol Result α → Bool
  | _, .seq f x => f.testless && x.testless
  | _, .map _ x | _, .since _ x | _, .star x => x.testless
  | _, .check _ _ => false
  | _, .orElse a b => a.testless && b.testless
  | _, _ => true

section Tests

variable {R : (s : Symbol) → Result s → Result s → Prop} {c c' : Facts Symbol Result} {α β : Type}
  {Q Q' : ∀ {α β : Type}, (Version → α → Option β) → Expr Symbol Result α → Prop}

theorem tests_of_testless {e : Expr Symbol Result α} (h : e.testless = true) : e.Tests Q := by
  induction e with
  | seq f x ihf ihx =>
      simp only [testless, Bool.and_eq_true] at h
      exact ⟨ihf h.1, ihx h.2⟩
  | map f x ih | since v x ih | star x ih => exact ih h
  | check f x ih => cases h
  | orElse a b iha ihb =>
      simp only [testless, Bool.and_eq_true] at h
      exact ⟨iha h.1, ihb h.2⟩
  | _ => trivial

/-- **Where no test depends on the version, values stay the same**, if that is so for the
symbols. -/
theorem keeps_eq (h : Later (fun _ => Eq) c c') {e : Expr Symbol Result α}
    (he : e.Tests fun f _ => f c.version = f c'.version) : e.Keeps c c' Eq := by
  induction e with
  | token kinds => exact .token h kinds
  | done value => exact .done rfl
  | seq f x ihf ihx =>
      refine .seq ((ihf he.1).imp ?_) (ihx he.2)
      rintro g _ rfl a _ rfl
      rfl
  | map f x ih => exact .map (ih he) fun _ _ ha => congrArg f ha
  | check f x ih =>
      refine .check (ih he.2) ?_
      rintro a _ rfl
      rw [← he.1]
      cases f c.version a with
      | none => exact .none
      | some b => exact .some rfl
  | since v x ih => exact .since h v (ih he)
  | orElse a b iha ihb => exact .orElse (iha he.1) (ihb he.2)
  | star x ih =>
      refine (Keeps.star (ih he)).imp fun as as' has => ?_
      rwa [List.forall₂_eq_eq_eq] at has
  | next kinds => exact .next h kinds fun _ _ => rfl
  | notNext kinds => exact .notNext h kinds fun _ _ => rfl
  | finish => exact .finish h fun _ _ => rfl
  | call s => exact h.call s

theorem rel_of_isSome {o o' : Option α} (h : o.isSome = o'.isSome) :
    Option.Rel (fun _ _ => True) o o' := by
  cases o with
  | none =>
      cases o' with
      | none => exact .none
      | some => cases h
  | some =>
      cases o' with
      | none => cases h
      | some => exact .some trivial

/-- **Where tests decide alike, both versions read up to the same position.** -/
theorem keeps_any (h : Later R c c') {e : Expr Symbol Result α}
    (he : e.Tests fun f x => ∃ S, x.Keeps c c' S ∧
      ∀ a a', S a a' → (f c.version a).isSome = (f c'.version a').isSome) :
    e.Keeps c c' fun _ _ => True := by
  induction e with
  | token kinds => exact (Keeps.token h kinds).imp fun _ _ _ => trivial
  | done value => exact .done trivial
  | seq f x ihf ihx => exact .seq ((ihf he.1).imp fun _ _ _ _ _ _ => trivial) (ihx he.2)
  | map f x ih => exact .map (ih he) fun _ _ _ => trivial
  | check f x ih =>
      obtain ⟨S, hx, hf⟩ := he.1
      exact .check hx fun a a' ha => rel_of_isSome (hf a a' ha)
  | since v x ih => exact .since h v (ih he)
  | orElse a b iha ihb => exact .orElse (iha he.1) (ihb he.2)
  | star x ih => exact (Keeps.star (ih he)).imp fun _ _ _ => trivial
  | next kinds => exact .next h kinds fun _ _ => trivial
  | notNext kinds => exact .notNext h kinds fun _ _ => trivial
  | finish => exact .finish h fun _ _ => trivial
  | call s => exact (h.call s).imp fun _ _ _ => trivial

end Tests

/-! ## §5. Values of one form. -/

/-- All values have a property, whatever is read for the parts of the expression. -/
def Makes : {α : Type} → (α → Prop) → Expr Symbol Result α → Prop
  | _, P, .done value => P value
  | _, P, .seq f _ => f.Makes fun g => ∀ a, P (g a)
  | _, P, .map f x => x.Makes fun a => P (f a)
  | _, P, .check f x => x.Makes fun a => ∀ v b, f v a = some b → P b
  | _, P, .since _ x => x.Makes P
  | _, P, .orElse a b => a.Makes P ∧ b.Makes P
  | _, P, _ => ∀ v, P v

theorem Makes.reads {α : Type} {c : Context Symbol Result} {e : Expr Symbol Result α}
    {P : α → Prop} {i j : Nat} {v : α} (h : e.Makes P) (hread : e.Reads c i v j) : P v := by
  induction e generalizing i j with
  | done value =>
      obtain ⟨rfl, -⟩ := hread
      exact h
  | seq f _ ihf _ =>
      obtain ⟨k, g, hf, a, -, rfl⟩ := hread
      exact ihf h hf a
  | map f x ih =>
      obtain ⟨a, hx, rfl⟩ := hread
      exact ih h hx
  | check f x ih =>
      obtain ⟨a, hx, hb⟩ := hread
      exact ih h hx _ _ hb
  | since v x ih => exact ih h hread.1
  | orElse a b iha ihb => exact hread.elim (iha h.1) (ihb h.2)
  | _ => exact h v

end Expr

/-! ## §6. All symbols of a grammar. -/

/-- **What the rules keep, all symbols of a grammar keep.** -/
theorem Rules.derived_later {g : Rules} {R : (s : g.Symbol) → g.Result s → g.Result s → Prop}
    {tokens : Array Token} {v w : Version} (hvw : w.atLeast v = true)
    (hrule : ∀ c c' : Facts g.Symbol g.Result, Later R c c' → c.version = v → c'.version = w →
      ∀ s, (g.rule s).Keeps c c' (R s)) :
    Later R (g.derived tokens v) (g.derived tokens w) := by
  refine ⟨rfl, hvw, fun s i o t hfound => ?_⟩
  refine derived_induction (P := fun s i o t => t.Spares w →
    ∃ o' t', (g.derived tokens w).finds s i o' t' ∧ Corresponds (R s) o o') ?_ hfound
  intro s i o t hfound ht
  obtain ⟨o', t', hfound', ho⟩ := hrule ⟨tokens, v, _⟩ (g.derived tokens w)
    ⟨rfl, hvw, fun s i o t h => h.2⟩ rfl rfl s i o t hfound ht
  exact ⟨o', t', derived_iff.mpr hfound', ho⟩

end RubySyntax.Grammar
