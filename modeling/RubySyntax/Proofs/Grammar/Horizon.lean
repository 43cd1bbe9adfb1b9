/-
  RubySyntax.Proofs.Grammar.Horizon
  ─────────────────────────────────
  **WHAT IS FOUND BEFORE A HORIZON.**

  Two lists of tokens agree before an index, the horizon.  What reading one of them finds is found
  in the other, if neither its trace nor its end reaches beyond the horizon: failures, values that
  end before the horizon, and values that end at it.  Which of the three an expression carries
  over is read off the expression.

  A lookahead leaves no trace, so a failed one may have looked at the token on the horizon.  It
  carries over only what ends before the horizon.

  Main results:
    • `Carry.Holds.seq`, `.or`, `.repeated`, … — what the combinators of expressions carry over,
    • `carry_holds` — what is read off an expression is carried over.
-/
import RubySyntax.Proofs.Grammar.Derivation
import RubySyntax.Proofs.Grammar.Yields

namespace RubySyntax.Grammar

open Token

/-! ## §1. Lists that agree. -/

/-- The kinds of tokens behind which patterns stand. -/
def patternMarks : List Kind := [.kIN, .tASSOC]

/-- Behind a token that patterns stand behind. -/
def Behind (tokens : Array Token) (i : Nat) : Prop := ∃ k < i, Stands tokens patternMarks k

/-- Two lists of tokens agree before a horizon, which is the index of a token of the first.  Where
the points of a range without a lower bound stand before the horizon, and a name on it, and there
may be patterns, the second list has a name there too, if it has a token there. -/
structure Agree (tokens tokens' : Array Token) (m : Nat) : Prop where
  lt_size : m < tokens.size
  le_size : m ≤ tokens'.size
  before : ∀ k < m, tokens'[k]? = tokens[k]?
  name : ∀ k, k + 1 = m → Behind tokens k → Stands tokens openPoints k →
    Stands tokens [.tIDENTIFIER] m → m < tokens'.size → Stands tokens' [.tIDENTIFIER] m

variable {tokens tokens' : Array Token} {m : Nat}

theorem Agree.stands_iff (h : Agree tokens tokens' m) {kinds : List Kind} {k : Nat} (hk : k < m) :
    Stands tokens' kinds k ↔ Stands tokens kinds k := by
  simp only [Stands, h.before k hk]

theorem Behind.mono {i k : Nat} (h : Behind tokens i) (hk : i ≤ k) : Behind tokens k := by
  obtain ⟨l, hl, hstands⟩ := h
  exact ⟨l, by omega, hstands⟩

/-! ## §2. What is carried over. -/

/-- A trace gets at least as far as another one, but not beyond the horizon. -/
def Trace.Reaches (m : Nat) (t t' : Trace) : Prop :=
  t.farthest ≤ t'.farthest ∧ t'.farthest ≤ m

theorem Trace.Reaches.refl {t : Trace} (h : t.farthest ≤ m) : t.Reaches m t := ⟨Nat.le_refl _, h⟩

theorem Trace.Reaches.append {t t' u u' : Trace} (ht : t.Reaches m t') (hu : u.Reaches m u') :
    (t ++ u).Reaches m (t' ++ u') := by
  obtain ⟨hle, hle'⟩ := ht
  obtain ⟨hleu, hleu'⟩ := hu
  simp only [Trace.Reaches, Trace.farthest_append]
  omega

/-- A finding comes of reading other tokens. -/
def Carried {α : Type} (m : Nat) (F' : Finding α) : Finding α := fun o t =>
  ∃ t', F' o t' ∧ t.Reaches m t'

/-- What may be carried over to other tokens. -/
structure Carry where
  /-- Failures. -/
  failure : Bool
  /-- Values that end at the horizon. -/
  success : Bool
  /-- Values that end before the horizon. -/
  inner : Bool
deriving DecidableEq, Repr

namespace Carry

/-- All is carried over. -/
def all : Carry := ⟨true, true, true⟩

/-- Failures are carried over, and values that end before the horizon. -/
def within : Carry := ⟨true, false, true⟩

/-- No more than another one tells. -/
def le (x y : Carry) : Bool :=
  (!x.failure || y.failure) && (!x.success || y.success) && (!x.inner || y.inner)

/-- One thing after another.  Where the first one has ended, the second one looks on. -/
def seq (f x : Carry) (extent : Extent) : Carry where
  failure := f.failure && x.failure && f.inner && decide (0 < extent.failure)
  success := x.success && (f.success || (f.inner && decide (0 < extent.success)))
  inner := f.inner && x.inner

/-- A thing that may be refused. -/
def checked (x : Carry) : Carry := ⟨x.failure && x.success, x.success, x.inner⟩

/-- The first of two things that does not fail. -/
def or (a b : Carry) : Carry :=
  ⟨a.failure && b.failure, a.success && b.success && a.failure, a.inner && b.inner && a.failure⟩

/-- The first of two things that does not fail, if the failure of the first one is carried over
where it matters. -/
def orAfter (a b : Carry) : Carry := ⟨b.failure, a.success && b.success, a.inner && b.inner⟩

/-- A thing again and again.  It ends with a failure. -/
def repeated (x : Carry) (extent : Extent) : Carry :=
  let carried := x.failure && x.inner && decide (0 < extent.failure)
  ⟨true, carried, carried⟩

/-- What was found is of a kind that is carried over. -/
def Covers {α : Type} (x : Carry) (m : Nat) : Option (α × Nat) → Prop
  | none => x.failure = true
  | some (_, j) => (x.success = true ∧ j ≤ m) ∨ (x.inner = true ∧ j < m)

/-- What is found in some tokens before the horizon is found in others. -/
structure Holds {α : Type} (x : Carry) (m : Nat) (F F' : Finding α) : Prop where
  carried : ∀ {o t}, F o t → t.farthest ≤ m → x.Covers m o → Carried m F' o t

section Combinators

variable {α β : Type} {x y : Carry} {extent : Extent} {size i : Nat}

theorem le_iff : x.le y = true ↔ (x.failure = true → y.failure = true) ∧
    (x.success = true → y.success = true) ∧ (x.inner = true → y.inner = true) := by
  simp only [le, Bool.and_eq_true, Bool.or_eq_true, Bool.not_eq_true', and_assoc]
  cases x.failure <;> cases x.success <;> cases x.inner <;> simp

theorem covers_within {v : α} {j : Nat} : within.Covers m (some (v, j)) ↔ j < m := by
  simp [Covers, within]

theorem Holds.of_le {F F' : Finding α} (h : y.Holds m F F') (hle : x.le y = true) :
    x.Holds m F F' := by
  constructor
  intro o t hfound ht hcovers
  obtain ⟨hfailure, hsuccess, hinner⟩ := le_iff.mp hle
  refine h.carried hfound ht ?_
  cases o with
  | none => exact hfailure hcovers
  | some found => exact hcovers.imp (.imp_left hsuccess) (.imp_left hinner)

/-- Failures may be carried over for a reason of their own. -/
theorem Holds.withFailure {F F' : Finding α} (h : x.Holds m F F') (hx : x.inner = true)
    (hfailure : ∀ t, F none t → t.farthest ≤ m → Carried m F' none t) : within.Holds m F F' := by
  constructor
  intro o t hfound ht hcovers
  cases o with
  | none => exact hfailure t hfound ht
  | some found => exact h.carried hfound ht (.inr ⟨hx, covers_within.mp hcovers⟩)

/-- A token has been looked at, so it stands in both lists if the trace is before the horizon. -/
theorem Holds.token (h : Agree tokens tokens' m) {kinds : List Kind} :
    all.Holds m (TokenFinds tokens kinds i) (TokenFinds tokens' kinds i) := by
  constructor
  intro o t hfound ht hcovers
  cases hfound with
  | here htok hkind =>
      have hi : i < m := by
        simp only [Covers] at hcovers
        omega
      exact ⟨_, .here ((h.before i hi).trans htok) hkind, .refl ht⟩
  | other htok hkind =>
      rw [Trace.farthest_test] at ht
      exact ⟨_, .other ((h.before i ht).trans htok) hkind, .refl ht⟩
  | past htok =>
      have hsize : tokens.size ≤ i := Array.getElem?_eq_none_iff.mp htok
      have := h.lt_size
      rw [Trace.farthest_test] at ht
      omega

/-- A test that leaves no trace is carried over where it holds, before the horizon. -/
theorem Holds.test {P P' : Prop} (h : i < m → P → P') :
    (⟨false, false, true⟩ : Carry).Holds m (TestFinds P i) (TestFinds P' i) := by
  constructor
  intro o t hfound ht hcovers
  cases hfound with
  | holds hP =>
      have hi : i < m := by simpa [Covers] using hcovers
      exact ⟨_, .holds (h hi hP), .refl ht⟩
  | fails _ => cases hcovers

theorem Holds.seq {F F' : Nat → Finding (α → β)} {X X' : Nat → Finding α} (hm : m < size)
    (hF : x.Holds m (F i) (F' i))
    (hX : ∀ g k t, F i (some (g, k)) t → y.Holds m (X k) (X' k))
    (hextent : ∀ k o t, X k o t → extent.Holds size k o t) :
    (x.seq y extent).Holds m (SeqFinds F X i) (SeqFinds F' X' i) := by
  constructor
  intro o t h ht hcovers
  cases h with
  | first hf =>
      simp only [Covers, Carry.seq, Bool.and_eq_true] at hcovers
      obtain ⟨t', hf', ht'⟩ := hF.carried hf ht hcovers.1.1.1
      exact ⟨t', .first hf', ht'⟩
  | @second g k t u hf hx =>
      simp only [Covers, Carry.seq, Bool.and_eq_true, decide_eq_true_eq] at hcovers
      obtain ⟨⟨⟨-, hfailure⟩, hinner⟩, hpos⟩ := hcovers
      rw [Trace.farthest_append] at ht
      -- the second thing has looked at the token where the first one has ended
      have hlook := (hextent _ _ _ hx).1 hpos
      have hk : k < m := by omega
      obtain ⟨t', hf', ht'⟩ := hF.carried hf (by omega) (.inr ⟨hinner, hk⟩)
      obtain ⟨u', hx', hu'⟩ := (hX _ _ _ hf).carried hx (by omega) hfailure
      exact ⟨t' ++ u', .second hf' hx', ht'.append hu'⟩
  | @both g a k j t u hf hx =>
      simp only [Covers, Carry.seq, Bool.and_eq_true, Bool.or_eq_true, decide_eq_true_eq] at hcovers
      rw [Trace.farthest_append] at ht
      obtain ⟨hlength, hlook, -⟩ := hextent _ _ _ hx
      have hcover : x.Covers m (some (g, k)) ∧ y.Covers m (some (a, j)) := by
        rcases hcovers with ⟨⟨hsuccess, hfirst | ⟨hinner, hpos⟩⟩, hj⟩ | ⟨⟨hinner, hinner'⟩, hj⟩
        · exact ⟨.inl ⟨hfirst, by omega⟩, .inl ⟨hsuccess, hj⟩⟩
        · exact ⟨.inr ⟨hinner, by omega⟩, .inl ⟨hsuccess, hj⟩⟩
        · exact ⟨.inr ⟨hinner, by omega⟩, .inr ⟨hinner', hj⟩⟩
      obtain ⟨t', hf', ht'⟩ := hF.carried hf (by omega) hcover.1
      obtain ⟨u', hx', hu'⟩ := (hX _ _ _ hf).carried hx (by omega) hcover.2
      exact ⟨t' ++ u', .both hf' hx', ht'.append hu'⟩

theorem Holds.changed {f : α → β} {X X' : Finding α} (hX : x.Holds m X X') :
    x.Holds m (MapFinds f X) (MapFinds f X') := by
  constructor
  intro o t h ht hcovers
  cases h with
  | fails hx =>
      obtain ⟨t', hx', ht'⟩ := hX.carried hx ht hcovers
      exact ⟨t', .fails hx', ht'⟩
  | finds hx =>
      obtain ⟨t', hx', ht'⟩ := hX.carried hx ht hcovers
      exact ⟨t', .finds hx', ht'⟩

theorem Holds.checked {f : α → Option β} {X X' : Finding α} (hX : x.Holds m X X') :
    x.checked.Holds m (CheckFinds f X) (CheckFinds f X') := by
  constructor
  intro o t h ht hcovers
  cases h with
  | fails hx =>
      simp only [Covers, Carry.checked, Bool.and_eq_true] at hcovers
      obtain ⟨t', hx', ht'⟩ := hX.carried hx ht hcovers.1
      exact ⟨t', .fails hx', ht'⟩
  | refuses hx ha =>
      simp only [Covers, Carry.checked, Bool.and_eq_true] at hcovers
      simp only [Trace.farthest_append, Trace.farthest_test] at ht
      obtain ⟨t', hx', ht'⟩ := hX.carried hx (by omega) (.inl ⟨hcovers.2, by omega⟩)
      exact ⟨_, .refuses hx' ha, ht'.append (.refl (by rw [Trace.farthest_test]; omega))⟩
  | finds hx ha =>
      obtain ⟨t', hx', ht'⟩ := hX.carried hx ht hcovers
      exact ⟨t', .finds hx' ha, ht'⟩

theorem Holds.since {version v : Version} {X X' : Finding α} (hX : x.Holds m X X') :
    x.checked.Holds m (SinceFinds version v X) (SinceFinds version v X') := by
  constructor
  intro o t h ht hcovers
  cases h with
  | fails hx =>
      simp only [Covers, Carry.checked, Bool.and_eq_true] at hcovers
      obtain ⟨t', hx', ht'⟩ := hX.carried hx ht hcovers.1
      exact ⟨t', .fails hx', ht'⟩
  | refuses hx hv =>
      simp only [Covers, Carry.checked, Bool.and_eq_true] at hcovers
      simp only [Trace.farthest_append, Trace.farthest_refusal] at ht
      obtain ⟨t', hx', ht'⟩ := hX.carried hx (by omega) (.inl ⟨hcovers.2, by omega⟩)
      exact ⟨_, .refuses hx' hv, ht'.append (.refl (by rw [Trace.farthest_refusal]; omega))⟩
  | finds hx hv =>
      obtain ⟨t', hx', ht'⟩ := hX.carried hx ht hcovers
      exact ⟨t', .finds hx' hv, ht'⟩

/-- A choice, where what the second alternative finds tells that the failure of the first one is
carried over. -/
theorem Holds.orAfter {A A' B B' : Finding α} (hA : x.Holds m A A') (hB : y.Holds m B B')
    (hfailure : ∀ o t u, A none t → B o u → t.farthest ≤ m → u.farthest ≤ m → y.Covers m o →
      Carried m A' none t) :
    (x.orAfter y).Holds m (ChoiceFinds A B) (ChoiceFinds A' B') := by
  constructor
  intro o t h ht hcovers
  cases h with
  | first ha =>
      simp only [Covers, Carry.orAfter, Bool.and_eq_true] at hcovers
      obtain ⟨t', ha', ht'⟩ := hA.carried ha ht (hcovers.imp (.imp_left And.left) (.imp_left And.left))
      exact ⟨t', .first ha', ht'⟩
  | @second o t u ha hb =>
      rw [Trace.farthest_append] at ht
      -- what the second thing finds is what the choice finds, so it is covered alike
      have hcover : y.Covers m o := by
        cases o with
        | none => exact hcovers
        | some found =>
            simp only [Covers, Carry.orAfter, Bool.and_eq_true] at hcovers
            exact hcovers.imp (.imp_left And.right) (.imp_left And.right)
      obtain ⟨t', ha', ht'⟩ := hfailure o t u ha hb (by omega) (by omega) hcover
      obtain ⟨u', hb', hu'⟩ := hB.carried hb (by omega) hcover
      exact ⟨t' ++ u', .second ha' hb', ht'.append hu'⟩

theorem Holds.or {A A' B B' : Finding α} (hA : x.Holds m A A') (hB : y.Holds m B B') :
    (x.or y).Holds m (ChoiceFinds A B) (ChoiceFinds A' B') := by
  cases hx : x.failure with
  | true =>
      refine (hA.orAfter hB fun o t u ha _ ht _ _ => hA.carried ha ht hx).of_le ?_
      simp [le_iff, Carry.or, Carry.orAfter, hx]
  | false =>
      constructor
      intro o t h ht hcovers
      cases o <;> simp [Covers, Carry.or, hx] at hcovers

theorem Holds.within_or {A A' B B' : Finding α} (hA : within.Holds m A A')
    (hB : within.Holds m B B') : within.Holds m (ChoiceFinds A B) (ChoiceFinds A' B') :=
  (hA.or hB).of_le rfl

/-- A repetition ends with a failure, which has looked at the token where it ends. -/
theorem Holds.star {X X' : Nat → Finding α} {as : List α} {j : Nat} {t : Trace} (hm : m < size)
    (hcarry : x.failure = true ∧ x.inner = true) (hpos : 0 < extent.failure)
    (hX : ∀ k, i ≤ k → x.Holds m (X k) (X' k))
    (hextent : ∀ k o t, X k o t → extent.Holds size k o t) (h : StarFinds X i as j t)
    (ht : t.farthest ≤ m) : j < m ∧ ∃ t', StarFinds X' i as j t' ∧ t.Reaches m t' := by
  induction h with
  | stop hx =>
      have hlook := (hextent _ _ _ hx).1 hpos
      obtain ⟨t', hx', ht'⟩ := (hX _ (Nat.le_refl _)).carried hx ht hcarry.1
      exact ⟨by omega, t', .stop hx', ht'⟩
  | more hx hrest ih =>
      rw [Trace.farthest_append] at ht
      obtain ⟨hlength, -, -⟩ := hextent _ _ _ hx
      obtain ⟨hkj, -, -⟩ := Extent.Holds.repeated hrest (hextent _ _ _)
      obtain ⟨hj, u', hrest', hu'⟩ := ih (fun l hl => hX l (by omega)) (by omega)
      obtain ⟨t', hx', ht'⟩ := (hX _ (Nat.le_refl _)).carried hx (by omega) (.inr ⟨hcarry.2, by omega⟩)
      exact ⟨hj, t' ++ u', .more hx' hrest', ht'.append hu'⟩

theorem Holds.repeated {X X' : Nat → Finding α} (hm : m < size)
    (hX : ∀ k, i ≤ k → x.Holds m (X k) (X' k))
    (hextent : ∀ k o t, X k o t → extent.Holds size k o t) :
    (x.repeated extent).Holds m (fun o t => ∃ as j, o = some (as, j) ∧ StarFinds X i as j t)
      (fun o t => ∃ as j, o = some (as, j) ∧ StarFinds X' i as j t) := by
  constructor
  rintro o t ⟨as, j, rfl, hfound⟩ ht hcovers
  simp only [Covers, Carry.repeated, Bool.and_eq_true, decide_eq_true_eq] at hcovers
  have hcarry : (x.failure = true ∧ x.inner = true) ∧ 0 < extent.failure :=
    hcovers.elim And.left And.left
  obtain ⟨-, t', hfound', ht'⟩ := Holds.star hm hcarry.1 hcarry.2 hX hextent hfound ht
  exact ⟨t', ⟨as, j, rfl, hfound'⟩, ht'⟩

end Combinators

end Carry

/-! ## §3. What an expression carries over. -/

/-- Every reading of an expression reads a token that patterns stand behind. -/
def Expr.marks : {α : Type} → Rule α → Bool
  | _, .token kinds => kinds.all patternMarks.contains
  | _, .seq f x => f.marks || x.marks
  | _, .map _ x => x.marks
  | _, .check _ x => x.marks
  | _, .since _ x => x.marks
  | _, .orElse a b => a.marks && b.marks
  | _, _ => false

/-- What a symbol carries over, behind a token that patterns stand behind or anywhere.  A constant
with two colons and what is passed on by three points end with a lookahead. -/
def Symbol.carry (s : Symbol) (behind : Bool) : Carry where
  failure := !s.isPattern || behind
  success := (!s.isPattern || behind) && !(s == .callArgument || s == .suffix)
  inner := !s.isPattern || behind

/-- What an expression carries over, behind a token that patterns stand behind or anywhere. -/
def Expr.carry : {α : Type} → Rule α → (behind : Bool) → Carry
  | _, .seq f x, behind =>
    (f.carry behind).seq (x.carry (behind || f.marks)) (x.extent none)
  | _, .map _ x, behind => x.carry behind
  | _, .check _ x, behind => (x.carry behind).checked
  | _, .since _ x, behind => (x.carry behind).checked
  | _, .orElse a b, behind => (a.carry behind).or (b.carry behind)
  | _, .star x, behind => (x.carry behind).repeated (x.extent none)
  | _, .next _, _ => ⟨false, false, true⟩
  | _, .notNext _, _ => ⟨false, false, true⟩
  | _, .finish, _ => ⟨false, false, true⟩
  | _, .call s, behind => s.carry behind
  | _, _, _ => .all

/-- What is found by a symbol is found in the other tokens. -/
def Symbol.Carries (tokens tokens' : Array Token) (version : Version) (m : Nat) (s : Symbol)
    (i : Nat) : Finding s.Result := fun o t =>
  ∀ behind, (behind = true → Behind tokens i) → t.farthest ≤ m → (s.carry behind).Covers m o →
    Carried m ((language.derived tokens' version).finds s i) o t

/-- What symbols find, and find in the other tokens. -/
abbrev carrying (tokens tokens' : Array Token) (version : Version) (m : Nat) :
    Facts Symbol Symbol.Result where
  tokens
  version
  finds s i o t := (language.derived tokens version).finds s i o t ∧
    s.Carries tokens tokens' version m i o t

section Expr

variable {version : Version} {α : Type} {e : Rule α} {i : Nat} {o : Option (α × Nat)} {t : Trace}

theorem derived_of_carrying (h : e.Finds (carrying tokens tokens' version m) i o t) :
    e.Finds (language.derived tokens version) i o t :=
  h.mono rfl rfl fun _ _ _ _ h => h.1

/-- A reading that reads a mark ends behind it. -/
theorem behind_of_marks (he : e.marks = true) {v : α} {j : Nat}
    (h : e.Finds (language.derived tokens version) i (some (v, j)) t) : Behind tokens j := by
  induction e generalizing i t j with
  | token kinds =>
      cases h with
      | here ht hkind =>
          have hmark := List.all_eq_true.mp he _ hkind
          exact ⟨i, Nat.lt_succ_self i, _, ht, List.contains_iff_mem.mp hmark⟩
  | seq f x ihf ihx =>
      cases h with
      | both hf hx =>
          -- a mark in the first part stays behind what is read after it
          rcases Bool.or_eq_true _ _ ▸ he with he | he
          · obtain ⟨hlength, -, -⟩ := extent_of_finds hx
            exact (ihf he hf).mono (by omega)
          · exact ihx he hx
  | map f x ih =>
      cases h with
      | finds hx => exact ih he hx
  | check f x ih =>
      cases h with
      | finds hx _ => exact ih he hx
  | since v x ih =>
      cases h with
      | finds hx _ => exact ih he hx
  | orElse a b iha ihb =>
      obtain ⟨ha, hb⟩ := Bool.and_eq_true_iff.mp he
      cases h with
      | first h => exact iha ha h
      | second _ h => exact ihb hb h
  | _ => cases he

/-- What an expression finds from a position on is found in the other tokens. -/
abbrev Expr.CarriesAt (tokens tokens' : Array Token) (version : Version) (m i : Nat) (e : Rule α)
    (x : Carry) : Prop :=
  x.Holds m (e.Finds (carrying tokens tokens' version m) i)
    (e.Finds (language.derived tokens' version) i)

/-- **What is read off an expression is carried over.** -/
theorem carry_holds (h : Agree tokens tokens' m) (version : Version) (e : Rule α) (i : Nat)
    {behind : Bool} (hbehind : behind = true → Behind tokens i) :
    e.CarriesAt tokens tokens' version m i (e.carry behind) := by
  induction e generalizing behind i with
  | token kinds => exact Carry.Holds.token h
  | done value =>
      constructor
      rintro o t ⟨rfl, rfl⟩ ht hcovers
      exact ⟨_, ⟨rfl, rfl⟩, .refl ht⟩
  | seq f x ihf ihx =>
      refine Carry.Holds.seq h.lt_size (ihf i hbehind) (fun g k t hf => ihx k ?_) fun k o t hx =>
        extent_of_finds (derived_of_carrying hx)
      -- the second expression is behind a mark that stood before the first one or was read by it
      intro hor
      rcases Bool.or_eq_true _ _ ▸ hor with hor | hor
      · obtain ⟨hlength, -, -⟩ := extent_of_finds (derived_of_carrying hf)
        exact (hbehind hor).mono (by omega)
      · exact behind_of_marks hor (derived_of_carrying hf)
  | map f x ih => exact Carry.Holds.changed (ih i hbehind)
  | check f x ih => exact Carry.Holds.checked (ih i hbehind)
  | since v x ih => exact Carry.Holds.since (ih i hbehind)
  | orElse a b iha ihb => exact Carry.Holds.or (iha i hbehind) (ihb i hbehind)
  | star x ih =>
      exact Carry.Holds.repeated h.lt_size (fun k hk => ih k fun hb => (hbehind hb).mono hk)
        fun k o t hx => extent_of_finds (derived_of_carrying hx)
  | next kinds => exact Carry.Holds.test fun hi => (h.stands_iff hi).mpr
  | notNext kinds => exact Carry.Holds.test fun hi hstands hs => hstands ((h.stands_iff hi).mp hs)
  | finish =>
      -- before the horizon the first list does not end
      refine Carry.Holds.test fun hi hend => ?_
      have := h.lt_size
      simp only at hend
      omega
  | call s =>
      constructor
      intro o t hfound ht hcovers
      exact hfound.2 behind hbehind ht hcovers

variable {β : Type} {a b : Carry}

/-- One expression after another, where the second one is looked at anywhere behind the first. -/
theorem carriesAt_seq (h : Agree tokens tokens' m) {f : Rule (α → β)} {x : Rule α}
    (hf : f.CarriesAt tokens tokens' version m i a)
    (hx : ∀ k, i ≤ k → x.CarriesAt tokens tokens' version m k b) :
    (Expr.seq f x).CarriesAt tokens tokens' version m i (a.seq b (x.extent none)) := by
  refine Carry.Holds.seq h.lt_size hf (fun g k t hfound => hx k ?_) fun k o t hfound =>
    extent_of_finds (derived_of_carrying hfound)
  obtain ⟨hlength, -, -⟩ := extent_of_finds (derived_of_carrying hfound)
  omega

theorem carriesAt_star (h : Agree tokens tokens' m) {x : Rule α}
    (hx : ∀ k, i ≤ k → x.CarriesAt tokens tokens' version m k a) :
    (Expr.star x).CarriesAt tokens tokens' version m i (a.repeated (x.extent none)) :=
  Carry.Holds.repeated h.lt_size hx fun _ _ _ hfound =>
    extent_of_finds (derived_of_carrying hfound)

end Expr

end RubySyntax.Grammar
