/-
  RubySyntax.Proofs.Grammar.Termination
  ─────────────────────────────────────
  **READING A PROGRAM ENDS.**

  A symbol that is read from a position has other symbols read, from there or from further on.
  From there they are of lower rank, so no symbol comes back to itself before a token has been
  read, and a chain of calls is no longer than there are tokens and ranks:

      (statements, 0) ▸ (statement, 0) ▸ … ▸ (atom, 0) ▸ (compound, 0) ▸ (statements, 1) ▸ …

  What is repeated reads a token each time.  So everything that is read comes to an end by itself,
  and the number of calls that may nest is no limit: with any greater number the outcome is the
  same, down to what has been kept.

  Main results:
    • `enters_lt` — where the symbols are that an expression has read,
    • `run_congr` — a run asks for no other symbols,
    • `readKept_congr` — more fuel changes nothing,
    • `lt_of_repeats` — what is repeated reads a token,
    • `program_terminates` — all of these for the symbols of the language, and the outcome.
-/
import Mathlib.Logic.Relation
import RubySyntax.Proofs.Grammar.Derivation

namespace RubySyntax.Grammar

open Token

/-! ## §1. Calls. -/

/-- From one position to another by reading again and again. -/
inductive Reaches {α : Type} (X : Nat → Finding α) : Nat → Nat → Prop where
  | here (i : Nat) : Reaches X i i
  | again {i k j : Nat} {a : α} {t : Trace} (h : Reaches X i k) (hx : X k (some (a, j)) t) :
      Reaches X i j

/-- While an expression is read from a position, a symbol is read from a position. -/
def Expr.Enters {Symbol : Type} {Result : Symbol → Type} (c : Facts Symbol Result) :
    {α : Type} → Expr Symbol Result α → Nat → Symbol → Nat → Prop
  | _, .seq f x, i, s, j =>
    f.Enters c i s j ∨ ∃ g k t, f.Finds c i (some (g, k)) t ∧ x.Enters c k s j
  | _, .map _ x, i, s, j => x.Enters c i s j
  | _, .check _ x, i, s, j => x.Enters c i s j
  | _, .since _ x, i, s, j => x.Enters c i s j
  | _, .orElse a b, i, s, j => a.Enters c i s j ∨ (∃ t, a.Finds c i none t) ∧ b.Enters c i s j
  | _, .star x, i, s, j => ∃ k, Reaches (x.Finds c) i k ∧ x.Enters c k s j
  | _, .call s', i, s, j => s' = s ∧ i = j
  | _, _, _, _, _ => False

/-- A symbol that is read from a position has another one read from a position. -/
def Rules.Calls (g : Rules) (tokens : Array Token) (version : Version)
    (p q : g.Symbol × Nat) : Prop :=
  (g.rule p.1).Enters (g.derived tokens version) p.2 q.1 q.2

section Calls

variable {tokens : Array Token} {version : Version} {α : Type} {i j : Nat}

/-- Reading again and again leads further on. -/
theorem Reaches.le {x : Rule α} (h : Reaches (x.Finds (language.derived tokens version)) i j)
    (hsize : i ≤ tokens.size) : i ≤ j ∧ j ≤ tokens.size := by
  induction h with
  | here => exact ⟨Nat.le_refl _, hsize⟩
  | again _ hx ih =>
      obtain ⟨hik, hk⟩ := ih
      obtain ⟨hlength, -, hend⟩ := extent_of_finds hx
      exact ⟨by omega, (hend hk).1⟩

/-- **Where the symbols are that an expression has read**: behind the place where the reading of
its symbol began, or there and of lower rank. -/
theorem enters_lt {e : Rule α} {i₀ rank : Nat} {early : Bool} (he : e.descends rank early = true)
    (hi : i₀ ≤ i) (hearly : early = false → i₀ < i) (hsize : i ≤ tokens.size) {s : Symbol}
    (h : e.Enters (language.derived tokens version) i s j) :
    (i₀ < j ∨ (i₀ = j ∧ s.rank < rank)) ∧ j ≤ tokens.size := by
  induction e generalizing early i with
  | token | done | next | notNext | finish => exact h.elim
  | seq f x ihf ihx =>
      simp only [Expr.descends, Bool.and_eq_true] at he
      rcases h with h | ⟨g, k, t, hfound, h⟩
      · exact ihf he.1 hi hearly hsize h
      · obtain ⟨hik, -, hend⟩ := extent_of_finds hfound
        exact ihx he.2 (by omega) (lt_of_late hi hearly hfound) (hend hsize).1 h
  | map f x ih | check f x ih | since v x ih => exact ih he hi hearly hsize h
  | orElse a b iha ihb =>
      simp only [Expr.descends, Bool.and_eq_true] at he
      rcases h with h | ⟨-, h⟩
      · exact iha he.1 hi hearly hsize h
      · exact ihb he.2 hi hearly hsize h
  | star x ih =>
      simp only [Expr.descends, Bool.and_eq_true] at he
      obtain ⟨k, hreach, h⟩ := h
      obtain ⟨hik, hk⟩ := hreach.le hsize
      refine ih he.1 (by omega) (fun hlate => ?_) hk h
      have := hearly hlate
      omega
  | call s' =>
      obtain ⟨rfl, rfl⟩ := h
      simp only [Expr.descends, Bool.or_eq_true, Bool.not_eq_true', decide_eq_true_eq] at he
      refine ⟨?_, hsize⟩
      rcases he with he | he
      · exact .inl (hearly he)
      · omega

/-- A call leads further on, or to a symbol of lower rank. -/
theorem calls_lt {p q : Symbol × Nat} (hsize : p.2 ≤ tokens.size)
    (h : language.Calls tokens version p q) :
    (p.2 < q.2 ∨ (p.2 = q.2 ∧ q.1.rank < p.1.rank)) ∧ q.2 ≤ tokens.size :=
  enters_lt (rule_descends p.1) (Nat.le_refl p.2) nofun hsize h

/-- **So does a chain of calls.** -/
theorem transGen_calls_lt {p q : Symbol × Nat} (hsize : p.2 ≤ tokens.size)
    (h : Relation.TransGen (language.Calls tokens version) p q) :
    (p.2 < q.2 ∨ (p.2 = q.2 ∧ q.1.rank < p.1.rank)) ∧ q.2 ≤ tokens.size := by
  induction h with
  | single h => exact calls_lt hsize h
  | tail _ h ih =>
      obtain ⟨hfirst, hk⟩ := ih
      obtain ⟨hlast, hj⟩ := calls_lt hk h
      exact ⟨by omega, hj⟩

/-- No chain of calls goes on for ever. -/
theorem acc_calls {p : Symbol × Nat} (hsize : p.2 ≤ tokens.size) :
    Acc (fun q p => language.Calls tokens version p q) p := by
  induction hn : (tokens.size - p.2) * Symbol.depth + p.1.rank using Nat.strongRecOn
    generalizing p with
  | ind n ih =>
      subst hn
      refine .intro p fun q h => ?_
      obtain ⟨hlt, hq⟩ := calls_lt hsize h
      exact ih _ (Symbol.nesting_lt hq hlt) hq rfl

end Calls

/-! ## §2. Runs. -/

section Run

open Rules (Memo)

variable {tokens : Array Token} {version : Version} {α : Type} {m : Memo language}

theorem repeated_congr {read read' : Nat → Memo language → Outcome (Memo language) α}
    {X : Nat → Finding α} {i₀ : Nat}
    (hread : ∀ k m, Reaches X i₀ k → m.Justified tokens version →
      (read k m).Settles tokens version m (X k))
    (hsame : ∀ k m, Reaches X i₀ k → m.Justified tokens version → read' k m = read k m)
    {most i : Nat} {values : List α} (hi : Reaches X i₀ i) (hm : m.Justified tokens version) :
    repeated read' most i values m = repeated read most i values m := by
  induction most generalizing i values m with
  | zero => rfl
  | succ most ih =>
      obtain ⟨hstate, t, hfound, -⟩ := hread i m hi hm
      rw [repeated, repeated, hsame i m hi hm]
      generalize read i m = o at hstate hfound
      obtain ⟨_ | ⟨v, j⟩, m'⟩ := o
      · rfl
      · exact ih (hi.again hfound) hstate

/-- **A run asks for no symbol but those that its expression has read.** -/
theorem run_congr
    {call call' : (s : Symbol) → Nat → Memo language → Outcome (Memo language) s.Result}
    {i₀ rank : Nat}
    (hcall : ∀ s i m, i₀ < i ∨ (i₀ = i ∧ s.rank < rank) → i ≤ tokens.size →
      m.Justified tokens version →
      (call s i m).Settles tokens version m ((language.derived tokens version).finds s i))
    {e : Rule α} {early : Bool} (he : e.descends rank early = true) {i : Nat}
    (hi : i₀ ≤ i) (hearly : early = false → i₀ < i) (hsize : i ≤ tokens.size)
    (hm : m.Justified tokens version)
    (hsame : ∀ s j m, e.Enters (language.derived tokens version) i s j →
      m.Justified tokens version → call' s j m = call s j m) :
    e.run (keepingReader tokens version call') i m =
      e.run (keepingReader tokens version call) i m := by
  -- on the expression: what is entered from a part is entered from the whole, where the calls agree
  induction e generalizing early i m with
  | token | done | next | notNext | finish => rfl
  | seq f x ihf ihx =>
      simp only [Expr.descends, Bool.and_eq_true] at he
      obtain ⟨hstate, t, hfound, -⟩ := run_settles hcall he.1 hi hearly hsize hm
      rw [Expr.run_seq, Expr.run_seq,
        ihf he.1 hi hearly hsize hm fun s j m h => hsame s j m (.inl h)]
      generalize f.run (keepingReader tokens version call) i m = o at hstate hfound
      obtain ⟨_ | ⟨g, k⟩, m'⟩ := o
      · rfl
      · obtain ⟨hik, -, hend⟩ := extent_of_finds hfound
        simp only [Outcome.andThen]
        rw [ihx he.2 (by omega) (lt_of_late hi hearly hfound) (hend hsize).1 hstate fun s j m h =>
          hsame s j m (.inr ⟨g, k, t, hfound, h⟩)]
  | map f x ih =>
      rw [Expr.run_map, Expr.run_map, ih he hi hearly hsize hm hsame]
  | check f x ih =>
      rw [Expr.run_check, Expr.run_check, ih he hi hearly hsize hm hsame]
      rfl
  | since v x ih =>
      rw [Expr.run_since, Expr.run_since, ih he hi hearly hsize hm hsame]
      rfl
  | orElse a b iha ihb =>
      simp only [Expr.descends, Bool.and_eq_true] at he
      obtain ⟨hstate, t, hfound, -⟩ := run_settles hcall he.1 hi hearly hsize hm
      rw [Expr.run, Expr.run, iha he.1 hi hearly hsize hm fun s j m h => hsame s j m (.inl h)]
      generalize a.run (keepingReader tokens version call) i m = o at hstate hfound
      obtain ⟨_ | ⟨v, k⟩, m'⟩ := o
      · exact ihb he.2 hi hearly hsize hstate fun s j m h => hsame s j m (.inr ⟨⟨t, hfound⟩, h⟩)
      · rfl
  | star x ih =>
      simp only [Expr.descends, Bool.and_eq_true] at he
      have hlate : ∀ {k}, i ≤ k → early = false → i₀ < k := by
        intro k hik h
        have := hearly h
        omega
      rw [Expr.run, Expr.run]
      refine repeated_congr (X := x.Finds (language.derived tokens version))
        (fun k m hreach hm => ?_) (fun k m hreach hm => ?_) (.here i) hm
      · obtain ⟨hik, hk⟩ := hreach.le hsize
        exact run_settles hcall he.1 (by omega) (hlate hik) hk hm
      · obtain ⟨hik, hk⟩ := hreach.le hsize
        exact ih he.1 (by omega) (hlate hik) hk hm fun s j m h => hsame s j m ⟨k, hreach, h⟩
  | call s => exact hsame s i m ⟨rfl, rfl⟩ hm

/-- **More fuel changes nothing** once there is enough, neither what is found nor what is kept. -/
theorem readKept_congr {fuel fuel' : Nat} {s : Symbol} {i : Nat} (hsize : i ≤ tokens.size)
    (hfuel : (tokens.size - i) * Symbol.depth + s.rank < fuel) (hmore : fuel ≤ fuel')
    (hm : m.Justified tokens version) :
    language.readKept tokens version fuel' s i m = language.readKept tokens version fuel s i m := by
  induction fuel generalizing fuel' s i m with
  | zero => omega
  | succ fuel ih =>
      obtain ⟨fuel', rfl⟩ := Nat.exists_eq_add_of_le' hmore
      have hless : ∀ {s' : Symbol} {j : Nat}, j ≤ tokens.size → i < j ∨ (i = j ∧ s'.rank < s.rank) →
          (tokens.size - j) * Symbol.depth + s'.rank < fuel := fun hj hlt =>
        Nat.lt_of_lt_of_le (Symbol.nesting_lt hj hlt) (Nat.le_of_lt_succ hfuel)
      have hearly : true = false → i < i := fun h => absurd h.symm Bool.false_ne_true
      -- the calls below are those that are entered, and there the measure is smaller
      have hrun : (rule s).run (keepingReader tokens version
            (language.readKept tokens version (fuel' + fuel))) i m =
          (rule s).run (keepingReader tokens version
            (language.readKept tokens version fuel)) i m := by
        refine run_congr (fun s' k m hk hksize hm => readKept_settles hksize (hless hksize hk) hm)
          (rule_descends s) (Nat.le_refl i) hearly hsize hm fun s' j m h hm => ?_
        obtain ⟨hlt, hj⟩ := enters_lt (rule_descends s) (Nat.le_refl i) hearly hsize h
        exact ih hj (hless hj hlt) (Nat.le_add_left _ _) hm
      show language.readKept tokens version (fuel' + fuel + 1) s i m = _
      simp only [Rules.readKept]
      rw [hrun]

end Run

/-! ## §3. Repetitions. -/

/-- What an expression repeats: what stands under a star, and of this what stands behind a
separator. -/
inductive Expr.Repeats {Symbol : Type} {Result : Symbol → Type} {β : Type}
    (x : Expr Symbol Result β) : {α : Type} → Expr Symbol Result α → Prop where
  | body : Repeats x (.star x)
  | item {γ : Type} (sep : Expr Symbol Result γ) : Repeats x (.star (sep *> x))
  | star {α : Type} {y : Expr Symbol Result α} (h : Repeats x y) : Repeats x (.star y)
  | seqLeft {α γ : Type} {f : Expr Symbol Result (α → γ)} {y : Expr Symbol Result α}
      (h : Repeats x f) : Repeats x (.seq f y)
  | seqRight {α γ : Type} {f : Expr Symbol Result (α → γ)} {y : Expr Symbol Result α}
      (h : Repeats x y) : Repeats x (.seq f y)
  | map {α γ : Type} {f : α → γ} {y : Expr Symbol Result α} (h : Repeats x y) : Repeats x (.map f y)
  | check {α γ : Type} {f : Version → α → Option γ} {y : Expr Symbol Result α} (h : Repeats x y) :
      Repeats x (.check f y)
  | since {α : Type} {v : Version} {y : Expr Symbol Result α} (h : Repeats x y) :
      Repeats x (.since v y)
  | orElseLeft {α : Type} {a b : Expr Symbol Result α} (h : Repeats x a) : Repeats x (.orElse a b)
  | orElseRight {α : Type} {a b : Expr Symbol Result α} (h : Repeats x b) : Repeats x (.orElse a b)

/-- Whether the value of an expression is changed. -/
def Expr.isMap : {α : Type} → Rule α → Bool
  | _, .map _ _ => true
  | _, _ => false

/-- Whether what stands behind a separator reads a token.  A separator is an expression whose value
is changed to one that forgets it. -/
def Expr.itemReads : {α : Type} → Rule α → Bool
  | _, .seq f x => !f.isMap || decide (0 < (x.extent none).length)
  | _, _ => true

/-- Whether all that an expression repeats reads a token. -/
def Expr.advances : {α : Type} → Rule α → Bool
  | _, .seq f x => f.advances && x.advances
  | _, .map _ x => x.advances
  | _, .check _ x => x.advances
  | _, .since _ x => x.advances
  | _, .orElse a b => a.advances && b.advances
  | _, .star x => x.advances && decide (0 < (x.extent none).length) && x.itemReads
  | _, _ => true

/-- Everything that an expression repeats reads a token, if it is seen to. -/
theorem length_pos_of_repeats {α β : Type} {x : Rule β} {e : Rule α} (h : x.Repeats e)
    (he : e.advances = true) : 0 < (x.extent none).length := by
  induction h with
  | body =>
      simp only [Expr.advances, Bool.and_eq_true, decide_eq_true_eq] at he
      exact he.1.2
  | item sep =>
      rw [Expr.advances, Bool.and_eq_true] at he
      exact of_decide_eq_true he.2
  | star _ ih =>
      simp only [Expr.advances, Bool.and_eq_true] at he
      exact ih he.1.1
  | seqLeft _ ih | orElseLeft _ ih =>
      simp only [Expr.advances, Bool.and_eq_true] at he
      exact ih he.1
  | seqRight _ ih | orElseRight _ ih =>
      simp only [Expr.advances, Bool.and_eq_true] at he
      exact ih he.2
  | map _ ih | check _ ih | since _ ih => exact ih he

/-- In no rule is anything repeated that may read nothing. -/
theorem rule_advances (s : Symbol) : (rule s).advances = true := by
  cases s with
  | operation level =>
      exact forall_operationRule (P := fun e => e.advances = true) (by decide) level
  | expression level =>
      exact forall_expressionRule (P := fun e => e.advances = true) (by decide) level
  | param ofBlock => cases ofBlock <;> rfl
  | _ => rfl

/-- **What is repeated reads a token**, wherever it is tried. -/
theorem lt_of_repeats {tokens : Array Token} {version : Version} {s : Symbol} {β : Type}
    {x : Rule β} (h : x.Repeats (rule s)) {i j : Nat} {v : β} {t : Trace}
    (hx : x.Finds (language.derived tokens version) i (some (v, j)) t) : i < j := by
  have hlength := length_pos_of_repeats h (rule_advances s)
  obtain ⟨hread, -, -⟩ := extent_of_finds hx
  omega

/-! ## §4. Programs. -/

open Rules (Memo)

/-- Reading some tokens by the rules of the language ends. -/
structure Terminates (tokens : Array Token) (version : Version) : Prop where
  /-- A chain of calls that stays at one position comes down in rank, so it does not come back to
  a symbol; any other has read a token. -/
  falls : ∀ s i s' j, i ≤ tokens.size →
    Relation.TransGen (language.Calls tokens version) (s, i) (s', j) →
      i ≤ j ∧ j ≤ tokens.size ∧ (i = j → s'.rank < s.rank ∧ s' ≠ s)
  /-- No chain of calls goes on for ever. -/
  ends : ∀ s i, i ≤ tokens.size → Acc (fun q p => language.Calls tokens version p q) (s, i)
  /-- Nothing is repeated that may read nothing. -/
  advances : ∀ s {β : Type} (x : Rule β), x.Repeats (rule s) → ∀ i v j t,
    x.Finds (language.derived tokens version) i (some (v, j)) t → i < j
  /-- Each symbol finds one thing at each position. -/
  finds : ∀ s i, i ≤ tokens.size → ∃ o t, (language.derived tokens version).finds s i o t ∧
    ∀ o' t', (language.derived tokens version).finds s i o' t' → (o', t') = (o, t)
  /-- Calls may nest as deep as they like. -/
  unlimited : ∀ fuel, language.fuel tokens ≤ fuel →
    program.run (keepingReader tokens version (language.readKept tokens version fuel)) 0
        (Memo.start language tokens) =
      program.run (keepingReader tokens version
        (language.readKept tokens version (language.fuel tokens))) 0 (Memo.start language tokens)

/-- Reading ends, whatever the tokens are. -/
theorem terminates (tokens : Array Token) (version : Version) : Terminates tokens version where
  falls s i s' j hsize h := by
    obtain ⟨hlt, hj⟩ := transGen_calls_lt (p := (s, i)) (q := (s', j)) hsize h
    simp only at hlt hj
    refine ⟨by omega, hj, fun hij => ?_⟩
    have hrank : s'.rank < s.rank := by omega
    exact ⟨hrank, fun hs => absurd (hs ▸ hrank) (Nat.lt_irrefl _)⟩
  ends s i hsize := acc_calls (p := (s, i)) hsize
  advances s _ x h i v j t := lt_of_repeats h
  finds s i hsize := by
    obtain ⟨o, t, hfound⟩ : ∃ o t, (language.derived tokens version).finds s i o t :=
      exists_derived s hsize
    exact ⟨o, t, hfound, fun o' t' h => Rules.derived_unique h hfound⟩
  unlimited fuel hfuel := by
    refine run_congr (fun s i m _ hsize hm => readKept_settles hsize (fuel_enough tokens s i) hm)
      program_descends (Nat.le_refl 0) nofun (Nat.zero_le _) (justified_start tokens version)
      fun s j m h hm => ?_
    obtain ⟨-, hj⟩ := enters_lt program_descends (Nat.le_refl 0) nofun (Nat.zero_le _) h
    exact readKept_congr hj (fuel_enough tokens s j) hfuel hm

/-- **Reading a program ends**: no chain of calls comes back to a symbol before a token is read, no
repetition goes on without reading one, and what comes of it is what the rules find from the
first token on. -/
theorem program_terminates (tokens : List Token) (version : Version) :
    Terminates tokens.toArray version ∧
      ∃ o t, program.Finds (language.derived tokens.toArray version) 0 o t ∧
        readProgram tokens version = Finding.result o t :=
  ⟨terminates tokens.toArray version, exists_parse tokens.toArray version program_descends⟩

end RubySyntax.Grammar
