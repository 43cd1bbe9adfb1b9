/-
  RubySyntax.Proofs.Grammar.Reading
  ─────────────────────────────────
  **WHAT AN EXPRESSION CAN READ.**

  `Expr.run` threads a memo, a trace and fuel through a parse.  `Expr.Reads` forgets them: it says
  which value an expression can give between two positions of the tokens, once it is known what
  the symbols can give.  Choice is forgotten too — either alternative may be read — so `Reads`
  says more readings than a parse finds, and never fewer.

  Main results:
    • `Expr.run_meets` — what a run finds can be read,
    • `Rules.reads_of_parse` — a family of readings that is closed under the rules of a grammar
      holds of every parse, whatever was kept on the way.
-/
import RubySyntax.Grammar.Matcher

namespace RubySyntax

/-- A version that is not before another has all that the other has. -/
theorem Version.atLeast_trans {a b c : Version} (hab : a.atLeast b = true)
    (hbc : b.atLeast c = true) : a.atLeast c = true := by
  simp only [atLeast, Bool.or_eq_true, Bool.and_eq_true, decide_eq_true_eq, beq_iff_eq]
    at hab hbc ⊢
  omega

namespace Grammar

open Token

/-! ## §1. Readings. -/

/-- What reading depends on, the way of reading aside: the tokens, the version, and what each
symbol can give between two positions. -/
structure Context (Symbol : Type) (Result : Symbol → Type) where
  tokens : Array Token
  version : Version
  gives : (s : Symbol) → Nat → Result s → Nat → Prop

/-- One reading after another, each from where the one before has ended. -/
inductive Repeats {α : Type} (R : Nat → α → Nat → Prop) : Nat → List α → Nat → Prop where
  | nil (i : Nat) : Repeats R i [] i
  | cons {i k j : Nat} {a : α} {as : List α} (head : R i a k) (tail : Repeats R k as j) :
      Repeats R i (a :: as) j

namespace Expr

variable {Symbol : Type} {Result : Symbol → Type}

/-- An expression can give a value between two positions. -/
def Reads (c : Context Symbol Result) :
    {α : Type} → Expr Symbol Result α → Nat → α → Nat → Prop
  | _, .token kinds, i, t, j => c.tokens[i]? = some t ∧ t.kind ∈ kinds ∧ j = i + 1
  | _, .done value, i, v, j => v = value ∧ j = i
  | _, .seq f x, i, v, j => ∃ k g, f.Reads c i g k ∧ ∃ a, x.Reads c k a j ∧ g a = v
  | _, .map f x, i, v, j => ∃ a, x.Reads c i a j ∧ f a = v
  | _, .check f x, i, v, j => ∃ a, x.Reads c i a j ∧ f c.version a = some v
  | _, .since v₀ x, i, v, j => x.Reads c i v j ∧ c.version.atLeast v₀ = true
  | _, .orElse a b, i, v, j => a.Reads c i v j ∨ b.Reads c i v j
  | _, .star x, i, vs, j => Repeats (x.Reads c) i vs j
  | _, .next kinds, i, _, j => j = i ∧ ∃ t, c.tokens[i]? = some t ∧ t.kind ∈ kinds
  | _, .notNext kinds, i, _, j => j = i ∧ ∀ t, c.tokens[i]? = some t → t.kind ∉ kinds
  | _, .finish, i, _, j => j = i ∧ c.tokens.size ≤ i
  | _, .call s, i, v, j => c.gives s i v j

end Expr

/-! ## §2. Runs find readings. -/

/-- The state after reading is as it should be, and so is the value that was found. -/
structure Outcome.Meets {σ α : Type} (o : Outcome σ α) (Good : σ → Prop) (R : α → Nat → Prop) :
    Prop where
  state : Good o.2
  found : ∀ v j, o.1 = some (v, j) → R v j

section Meets

variable {σ α β : Type} {Good : σ → Prop} {R : α → Nat → Prop} {R' : β → Nat → Prop}

theorem Outcome.Meets.value {v : α} {j : Nat} {st : σ} (hst : Good st) (hv : R v j) :
    Outcome.Meets (some (v, j), st) Good R := by
  refine ⟨hst, ?_⟩
  rintro v' j' ⟨⟩
  exact hv

theorem Outcome.Meets.failure {st : σ} (hst : Good st) :
    Outcome.Meets (none, st) Good R :=
  ⟨hst, by simp⟩

theorem Outcome.Meets.imp {o : Outcome σ α} {R' : α → Nat → Prop} (h : o.Meets Good R)
    (hR : ∀ v j, R v j → R' v j) : o.Meets Good R' :=
  ⟨h.state, fun v j hv => hR v j (h.found v j hv)⟩

/-- An outcome, and what is read after it if a value was found. -/
def Outcome.andThen (o : Outcome σ α) (next : α → Nat → σ → Outcome σ β) : Outcome σ β :=
  match o with
  | (some (a, k), st) => next a k st
  | (none, st) => (none, st)

theorem Outcome.Meets.andThen {o : Outcome σ α} {next : α → Nat → σ → Outcome σ β}
    (h : o.Meets Good R) (hnext : ∀ a k st, Good st → R a k → (next a k st).Meets Good R') :
    (o.andThen next).Meets Good R' := by
  obtain ⟨hstate, hfound⟩ := h
  unfold Outcome.andThen
  split
  next a k st => exact hnext a k st hstate (hfound a k rfl)
  next st => exact .failure hstate

end Meets

theorem repeated_meets {σ α : Type} {Good : σ → Prop} {R : Nat → α → Nat → Prop}
    {read : Nat → σ → Outcome σ α} (hread : ∀ i st, Good st → (read i st).Meets Good (R i)) :
    ∀ (most i i₀ : Nat) (values : List α) (st : σ), Good st →
      (∀ as j, Repeats R i as j → Repeats R i₀ (values.reverse ++ as) j) →
      (repeated read most i values st).Meets Good (Repeats R i₀) := by
  intro most
  -- The values so far are kept latest first, so the invariant says what can be read behind them.
  induction most with
  | zero =>
      intro i i₀ values st hst hvalues
      refine .value hst ?_
      have := hvalues [] i (.nil i)
      rwa [List.append_nil] at this
  | succ most ih =>
      intro i i₀ values st hst hvalues
      obtain ⟨hstate, hfound⟩ := hread i st hst
      rw [repeated]
      -- One more value is read, or the repetition ends where it began to fail.
      split
      next value k st' heq =>
        rw [heq] at hstate hfound
        apply ih k i₀ (value :: values) st' hstate
        intro as j has
        rw [List.reverse_cons, List.append_assoc]
        exact hvalues (value :: as) j (.cons (hfound value k rfl) has)
      next st' heq =>
        rw [heq] at hstate
        refine .value hstate ?_
        have := hvalues [] i (.nil i)
        rwa [List.append_nil] at this

namespace Expr

variable {Symbol : Type} {Result : Symbol → Type} {σ : Type}

section Run

variable {α β : Type} (r : Reader Symbol Result σ) (i : Nat) (st : σ)

theorem run_seq (f : Expr Symbol Result (α → β)) (x : Expr Symbol Result α) :
    (Expr.seq f x).run r i st = (f.run r i st).andThen fun g k st =>
      (x.run r k st).andThen fun a j st => (some (g a, j), st) := by
  rw [run]
  cases f.run r i st with
  | mk found st => cases found <;> rfl

theorem run_map (f : α → β) (x : Expr Symbol Result α) :
    (Expr.map f x).run r i st = (x.run r i st).andThen fun a j st => (some (f a, j), st) :=
  rfl

theorem run_check (f : Version → α → Option β) (x : Expr Symbol Result α) :
    (Expr.check f x).run r i st = (x.run r i st).andThen fun a j st =>
      match f r.version a with
      | some b => (some (b, j), st)
      | none => r.fail j st :=
  rfl

theorem run_since (v₀ : Version) (x : Expr Symbol Result α) :
    (Expr.since v₀ x).run r i st = (x.run r i st).andThen fun a j st =>
      if r.version.atLeast v₀ then (some (a, j), st) else r.fail j st :=
  rfl

end Run

/-- **What a run finds can be read**, if that is so for the symbols.  `Good` is what the state of
the run has to keep. -/
theorem run_meets {r : Reader Symbol Result σ} {c : Context Symbol Result} (Good : σ → Prop)
    (htokens : c.tokens = r.tokens) (hversion : c.version = r.version)
    (hrecord : ∀ i st, Good st → Good (r.record i st))
    (hcall : ∀ s i st, Good st → (r.call s i st).Meets Good (c.gives s i)) :
    ∀ {α : Type} (e : Expr Symbol Result α) (i : Nat) (st : σ), Good st →
      (e.run r i st).Meets Good (e.Reads c i) := by
  intro α e
  induction e with
  | token kinds =>
      intro i st hst
      simp only [run, Reader.token, Reader.fail]
      split
      next t ht =>
        split
        next hkind =>
          refine .value hst ⟨?_, by simpa using hkind, rfl⟩
          rw [htokens, ht]
        next => exact .failure (hrecord _ _ hst)
      next => exact .failure (hrecord _ _ hst)
  | done value => exact fun i st hst => .value hst ⟨rfl, rfl⟩
  | seq f x ihf ihx =>
      intro i st hst
      rw [run_seq]
      refine (ihf i st hst).andThen fun g k st hst hg => ?_
      refine (ihx k st hst).andThen fun a j st hst ha => ?_
      exact .value hst ⟨k, g, hg, a, ha, rfl⟩
  | map f x ih =>
      intro i st hst
      rw [run_map]
      exact (ih i st hst).andThen fun a j st hst ha => .value hst ⟨a, ha, rfl⟩
  | check f x ih =>
      intro i st hst
      rw [run_check]
      refine (ih i st hst).andThen fun a j st hst ha => ?_
      split
      next b hb =>
        refine .value hst ⟨a, ha, ?_⟩
        rw [hversion, hb]
      next => exact .failure (hrecord _ _ hst)
  | since v₀ x ih =>
      intro i st hst
      rw [run_since]
      refine (ih i st hst).andThen fun a j st hst ha => ?_
      split
      next hv =>
        refine .value hst ⟨ha, ?_⟩
        rw [hversion, hv]
      next => exact .failure (hrecord _ _ hst)
  | orElse a b iha ihb =>
      intro i st hst
      obtain ⟨hstate, hfound⟩ := iha i st hst
      rw [run]
      split
      next found st' heq =>
        rw [heq] at hstate hfound
        exact ⟨hstate, fun v j h => .inl (hfound v j h)⟩
      next st' heq =>
        -- The second alternative begins where the first has left the state.
        rw [heq] at hstate
        exact (ihb i st' hstate).imp fun _ _ => .inr
  | star x ih =>
      intro i st hst
      exact repeated_meets ih _ i i [] st hst (fun as j h => h)
  | next kinds =>
      intro i st hst
      simp only [run, Reader.sees, Option.any_eq_true, List.contains_eq_mem, decide_eq_true_eq]
      split
      next hsees => exact .value hst ⟨rfl, by rwa [htokens]⟩
      next => exact .failure hst
  | notNext kinds =>
      intro i st hst
      simp only [run, Reader.sees, Option.any_eq_true, List.contains_eq_mem, decide_eq_true_eq]
      split
      next => exact .failure hst
      next hsees =>
        refine .value hst ⟨rfl, ?_⟩
        intro t ht hkind
        rw [htokens] at ht
        exact hsees ⟨t, ht, hkind⟩
  | finish =>
      intro i st hst
      rw [run]
      split
      next => exact .failure hst
      next hend =>
        refine .value hst ⟨rfl, ?_⟩
        rw [htokens]
        omega
  | call s =>
      intro i st hst
      exact hcall s i st hst

end Expr

/-! ## §3. Parses find readings. -/

namespace Rules

variable {g : Rules}

/-- Readings that are closed under the rules of a grammar: what the rule of a symbol can give, the
symbol gives. -/
def Closed (g : Rules) (c : Context g.Symbol g.Result) : Prop :=
  ∀ s i v j, (g.rule s).Reads c i v j → c.gives s i v j

/-- Everything that was kept is a reading. -/
def Memo.Good (c : Context g.Symbol g.Result) (m : Memo g) : Prop :=
  ∀ i given, m.kept[i]? = some given →
    ∀ e ∈ given, ∀ v j, e.found? = some (v, j) → c.gives e.symbol i v j

theorem Given.mem_of_find? [DecidableEq g.Symbol] {s : g.Symbol} :
    ∀ {given : List (Given g)} {found? : Option (g.Result s × Nat)},
      Given.find? s given = some found? → ⟨s, found?⟩ ∈ given
  | [], _, h => by cases h
  | e :: rest, found?, h => by
      rw [Given.find?] at h
      split at h
      next heq =>
        subst heq
        injection h with h
        subst h
        exact List.mem_cons_self
      next => exact List.mem_cons_of_mem _ (Given.mem_of_find? h)

theorem Memo.good_start (c : Context g.Symbol g.Result) (tokens : Array Token) :
    (Memo.start g tokens).Good c := by
  intro i given h e he
  simp only [Memo.start, Array.getElem?_replicate] at h
  split at h
  next =>
    cases h
    cases he
  next => cases h

theorem Memo.Good.record {c : Context g.Symbol g.Result} {m : Memo g} (hm : m.Good c) (i : Nat) :
    (m.record i).Good c := hm

theorem Memo.Good.keep {c : Context g.Symbol g.Result} {m : Memo g} (hm : m.Good c) {s : g.Symbol}
    {i : Nat} {found? : Option (g.Result s × Nat)}
    (h : ∀ v j, found? = some (v, j) → c.gives s i v j) : (m.keep s i found?).Good c := by
  intro k given hk e he
  simp only [Memo.keep, Array.getElem?_modify] at hk
  split at hk
  next hik =>
    -- at this position there is one entry more, and it is a reading by assumption
    subst hik
    obtain ⟨before, hbefore, rfl⟩ := Option.map_eq_some_iff.mp hk
    rcases List.mem_cons.mp he with rfl | he
    · exact h
    · exact hm i before hbefore e he
  next => exact hm k given hk e he

/-- What symbols give with what was kept is a reading, and is kept as one. -/
theorem readKept_meets [DecidableEq g.Symbol] {c : Context g.Symbol g.Result} (hc : g.Closed c) :
    ∀ (fuel : Nat) (s : g.Symbol) (i : Nat) (m : Memo g), m.Good c →
      (g.readKept c.tokens c.version fuel s i m).Meets (Memo.Good c) (c.gives s i) := by
  intro fuel
  induction fuel with
  | zero => exact fun s i m hm => ⟨hm, by simp [readKept]⟩
  | succ fuel ih =>
      intro s i m hm
      -- Whether the reading is kept or not, the rule of the symbol is run with less fuel.
      have hrun : ∀ m : Memo g, m.Good c →
          ((g.rule s).run ⟨c.tokens, c.version, Memo.record, g.readKept c.tokens c.version fuel⟩
            i m).Meets (Memo.Good c) (c.gives s i) := by
        intro m hm
        obtain ⟨hstate, hfound⟩ := Expr.run_meets (r := ⟨c.tokens, c.version, Memo.record,
            g.readKept c.tokens c.version fuel⟩) (c := c) (Memo.Good c) rfl rfl
          (fun i st hst => Memo.Good.record hst i) ih (g.rule s) i m hm
        exact ⟨hstate, fun v j h => hc s i v j (hfound v j h)⟩
      simp only [readKept]
      split
      next =>
        split
        next found? hfind =>
          refine ⟨hm, ?_⟩
          obtain ⟨given, hgiven, hfind⟩ := Option.bind_eq_some_iff.mp hfind
          exact hm i given hgiven _ (Given.mem_of_find? hfind)
        next =>
          obtain ⟨hstate, hfound⟩ := hrun m hm
          exact ⟨Memo.Good.keep hstate hfound, hfound⟩
      next => exact hrun m hm

/-- **A parse finds a reading** from the first token on, for any readings that are closed under the
rules. -/
theorem reads_of_parse [DecidableEq g.Symbol] {c : Context g.Symbol g.Result} (hc : g.Closed c)
    {α : Type} {e : Expr g.Symbol g.Result α} {v : α}
    (h : g.parse e c.tokens c.version = .ok v) : ∃ j, e.Reads c 0 v j := by
  have hrun := Expr.run_meets (r := ⟨c.tokens, c.version, Memo.record,
      g.readKept c.tokens c.version (g.fuel c.tokens)⟩) (c := c) (Memo.Good c) rfl rfl
    (fun i st hst => Memo.Good.record hst i) (readKept_meets hc _) e 0 _
    (Memo.good_start c c.tokens)
  rw [parse] at h
  split at h
  next value j m heq =>
    injection h with h
    subst h
    exact ⟨j, hrun.found _ j (by rw [heq])⟩
  next => cases h

end Rules

end Grammar

end RubySyntax
