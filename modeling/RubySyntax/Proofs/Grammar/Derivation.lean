/-
  RubySyntax.Proofs.Grammar.Derivation
  ────────────────────────────────────
  **A PARSE FINDS WHAT THE RULES DERIVE.**

  A parse counts the calls that nest and the elements of a repetition, and keeps what some symbols
  have given.  None of this shows.  Symbols have ranks, and before a token is read a rule calls
  symbols of lower rank only, so the calls that are allowed for each token suffice.  What is
  repeated reads tokens, so a repetition ends by failing.  And what was kept has left its trace
  before, no farther than the greatest index so far.

  Main results:
    • `run_settles` — a run finds what its expression finds, if that is so for the calls,
    • `readKept_settles` — so it is for the calls, while there is fuel,
    • `exists_derived` — each symbol finds something at each position,
    • `exists_parse` — a parse gives what is found from the first token on.
-/
import RubySyntax.Proofs.Grammar.Extent

namespace RubySyntax.Grammar

open Token

/-! ## §1. Ranks. -/

/-- A symbol calls symbols of lower rank only, before it has read a token. -/
def Symbol.rank : Symbol → Nat
  | .literal | .compound | .suffix | .elseBranch | .param _ | .keyPattern => 0
  | .atom => 1
  | .primary => 2
  | .operand | .command | .targetItem | .pattern => 3
  | .operation _ | .topPattern => 4
  | .range => 5
  | .ternary => 6
  | .argument => 7
  | .commandCall | .callArgument => 8
  | .assigned | .expressionAtom => 9
  | .expression _ => 10
  | .statement => 11
  | .statements => 12
  | .body => 13

theorem Symbol.rank_lt_depth (s : Symbol) : s.rank < Symbol.depth := by
  unfold Symbol.rank
  split <;> decide

/-- Behind a token, or at a lower rank, fewer calls can nest: a token makes up for a rank of any
height. -/
theorem Symbol.nesting_lt {s s' : Symbol} {size i j : Nat} (hj : j ≤ size)
    (h : i < j ∨ (i = j ∧ s'.rank < s.rank)) :
    (size - j) * Symbol.depth + s'.rank < (size - i) * Symbol.depth + s.rank := by
  have hrank := s'.rank_lt_depth
  simp only [Symbol.depth] at hrank ⊢
  omega

/-- The fuel of a program is enough for all its calls. -/
theorem fuel_enough (tokens : Array Token) (s : Symbol) (i : Nat) :
    (tokens.size - i) * Symbol.depth + s.rank < language.fuel tokens := by
  have hrank := s.rank_lt_depth
  simp only [Rules.fuel, Symbol.depth] at hrank ⊢
  omega

/-- An expression calls symbols below a rank only while it has not read a token, and what it
repeats reads tokens.  `early` says that no token has been read before it. -/
def Expr.descends (rank : Nat) : {α : Type} → Rule α → (early : Bool) → Bool
  | _, .seq f x, early =>
    f.descends rank early && x.descends rank (early && (f.extent none).length == 0)
  | _, .map _ x, early => x.descends rank early
  | _, .check _ x, early => x.descends rank early
  | _, .since _ x, early => x.descends rank early
  | _, .orElse a b, early => a.descends rank early && b.descends rank early
  | _, .star x, early => x.descends rank early && decide (0 < (x.extent none).length)
  | _, .call s, early => !early || decide (s.rank < rank)
  | _, _, _ => true

/-- **Every rule descends.** -/
theorem rule_descends (s : Symbol) : (rule s).descends s.rank true = true := by
  cases s with
  | operation level =>
      exact forall_operationRule (P := fun e => e.descends 4 true = true) (by decide) level
  | expression level =>
      exact forall_expressionRule (P := fun e => e.descends 10 true = true) (by decide) level
  | param ofBlock => cases ofBlock <;> rfl
  | _ => rfl

/-! ## §2. Memos. -/

section Memo

variable {tokens : Array Token} {version : Version} {α : Type}

/-- What was kept has been found, and has left its trace. -/
def Rules.Memo.Justified (tokens : Array Token) (version : Version) (m : Rules.Memo language) :
    Prop :=
  ∀ (i : Nat) (given : List (Rules.Given language)), m.kept[i]? = some given →
    ∀ e ∈ given, ∃ t,
      (language.derived tokens version).finds e.symbol i e.found? t ∧ t.farthest ≤ m.farthest

/-- An outcome is a finding, and its trace has been added to the memo. -/
structure Outcome.Settles (tokens : Array Token) (version : Version)
    (o : Outcome (Rules.Memo language) α) (m : Rules.Memo language) (F : Finding α) : Prop where
  state : o.2.Justified tokens version
  found : ∃ t, F o.1 t ∧ o.2.farthest = max m.farthest t.farthest

open Rules (Memo Given)

theorem justified_start (tokens : Array Token) (version : Version) :
    (Memo.start language tokens).Justified tokens version := by
  intro i given h e he
  simp only [Memo.start, Array.getElem?_replicate] at h
  split at h
  next =>
    cases h
    cases he
  next => cases h

theorem Rules.Memo.Justified.record {m : Memo language} (h : m.Justified tokens version) (i : Nat) :
    (Memo.record i m).Justified tokens version := by
  intro k given hk e he
  obtain ⟨t, ht, hfarthest⟩ := h k given hk e he
  exact ⟨t, ht, Nat.le_trans hfarthest (Nat.le_max_right _ _)⟩

theorem Rules.Memo.Justified.keep {m : Memo language} (hm : m.Justified tokens version)
    {s : language.Symbol} {i : Nat} {found? : Option (s.Result × Nat)} {t : Trace}
    (h : (language.derived tokens version).finds s i found? t) (ht : t.farthest ≤ m.farthest) :
    (m.keep s i found?).Justified tokens version := by
  intro k given hk e he
  simp only [Memo.keep, Array.getElem?_modify] at hk
  split at hk
  next hik =>
    subst hik
    obtain ⟨before, hbefore, rfl⟩ := Option.map_eq_some_iff.mp hk
    rcases List.mem_cons.mp he with rfl | he
    · exact ⟨t, h, ht⟩
    · exact hm i before hbefore e he
  next => exact hm k given hk e he

section Settles

variable {β : Type} {o : Outcome (Memo language) α} {m : Memo language} {F G : Finding α}

theorem Outcome.Settles.imp (h : o.Settles tokens version m F) (hFG : ∀ o t, F o t → G o t) :
    o.Settles tokens version m G := by
  obtain ⟨hstate, t, hF, hfarthest⟩ := h
  exact ⟨hstate, t, hFG _ _ hF, hfarthest⟩

/-- What is found without a failed test leaves the memo as it is. -/
theorem Outcome.Settles.unchanged {found? : Option (α × Nat)} (hm : m.Justified tokens version)
    (h : F found? .none) : Outcome.Settles tokens version (found?, m) m F :=
  ⟨hm, .none, h, (Nat.max_zero _).symm⟩

/-- A failed test leaves its index. -/
theorem Outcome.Settles.failure {t : Trace} (hm : m.Justified tokens version) (h : F none t) :
    Outcome.Settles tokens version (none, m.record t.farthest) m F :=
  ⟨hm.record _, t, h, Nat.max_comm _ _⟩

/-- What comes behind a value adds its trace to that of the value. -/
theorem Outcome.Settles.andThen {H : Finding β}
    {next : α → Nat → Memo language → Outcome (Memo language) β}
    (h : o.Settles tokens version m F) (hfails : ∀ t, F none t → H none t)
    (hnext : ∀ a k t m, F (some (a, k)) t → m.Justified tokens version →
      (next a k m).Settles tokens version m fun o u => H o (t ++ u)) :
    (o.andThen next).Settles tokens version m H := by
  obtain ⟨hstate, t, hfound, hfarthest⟩ := h
  obtain ⟨_ | ⟨a, k⟩, m'⟩ := o
  · exact ⟨hstate, t, hfails t hfound, hfarthest⟩
  · obtain ⟨hstate', u, hfound', hfarthest'⟩ := hnext a k t m' hfound hstate
    refine ⟨hstate', t ++ u, hfound', ?_⟩
    rw [Trace.farthest_append, ← Nat.max_assoc, ← hfarthest]
    exact hfarthest'

end Settles

end Memo

/-! ## §3. Runs. -/

section Run

open Rules (Memo Given)

variable {tokens : Array Token} {version : Version} {α β : Type} {m : Memo language}

/-- How tokens are read with calls of a kind. -/
abbrev keepingReader (tokens : Array Token) (version : Version)
    (call : (s : Symbol) → Nat → Memo language → Outcome (Memo language) s.Result) :
    Reader Symbol Symbol.Result (Memo language) :=
  ⟨tokens, version, Memo.record, call⟩

theorem sees_iff {call : (s : Symbol) → Nat → Memo language → Outcome (Memo language) s.Result}
    {kinds : List Kind} {i : Nat} :
    (keepingReader tokens version call).sees kinds i = true ↔ Stands tokens kinds i := by
  simp [Reader.sees, Stands, Option.any_eq_true]

/-- What is repeated reads tokens, so it fails before it has been tried too often. -/
theorem repeated_settles {read : Nat → Memo language → Outcome (Memo language) α}
    {X : Nat → Finding α} {i₀ : Nat}
    (hread : ∀ i m, i₀ ≤ i → i ≤ tokens.size → m.Justified tokens version →
      (read i m).Settles tokens version m (X i))
    (hX : ∀ i v j t, X i (some (v, j)) t → i ≤ tokens.size → i < j ∧ j ≤ tokens.size)
    {most i : Nat} {values : List α} (hi : i₀ ≤ i) (hsize : i ≤ tokens.size)
    (hmost : tokens.size - i < most) (hm : m.Justified tokens version) :
    (repeated read most i values m).Settles tokens version m fun o t =>
      ∃ as j, o = some (values.reverse ++ as, j) ∧ StarFinds X i as j t := by
  induction most generalizing i values m with
  | zero => omega
  | succ most ih =>
      obtain ⟨hstate, t, hx, hfarthest⟩ := hread i m hi hsize hm
      rw [repeated]
      split
      next v j m' heq =>
        rw [heq] at hstate hx hfarthest
        obtain ⟨hij, hj⟩ := hX i v j t hx hsize
        obtain ⟨hstate', u, ⟨as, k, hfound, hrest⟩, hfarthest'⟩ :=
          ih (by omega) hj (by omega) hstate
        refine ⟨hstate', t ++ u, ⟨v :: as, k, ?_, .more hx hrest⟩, ?_⟩
        · rw [hfound, List.reverse_cons, List.append_assoc, List.singleton_append]
        · rw [hfarthest', hfarthest, Trace.farthest_append, Nat.max_assoc]
      next m' heq =>
        rw [heq] at hstate hx hfarthest
        exact ⟨hstate, t, ⟨[], i, by rw [List.append_nil], .stop hx⟩, hfarthest⟩

/-- What stands behind an expression is early only if the expression can read nothing. -/
theorem lt_of_late {f : Rule α} {early : Bool} {i₀ i k : Nat} {v : α} {t : Trace} (hi : i₀ ≤ i)
    (hearly : early = false → i₀ < i)
    (hf : f.Finds (language.derived tokens version) i (some (v, k)) t)
    (hlate : (early && (f.extent none).length == 0) = false) : i₀ < k := by
  obtain ⟨hlength, -, -⟩ := extent_of_finds hf
  rcases Bool.and_eq_false_iff.mp hlate with hlate | hlate
  · have := hearly hlate
    omega
  · rw [beq_eq_false_iff_ne] at hlate
    omega

/-- **A run finds what its expression finds**, if that is so for the calls of symbols, of any rank
behind the place where the run began and of lower rank there. -/
theorem run_settles {call : (s : Symbol) → Nat → Memo language → Outcome (Memo language) s.Result}
    {i₀ rank : Nat}
    (hcall : ∀ s i m, i₀ < i ∨ (i₀ = i ∧ s.rank < rank) → i ≤ tokens.size →
      m.Justified tokens version →
      (call s i m).Settles tokens version m ((language.derived tokens version).finds s i))
    {e : Rule α} {early : Bool} (he : e.descends rank early = true) {i : Nat}
    (hi : i₀ ≤ i) (hearly : early = false → i₀ < i) (hsize : i ≤ tokens.size)
    (hm : m.Justified tokens version) :
    (e.run (keepingReader tokens version call) i m).Settles tokens version m
      (e.Finds (language.derived tokens version) i) := by
  -- on the expression; a part that may come before any token is read calls symbols of lower rank
  -- only, and a later one begins behind the place
  induction e generalizing early i m with
  | token kinds =>
      simp only [Expr.run, Reader.token, Reader.fail]
      split
      next tok htok =>
        split
        next hkind => exact .unchanged hm (.here htok (List.contains_iff_mem.mp hkind))
        next hkind => exact .failure hm (TokenFinds.other htok fun h => hkind (List.contains_iff_mem.mpr h))
      next htok => exact .failure hm (TokenFinds.past htok)
  | done value => exact .unchanged hm ⟨rfl, rfl⟩
  | seq f x ihf ihx =>
      simp only [Expr.descends, Bool.and_eq_true] at he
      obtain ⟨hf, hx⟩ := he
      rw [Expr.run_seq]
      refine (ihf hf hi hearly hsize hm).andThen (fun t h => .first h) fun g k t m hg hm => ?_
      obtain ⟨hik, -, hend⟩ := extent_of_finds hg
      refine (ihx hx (by omega) (lt_of_late hi hearly hg) (hend hsize).1 hm).andThen
        (fun u h => .second hg h) fun a j u m ha hm => .unchanged hm ?_
      rw [Trace.append_none]
      exact .both hg ha
  | map f x ih =>
      rw [Expr.run_map]
      refine (ih he hi hearly hsize hm).andThen (fun t h => .fails h)
        fun a k t m ha hm => .unchanged hm ?_
      rw [Trace.append_none]
      exact .finds ha
  | check f x ih =>
      rw [Expr.run_check]
      refine (ih he hi hearly hsize hm).andThen (fun t h => .fails h) fun a k t m ha hm => ?_
      simp only [Reader.fail]
      split
      next b hb =>
        refine .unchanged hm ?_
        rw [Trace.append_none]
        exact .finds ha hb
      next hb => exact .failure (t := .test k) hm (.refuses ha hb)
  | since v x ih =>
      rw [Expr.run_since]
      refine (ih he hi hearly hsize hm).andThen (fun t h => .fails h) fun a k t m ha hm => ?_
      simp only [Reader.fail]
      split
      next hv =>
        refine .unchanged hm ?_
        rw [Trace.append_none]
        exact .finds ha hv
      next hv => exact .failure (t := .refusal v k) hm (.refuses ha (eq_false_of_ne_true hv))
  | orElse a b iha ihb =>
      simp only [Expr.descends, Bool.and_eq_true] at he
      obtain ⟨ha, hb⟩ := he
      obtain ⟨hstate, t, hfound, hfarthest⟩ := iha ha hi hearly hsize hm
      rw [Expr.run]
      generalize a.run (keepingReader tokens version call) i m = o at hstate hfound hfarthest
      obtain ⟨_ | ⟨v, k⟩, m'⟩ := o
      · -- the second alternative begins with the trace that the first one has left
        obtain ⟨hstate', u, hfound', hfarthest'⟩ := ihb hb hi hearly hsize hstate
        refine ⟨hstate', t ++ u, .second hfound hfound', ?_⟩
        rw [hfarthest', hfarthest, Trace.farthest_append, Nat.max_assoc]
      · exact ⟨hstate, t, .first hfound, hfarthest⟩
  | star x ih =>
      simp only [Expr.descends, Bool.and_eq_true, decide_eq_true_eq] at he
      obtain ⟨hx, hlength⟩ := he
      rw [Expr.run]
      have hstep : ∀ k m, i ≤ k → k ≤ tokens.size → m.Justified tokens version →
          (x.run (keepingReader tokens version call) k m).Settles tokens version m
            (x.Finds (language.derived tokens version) k) := by
        intro k m hk hsize hm
        refine ih hx (by omega) (fun h => ?_) hsize hm
        have := hearly h
        omega
      have hread : ∀ k v j t, x.Finds (language.derived tokens version) k (some (v, j)) t →
          k ≤ tokens.size → k < j ∧ j ≤ tokens.size := by
        intro k v j t h hk
        obtain ⟨hread, -, hend⟩ := extent_of_finds h
        exact ⟨by omega, (hend hk).1⟩
      exact (repeated_settles hstep hread (Nat.le_refl i) hsize (Nat.lt_succ_self _) hm).imp
        fun o t h => h
  | next kinds =>
      simp only [Expr.run]
      split
      next h => exact .unchanged hm (.holds (sees_iff.mp h))
      next h => exact .unchanged hm (.fails fun hs => h (sees_iff.mpr hs))
  | notNext kinds =>
      simp only [Expr.run]
      split
      next h => exact .unchanged hm (.fails fun hs => hs (sees_iff.mp h))
      next h => exact .unchanged hm (.holds fun hs => h (sees_iff.mpr hs))
  | finish =>
      simp only [Expr.run]
      split
      next h => exact .unchanged hm (.fails (Nat.not_le.mpr h))
      next h => exact .unchanged hm (.holds (Nat.not_lt.mp h))
  | call s =>
      refine hcall s i m ?_ hsize hm
      simp only [Expr.descends, Bool.or_eq_true, Bool.not_eq_true', decide_eq_true_eq] at he
      rcases he with he | he
      · exact .inl (hearly he)
      · omega

/-- What a symbol gives with what was kept is what it finds, while there is fuel. -/
theorem readKept_settles {fuel : Nat} {s : Symbol} {i : Nat} (hsize : i ≤ tokens.size)
    (hfuel : (tokens.size - i) * Symbol.depth + s.rank < fuel)
    (hm : m.Justified tokens version) :
    (language.readKept tokens version fuel s i m).Settles tokens version m
      ((language.derived tokens version).finds s i) := by
  induction fuel generalizing s i m with
  | zero => omega
  | succ fuel ih =>
      have hcall : ∀ s' k m, i < k ∨ (i = k ∧ s'.rank < s.rank) → k ≤ tokens.size →
          m.Justified tokens version →
          (language.readKept tokens version fuel s' k m).Settles tokens version m
            ((language.derived tokens version).finds s' k) := fun s' k m hk hksize hm =>
        ih hksize (Nat.lt_of_lt_of_le (Symbol.nesting_lt hksize hk) (Nat.le_of_lt_succ hfuel)) hm
      have hrun : ∀ m : Memo language, m.Justified tokens version →
          ((rule s).run (keepingReader tokens version (language.readKept tokens version fuel))
            i m).Settles tokens version m ((language.derived tokens version).finds s i) := by
        intro m hm
        refine (run_settles hcall (rule_descends s) (Nat.le_refl i) (fun h => by cases h) hsize
          hm).imp fun o t h => ?_
        exact Rules.upholds_derived language tokens version s i o t h
      simp only [Rules.readKept]
      split
      next =>
        split
        next found? hfind =>
          -- what was kept has left its trace already
          obtain ⟨given, hgiven, hfind⟩ := Option.bind_eq_some_iff.mp hfind
          obtain ⟨t, hfound, hfarthest⟩ := hm i given hgiven _ (Rules.Given.mem_of_find? hfind)
          exact ⟨hm, t, hfound, (Nat.max_eq_left hfarthest).symm⟩
        next =>
          obtain ⟨hstate, t, hfound, hfarthest⟩ := hrun m hm
          exact ⟨hstate.keep hfound (by omega), t, hfound, hfarthest⟩
      next => exact hrun m hm

/-- **Each symbol finds something at each position.** -/
theorem exists_derived (s : Symbol) {i : Nat} (hsize : i ≤ tokens.size) :
    ∃ o t, (language.derived tokens version).finds s i o t := by
  obtain ⟨-, t, hfound, -⟩ : (language.readKept tokens version _ s i
      (Memo.start language tokens)).Settles tokens version (Memo.start language tokens)
      ((language.derived tokens version).finds s i) :=
    readKept_settles hsize (Nat.lt_succ_self _) (justified_start tokens version)
  exact ⟨_, t, hfound⟩

/-! ## §4. Parses. -/

/-- What a parse makes of a finding. -/
def Finding.result (o : Option (α × Nat)) (t : Trace) : Except Nat α :=
  match o with
  | some (v, _) => .ok v
  | none => .error t.farthest

variable {e : Rule α}

/-- **A parse gives what is found from the first token on.** -/
theorem exists_parse (tokens : Array Token) (version : Version)
    (he : e.descends Symbol.depth true = true) :
    ∃ o t, e.Finds (language.derived tokens version) 0 o t ∧
      language.parse e tokens version = Finding.result o t := by
  have hcall : ∀ s i m, 0 < i ∨ (0 = i ∧ s.rank < Symbol.depth) → i ≤ tokens.size →
      m.Justified tokens version →
      (language.readKept tokens version (language.fuel tokens) s i m).Settles tokens version m
        ((language.derived tokens version).finds s i) :=
    fun s i m _ hsize hm => readKept_settles hsize (fuel_enough tokens s i) hm
  obtain ⟨-, t, hfound, hfarthest⟩ := run_settles hcall he (Nat.le_refl 0) (fun h => by cases h)
    (Nat.zero_le _) (justified_start tokens version)
  have hstart : (Memo.start language tokens).farthest = 0 := rfl
  rw [hstart, Nat.zero_max] at hfarthest
  refine ⟨_, t, hfound, ?_⟩
  simp only [Rules.parse]
  split
  next v j m heq =>
    rw [heq]
    rfl
  next m heq =>
    rw [heq] at hfarthest ⊢
    exact congrArg Except.error hfarthest

theorem parse_eq_of_finds (he : e.descends Symbol.depth true = true) {o : Option (α × Nat)}
    {t : Trace} (h : e.Finds (language.derived tokens version) 0 o t) :
    language.parse e tokens version = Finding.result o t := by
  obtain ⟨o', t', hfound, hparse⟩ := exists_parse tokens version he
  cases Rules.derived_unique_expr h hfound
  exact hparse

theorem finds_of_parse_ok (he : e.descends Symbol.depth true = true) {v : α}
    (h : language.parse e tokens version = .ok v) :
    ∃ j t, e.Finds (language.derived tokens version) 0 (some (v, j)) t := by
  obtain ⟨_ | ⟨v', j⟩, t, hfound, hparse⟩ := exists_parse tokens version he
  · cases hparse.symm.trans h
  · cases hparse.symm.trans h
    exact ⟨j, t, hfound⟩

theorem finds_of_parse_error (he : e.descends Symbol.depth true = true) {m : Nat}
    (h : language.parse e tokens version = .error m) :
    ∃ t, e.Finds (language.derived tokens version) 0 none t ∧ t.farthest = m := by
  obtain ⟨_ | ⟨v', j⟩, t, hfound, hparse⟩ := exists_parse tokens version he
  · cases hparse.symm.trans h
    exact ⟨t, hfound, rfl⟩
  · cases hparse.symm.trans h

end Run

/-! ## §5. Programs. -/

section Program

variable {tokens : List Token} {version : Version}

theorem program_descends : program.descends Symbol.depth true = true := rfl

theorem readProgram_eq_of_finds {o : Option (Option Node × Nat)} {t : Trace}
    (h : program.Finds (language.derived tokens.toArray version) 0 o t) :
    readProgram tokens version = Finding.result o t :=
  parse_eq_of_finds program_descends h

theorem finds_of_readProgram_ok {root : Option Node} (h : readProgram tokens version = .ok root) :
    ∃ j t, program.Finds (language.derived tokens.toArray version) 0 (some (root, j)) t :=
  finds_of_parse_ok program_descends h

theorem finds_of_readProgram_error {m : Nat} (h : readProgram tokens version = .error m) :
    ∃ t, program.Finds (language.derived tokens.toArray version) 0 none t ∧ t.farthest = m :=
  finds_of_parse_error program_descends h

end Program

end RubySyntax.Grammar
