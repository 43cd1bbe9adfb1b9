/-
  RubySyntax.Proofs.Grammar.Finding
  ─────────────────────────────────
  **WHAT READING FINDS.**

  `Expr.Reads` says which values an expression can give.  `Expr.Finds` says what comes of it: a
  value or a failure, and the trace that the failed tests have left.  Choice is kept: the second
  alternative counts only where the first one fails, and a repetition goes on as long as it can.
  Fuel and memo are forgotten.

  What the symbols of a grammar find is the least family that obeys its rules.  So what is closed
  under the rules holds of all that is found.

  Main results:
    • `Finds.reads` — what is found can be read,
    • `Finds.unique` — an expression finds one thing, if each symbol does,
    • `derived_iff` — a symbol finds what its rule finds,
    • `derived_induction` — what is closed under the rules holds of all that is found,
    • `derived_unique` — the symbols of a grammar find one thing at each position,
    • `reads_of_derived` — what is closed under readings of what is found holds of all that is found.
-/
import RubySyntax.Proofs.Grammar.Yields

namespace RubySyntax.Grammar

/-! ## §1. Traces. -/

/-- What failed tests leave. -/
structure Trace where
  /-- The greatest index just after a token that was looked at. -/
  farthest : Nat
  /-- The versions that brought what was read and refused. -/
  refused : List Version
deriving DecidableEq, Repr

namespace Trace

/-- No test has failed. -/
def none : Trace := ⟨0, []⟩

/-- A test has failed just before an index. -/
def test (i : Nat) : Trace := ⟨i, []⟩

/-- What a version has brought was read up to an index, and refused. -/
def refusal (v : Version) (i : Nat) : Trace := ⟨i, [v]⟩

instance : Append Trace where
  append s t := ⟨max s.farthest t.farthest, s.refused ++ t.refused⟩

@[simp] theorem farthest_none : none.farthest = 0 := rfl

@[simp] theorem farthest_test (i : Nat) : (test i).farthest = i := rfl

@[simp] theorem farthest_refusal (v : Version) (i : Nat) : (refusal v i).farthest = i := rfl

@[simp] theorem farthest_append (s t : Trace) :
    (s ++ t).farthest = max s.farthest t.farthest := rfl

@[simp] theorem refused_append (s t : Trace) : (s ++ t).refused = s.refused ++ t.refused := rfl

theorem append_none (t : Trace) : t ++ none = t := by
  show Trace.mk (max t.farthest 0) (t.refused ++ []) = t
  rw [Nat.max_zero, List.append_nil]

end Trace

/-! ## §2. Findings. -/

/-- What can come of reading: a value and the position after it, or a failure; and a trace. -/
abbrev Finding (α : Type) := Option (α × Nat) → Trace → Prop

/-- A token of one of some kinds. -/
inductive TokenFinds (tokens : Array Token) (kinds : List Token.Kind) (i : Nat) :
    Finding Token where
  | here {tok : Token} (ht : tokens[i]? = some tok) (hkind : tok.kind ∈ kinds) :
      TokenFinds tokens kinds i (some (tok, i + 1)) .none
  | other {tok : Token} (ht : tokens[i]? = some tok) (hkind : tok.kind ∉ kinds) :
      TokenFinds tokens kinds i none (.test (i + 1))
  | past (ht : tokens[i]? = none) : TokenFinds tokens kinds i none (.test i)

/-- One thing after another. -/
inductive SeqFinds {α β : Type} (F : Nat → Finding (α → β)) (X : Nat → Finding α) (i : Nat) :
    Finding β where
  | first {t : Trace} (hf : F i none t) : SeqFinds F X i none t
  | second {g : α → β} {k : Nat} {t u : Trace} (hf : F i (some (g, k)) t) (hx : X k none u) :
      SeqFinds F X i none (t ++ u)
  | both {g : α → β} {a : α} {k j : Nat} {t u : Trace} (hf : F i (some (g, k)) t)
      (hx : X k (some (a, j)) u) : SeqFinds F X i (some (g a, j)) (t ++ u)

/-- A thing whose value is changed. -/
inductive MapFinds {α β : Type} (f : α → β) (X : Finding α) : Finding β where
  | fails {t : Trace} (hx : X none t) : MapFinds f X none t
  | finds {a : α} {j : Nat} {t : Trace} (hx : X (some (a, j)) t) : MapFinds f X (some (f a, j)) t

/-- A thing whose value is made into another one, or refused. -/
inductive CheckFinds {α β : Type} (f : α → Option β) (X : Finding α) : Finding β where
  | fails {t : Trace} (hx : X none t) : CheckFinds f X none t
  | refuses {a : α} {j : Nat} {t : Trace} (hx : X (some (a, j)) t) (ha : f a = none) :
      CheckFinds f X none (t ++ .test j)
  | finds {a : α} {b : β} {j : Nat} {t : Trace} (hx : X (some (a, j)) t) (ha : f a = some b) :
      CheckFinds f X (some (b, j)) t

/-- A thing that versions before a given one refuse. -/
inductive SinceFinds {α : Type} (version v : Version) (X : Finding α) : Finding α where
  | fails {t : Trace} (hx : X none t) : SinceFinds version v X none t
  | refuses {a : α} {j : Nat} {t : Trace} (hx : X (some (a, j)) t)
      (hv : version.atLeast v = false) : SinceFinds version v X none (t ++ .refusal v j)
  | finds {a : α} {j : Nat} {t : Trace} (hx : X (some (a, j)) t)
      (hv : version.atLeast v = true) : SinceFinds version v X (some (a, j)) t

/-- The first of two things that does not fail. -/
inductive ChoiceFinds {α : Type} (A B : Finding α) : Finding α where
  | first {v : α} {j : Nat} {t : Trace} (ha : A (some (v, j)) t) : ChoiceFinds A B (some (v, j)) t
  | second {o : Option (α × Nat)} {t u : Trace} (ha : A none t) (hb : B o u) :
      ChoiceFinds A B o (t ++ u)

/-- A thing again and again, until it fails. -/
inductive StarFinds {α : Type} (X : Nat → Finding α) : Nat → List α → Nat → Trace → Prop where
  | stop {i : Nat} {t : Trace} (hx : X i none t) : StarFinds X i [] i t
  | more {i k j : Nat} {a : α} {as : List α} {t u : Trace} (hx : X i (some (a, k)) t)
      (h : StarFinds X k as j u) : StarFinds X i (a :: as) j (t ++ u)

/-- A repetition ends where a try has failed. -/
theorem StarFinds.stops {α : Type} {X : Nat → Finding α} {i j : Nat} {as : List α} {t : Trace}
    (h : StarFinds X i as j t) : ∃ u, X j none u ∧ u.farthest ≤ t.farthest := by
  induction h with
  | stop hx => exact ⟨_, hx, Nat.le_refl _⟩
  | more _ _ ih =>
      obtain ⟨u, hx, hu⟩ := ih
      exact ⟨u, hx, Nat.le_trans hu (Nat.le_max_right _ _)⟩

/-- A test that leaves no trace. -/
inductive TestFinds (P : Prop) (i : Nat) : Finding Unit where
  | holds (h : P) : TestFinds P i (some ((), i)) .none
  | fails (h : ¬ P) : TestFinds P i none .none

/-- A token of one of some kinds stands at a position. -/
def Stands (tokens : Array Token) (kinds : List Token.Kind) (i : Nat) : Prop :=
  ∃ tok, tokens[i]? = some tok ∧ tok.kind ∈ kinds

/-- What findings depend on: the tokens, the version, and what each symbol finds. -/
structure Facts (Symbol : Type) (Result : Symbol → Type) where
  tokens : Array Token
  version : Version
  finds : (s : Symbol) → Nat → Finding (Result s)

/-- What each symbol can give is what it finds. -/
def Facts.context {Symbol : Type} {Result : Symbol → Type} (c : Facts Symbol Result) :
    Context Symbol Result where
  tokens := c.tokens
  version := c.version
  gives s i v j := ∃ t, c.finds s i (some (v, j)) t

namespace Expr

variable {Symbol : Type} {Result : Symbol → Type}

/-- What an expression finds from a position on. -/
def Finds (c : Facts Symbol Result) : {α : Type} → Expr Symbol Result α → Nat → Finding α
  | _, .token kinds, i => TokenFinds c.tokens kinds i
  | _, .done value, i => fun o t => o = some (value, i) ∧ t = .none
  | _, .seq f x, i => SeqFinds (f.Finds c) (x.Finds c) i
  | _, .map f x, i => MapFinds f (x.Finds c i)
  | _, .check f x, i => CheckFinds (f c.version) (x.Finds c i)
  | _, .since v x, i => SinceFinds c.version v (x.Finds c i)
  | _, .orElse a b, i => ChoiceFinds (a.Finds c i) (b.Finds c i)
  | _, .star x, i => fun o t => ∃ as j, o = some (as, j) ∧ StarFinds (x.Finds c) i as j t
  | _, .next kinds, i => TestFinds (Stands c.tokens kinds i) i
  | _, .notNext kinds, i => TestFinds (¬ Stands c.tokens kinds i) i
  | _, .finish, i => TestFinds (c.tokens.size ≤ i) i
  | _, .call s, i => c.finds s i

variable {c c' : Facts Symbol Result} {α : Type} {i : Nat} {o o' : Option (α × Nat)}
  {t t' : Trace}

/-- What is found stays found if symbols find more. -/
theorem Finds.mono {e : Expr Symbol Result α} (h : e.Finds c i o t) (htokens : c.tokens = c'.tokens)
    (hversion : c.version = c'.version)
    (hfinds : ∀ s i o t, c.finds s i o t → c'.finds s i o t) : e.Finds c' i o t := by
  induction e generalizing i t with
  | token kinds =>
      simp only [Finds] at h ⊢
      exact htokens ▸ h
  | done value => exact h
  | seq f x ihf ihx =>
      cases h with
      | first hf => exact .first (ihf hf)
      | second hf hx => exact .second (ihf hf) (ihx hx)
      | both hf hx => exact .both (ihf hf) (ihx hx)
  | map f x ih =>
      cases h with
      | fails hx => exact .fails (ih hx)
      | finds hx => exact .finds (ih hx)
  | check f x ih =>
      cases h with
      | fails hx => exact .fails (ih hx)
      | refuses hx ha => exact .refuses (ih hx) (hversion ▸ ha)
      | finds hx ha => exact .finds (ih hx) (hversion ▸ ha)
  | since v x ih =>
      cases h with
      | fails hx => exact .fails (ih hx)
      | refuses hx hv => exact .refuses (ih hx) (hversion ▸ hv)
      | finds hx hv => exact .finds (ih hx) (hversion ▸ hv)
  | orElse a b iha ihb =>
      cases h with
      | first ha => exact .first (iha ha)
      | second ha hb => exact .second (iha ha) (ihb hb)
  | star x ih =>
      obtain ⟨as, j, rfl, h⟩ := h
      refine ⟨as, j, rfl, ?_⟩
      induction h with
      | stop hx => exact .stop (ih hx)
      | more hx _ iht => exact .more (ih hx) iht
  | next kinds | notNext kinds | finish =>
      simp only [Finds] at h ⊢
      exact htokens ▸ h
  | call s => exact hfinds s i o t h

/-- **What is found can be read.** -/
theorem Finds.reads {e : Expr Symbol Result α} {v : α} {j : Nat} (h : e.Finds c i (some (v, j)) t) :
    e.Reads c.context i v j := by
  -- on the expression: a value is found in one way for each constructor, the way in which it reads
  induction e generalizing i j t with
  | token kinds =>
      cases h with
      | here ht hkind => exact ⟨ht, hkind, rfl⟩
  | done value =>
      obtain ⟨heq, -⟩ := h
      cases heq
      exact ⟨rfl, rfl⟩
  | seq f x ihf ihx =>
      cases h with
      | both hf hx => exact ⟨_, _, ihf hf, _, ihx hx, rfl⟩
  | map f x ih =>
      cases h with
      | finds hx => exact ⟨_, ih hx, rfl⟩
  | check f x ih =>
      cases h with
      | finds hx ha => exact ⟨_, ih hx, ha⟩
  | since v x ih =>
      cases h with
      | finds hx hv => exact ⟨ih hx, hv⟩
  | orElse a b iha ihb =>
      cases h with
      | first ha => exact .inl (iha ha)
      | second _ hb => exact .inr (ihb hb)
  | star x ih =>
      obtain ⟨as, k, heq, h⟩ := h
      cases heq
      show Repeats _ i v j
      induction h with
      | stop => exact .nil _
      | more hx _ iht => exact .cons (ih hx) iht
  | next kinds | finish =>
      cases h with
      | holds h => exact ⟨rfl, h⟩
  | notNext kinds =>
      cases h with
      | holds h => exact ⟨rfl, fun tok htok hkind => h ⟨tok, htok, hkind⟩⟩
  | call s => exact ⟨t, h⟩

end Expr

/-! ## §3. One thing is found. -/

section Unique

variable {α β : Type} {i : Nat} {t t' : Trace}

theorem TokenFinds.unique {tokens : Array Token} {kinds : List Token.Kind}
    {o o' : Option (Token × Nat)} (h : TokenFinds tokens kinds i o t)
    (h' : TokenFinds tokens kinds i o' t') : (o, t) = (o', t') := by
  cases h <;> cases h' <;> simp_all

theorem TestFinds.unique {P : Prop} {o o' : Option (Unit × Nat)} (h : TestFinds P i o t)
    (h' : TestFinds P i o' t') : (o, t) = (o', t') := by
  cases h <;> cases h' <;> first | rfl | contradiction

theorem SeqFinds.unique {F F' : Nat → Finding (α → β)} {X X' : Nat → Finding α}
    {o o' : Option (β × Nat)} (h : SeqFinds F X i o t) (h' : SeqFinds F' X' i o' t')
    (hF : ∀ {i o t o' t'}, F i o t → F' i o' t' → (o, t) = (o', t'))
    (hX : ∀ {i o t o' t'}, X i o t → X' i o' t' → (o, t) = (o', t')) : (o, t) = (o', t') := by
  -- the first part has one outcome, so both are of one kind; then so has the second part
  cases h with
  | first hf =>
      cases h' with
      | first hf' =>
          cases hF hf hf'
          rfl
      | second hf' | both hf' => cases hF hf hf'
  | second hf hx =>
      cases h' with
      | first hf' => cases hF hf hf'
      | second hf' hx' =>
          cases hF hf hf'
          cases hX hx hx'
          rfl
      | both hf' hx' =>
          cases hF hf hf'
          cases hX hx hx'
  | both hf hx =>
      cases h' with
      | first hf' => cases hF hf hf'
      | second hf' hx' =>
          cases hF hf hf'
          cases hX hx hx'
      | both hf' hx' =>
          cases hF hf hf'
          cases hX hx hx'
          rfl

theorem MapFinds.unique {f : α → β} {X X' : Finding α}
    {o o' : Option (β × Nat)} (h : MapFinds f X o t) (h' : MapFinds f X' o' t')
    (hX : ∀ {o t o' t'}, X o t → X' o' t' → (o, t) = (o', t')) : (o, t) = (o', t') := by
  cases h with
  | fails hx =>
      cases h' with
      | fails hx' =>
          cases hX hx hx'
          rfl
      | finds hx' => cases hX hx hx'
  | finds hx =>
      cases h' with
      | fails hx' => cases hX hx hx'
      | finds hx' =>
          cases hX hx hx'
          rfl

theorem CheckFinds.unique {f : α → Option β} {X X' : Finding α}
    {o o' : Option (β × Nat)} (h : CheckFinds f X o t) (h' : CheckFinds f X' o' t')
    (hX : ∀ {o t o' t'}, X o t → X' o' t' → (o, t) = (o', t')) : (o, t) = (o', t') := by
  cases h with
  | fails hx =>
      cases h' with
      | fails hx' =>
          cases hX hx hx'
          rfl
      | refuses hx' | finds hx' => cases hX hx hx'
  | refuses hx ha =>
      cases h' with
      | fails hx' => cases hX hx hx'
      | refuses hx' ha' =>
          cases hX hx hx'
          rfl
      | finds hx' ha' =>
          cases hX hx hx'
          cases ha.symm.trans ha'
  | finds hx ha =>
      cases h' with
      | fails hx' => cases hX hx hx'
      | refuses hx' ha' =>
          cases hX hx hx'
          cases ha.symm.trans ha'
      | finds hx' ha' =>
          cases hX hx hx'
          cases ha.symm.trans ha'
          rfl

theorem SinceFinds.unique {version v : Version} {X X' : Finding α}
    {o o' : Option (α × Nat)} (h : SinceFinds version v X o t)
    (h' : SinceFinds version v X' o' t')
    (hX : ∀ {o t o' t'}, X o t → X' o' t' → (o, t) = (o', t')) : (o, t) = (o', t') := by
  cases h with
  | fails hx =>
      cases h' with
      | fails hx' =>
          cases hX hx hx'
          rfl
      | refuses hx' | finds hx' => cases hX hx hx'
  | refuses hx hv =>
      cases h' with
      | fails hx' => cases hX hx hx'
      | refuses hx' _ =>
          cases hX hx hx'
          rfl
      | finds hx' hv' => cases hv.symm.trans hv'
  | finds hx hv =>
      cases h' with
      | fails hx' => cases hX hx hx'
      | refuses hx' hv' => cases hv.symm.trans hv'
      | finds hx' _ =>
          cases hX hx hx'
          rfl

theorem ChoiceFinds.unique {A A' B B' : Finding α}
    {o o' : Option (α × Nat)} (h : ChoiceFinds A B o t) (h' : ChoiceFinds A' B' o' t')
    (hA : ∀ {o t o' t'}, A o t → A' o' t' → (o, t) = (o', t'))
    (hB : ∀ {o t o' t'}, B o t → B' o' t' → (o, t) = (o', t')) : (o, t) = (o', t') := by
  cases h with
  | first ha =>
      cases h' with
      | first ha' => exact hA ha ha'
      | second ha' _ => cases hA ha ha'
  | second ha hb =>
      cases h' with
      | first ha' => cases hA ha ha'
      | second ha' hb' =>
          cases hA ha ha'
          cases hB hb hb'
          rfl

theorem StarFinds.unique {X X' : Nat → Finding α}
    {as as' : List α} {j j' : Nat} (h : StarFinds X i as j t) (h' : StarFinds X' i as' j' t')
    (hX : ∀ {i o t o' t'}, X i o t → X' i o' t' → (o, t) = (o', t')) :
    (as, j, t) = (as', j', t') := by
  induction h generalizing as' j' t' with
  | stop hx =>
      cases h' with
      | stop hx' =>
          cases hX hx hx'
          rfl
      | more hx' _ => cases hX hx hx'
  | more hx _ ih =>
      cases h' with
      | stop hx' => cases hX hx hx'
      | more hx' h' =>
          cases hX hx hx'
          cases ih h'
          rfl

/-- **An expression finds one thing**, if that is so for the symbols. -/
theorem Expr.Finds.unique {Symbol : Type} {Result : Symbol → Type} {c c' : Facts Symbol Result}
    {e : Expr Symbol Result α} {o o' : Option (α × Nat)} (h : e.Finds c i o t)
    (h' : e.Finds c' i o' t') (htokens : c.tokens = c'.tokens) (hversion : c.version = c'.version)
    (hfinds : ∀ {s i o t o' t'}, c.finds s i o t → c'.finds s i o' t' → (o, t) = (o', t')) :
    (o, t) = (o', t') := by
  induction e generalizing i t t' with
  | token kinds =>
      simp only [Finds, ← htokens] at h h'
      exact TokenFinds.unique h h'
  | done value =>
      obtain ⟨rfl, rfl⟩ := h
      obtain ⟨rfl, rfl⟩ := h'
      rfl
  | seq f x ihf ihx => exact SeqFinds.unique h h' ihf ihx
  | map f x ih => exact MapFinds.unique h h' ih
  | check f x ih =>
      simp only [Finds, ← hversion] at h h'
      exact CheckFinds.unique h h' ih
  | since v x ih =>
      simp only [Finds, ← hversion] at h h'
      exact SinceFinds.unique h h' ih
  | orElse a b iha ihb => exact ChoiceFinds.unique h h' iha ihb
  | star x ih =>
      obtain ⟨as, j, rfl, h⟩ := h
      obtain ⟨as', j', rfl, h'⟩ := h'
      cases StarFinds.unique h h' ih
      rfl
  | next kinds | notNext kinds | finish =>
      simp only [Finds, ← htokens] at h h'
      exact TestFinds.unique h h'
  | call s => exact hfinds h h'

end Unique

/-! ## §4. What the symbols of a grammar find. -/

namespace Rules

variable {g : Rules}

/-- What the rule of a symbol finds counts as found by the symbol. -/
def Upholds (g : Rules) (c : Facts g.Symbol g.Result) : Prop :=
  ∀ s i o t, (g.rule s).Finds c i o t → c.finds s i o t

/-- What the symbols of a grammar find: no more than its rules demand. -/
def derived (g : Rules) (tokens : Array Token) (version : Version) : Facts g.Symbol g.Result where
  tokens
  version
  finds s i o t := ∀ finds, g.Upholds ⟨tokens, version, finds⟩ → finds s i o t

variable {tokens : Array Token} {version : Version} {s : g.Symbol} {i : Nat}
  {o o' : Option (g.Result s × Nat)} {t t' : Trace}

theorem upholds_derived (g : Rules) (tokens : Array Token) (version : Version) :
    g.Upholds (g.derived tokens version) :=
  fun s i o t h finds hfinds =>
    hfinds s i o t (h.mono rfl rfl fun _ _ _ _ hs => hs finds hfinds)

/-- **What is closed under the rules holds of all that is found.**  What the symbols in a rule find
may be taken to be found and to have the property. -/
theorem derived_induction {P : (s : g.Symbol) → Nat → Finding (g.Result s)}
    (hP : ∀ s i o t, (g.rule s).Finds ⟨tokens, version, fun s i o t =>
      (g.derived tokens version).finds s i o t ∧ P s i o t⟩ i o t → P s i o t)
    (h : (g.derived tokens version).finds s i o t) : P s i o t := by
  refine (h (fun s i o t => (g.derived tokens version).finds s i o t ∧ P s i o t) ?_).2
  intro s i o t h
  refine ⟨upholds_derived g tokens version s i o t ?_, hP s i o t h⟩
  exact h.mono rfl rfl fun _ _ _ _ hs => hs.1

/-- Readings in which every symbol gives what is found for it, and this has a property. -/
def found (g : Rules) (tokens : Array Token) (version : Version)
    (Q : (s : g.Symbol) → Nat → g.Result s → Nat → Prop) : Context g.Symbol g.Result where
  tokens
  version
  gives s i v j := (g.derived tokens version).context.gives s i v j ∧ Q s i v j

/-- **A symbol finds what its rule finds.** -/
theorem derived_iff : (g.derived tokens version).finds s i o t ↔
    (g.rule s).Finds (g.derived tokens version) i o t := by
  refine ⟨fun h => ?_, upholds_derived g tokens version s i o t⟩
  refine h (fun s => (g.rule s).Finds (g.derived tokens version)) ?_
  intro s i o t h
  exact h.mono rfl rfl (upholds_derived g tokens version)

/-- **The symbols of a grammar find one thing at each position.** -/
theorem derived_unique (h : (g.derived tokens version).finds s i o t)
    (h' : (g.derived tokens version).finds s i o' t') : (o, t) = (o', t') := by
  refine h (fun s i o t => ∀ o' t', (g.derived tokens version).finds s i o' t' →
    (o, t) = (o', t')) ?_ o' t' h'
  intro s i o t h o' t' h'
  exact h.unique (derived_iff.mp h') rfl rfl fun h h' => h _ _ h'

/-- So do expressions over them. -/
theorem derived_unique_expr {α : Type} {e : Expr g.Symbol g.Result α} {o o' : Option (α × Nat)}
    (h : e.Finds (g.derived tokens version) i o t)
    (h' : e.Finds (g.derived tokens version) i o' t') : (o, t) = (o', t') :=
  h.unique h' rfl rfl derived_unique

end Rules

end RubySyntax.Grammar
