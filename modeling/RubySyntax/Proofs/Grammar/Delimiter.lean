/-
  RubySyntax.Proofs.Grammar.Delimiter
  ───────────────────────────────────
  **DELIMITERS PAIR UP, BUT FOR THOSE OF OBJECT PATTERNS.**

  The scan takes a closing bracket for the end of whatever bracket is open, so it is the grammar
  that sees to it that brackets fit.  What an expression does to the stack of open delimiters is
  read off the expression: which of them it opens and which it closes.  A rule that closes what it
  opens, and nothing else, keeps the stack.

  One rule takes its brackets from two sets, and does not ask whether they fit: the parts of an
  object pattern may begin with a parenthesis and end with a square bracket, or the other way
  round.  Their opening bracket stands right behind a constant, and such a bracket is `loose`.

      x in Foo(a]

  Main results:
    • `through_of_effect` — the effect of an expression is what its readings do,
    • `language_nesting` — every rule keeps the stack,
    • `delimiters_pair_up` — the tokens of a program pair up, loose brackets with either end.
-/
import RubySyntax.Grammar.Program
import RubySyntax.Proofs.Grammar.Yields

namespace RubySyntax.Grammar

open Token

/-! ## §1. Pairs. -/

/-- The pairs of delimiters. -/
inductive Pair where
  | paren | square | brace | interpolation | quote
deriving DecidableEq, Repr

namespace Pair

/-- The pair that a token of a kind opens. -/
def opened? : Kind → Option Pair
  | .tLPAREN | .tLPAREN2 | .tLPAREN_ARG => some .paren
  | .tLBRACK | .tLBRACK2 => some .square
  | .tLBRACE | .tLCURLY | .tLAMBEG => some .brace
  | .tSTRING_DBEG => some .interpolation
  | .tSTRING_BEG | .tXSTRING_BEG | .tSYMBEG | .tREGEXP_BEG => some .quote
  | _ => none

/-- The pair that a token of a kind closes. -/
def closed? : Kind → Option Pair
  | .tRPAREN => some .paren
  | .tRBRACK => some .square
  | .tRCURLY => some .brace
  | .tSTRING_DEND => some .interpolation
  | .tSTRING_END => some .quote
  | _ => none

end Pair

/-- A delimiter that is open. -/
structure OpenPair where
  pair : Pair
  /-- Whether it may be the bracket of an object pattern: right behind a constant, in a version
  that has patterns. -/
  loose : Bool
deriving DecidableEq, Repr

/-- Whether the end of a pair closes a delimiter. -/
def OpenPair.endsWith (o : OpenPair) (p : Pair) : Bool :=
  o.pair == p || (o.loose && (p == .paren || p == .square))

/-- The delimiters that are open after a token, if it closes none but the innermost one.  `before`
is the kind of the token before it. -/
def openAfter (patterns : Bool) (before : Option Kind) (kind : Kind) (stack : List OpenPair) :
    Option (List OpenPair) :=
  match Pair.opened? kind, Pair.closed? kind, stack with
  | some p, _, stack =>
    some (⟨p, patterns && before == some .tCONSTANT &&
      (kind == .tLPAREN2 || kind == .tLBRACK2)⟩ :: stack)
  | none, none, stack => some stack
  | none, some p, o :: stack => if o.endsWith p then some stack else none
  | none, some _, [] => none

/-- The delimiters that are open after some tokens, from the left to the right. -/
def pairUp (patterns : Bool) (before : Option Kind) (stack : List OpenPair) :
    List Kind → Option (List OpenPair)
  | [] => some stack
  | kind :: rest =>
    (openAfter patterns before kind stack).bind fun stack => pairUp patterns (some kind) stack rest

/-! ## §2. Stretches of tokens. -/

/-- The kind of the token before a position. -/
def kindBefore (tokens : Array Token) : Nat → Option Kind
  | 0 => none
  | i + 1 => tokens[i]?.map (·.kind)

/-- From one position to another the tokens lead from one stack of open delimiters to another. -/
inductive Through (patterns : Bool) (tokens : Array Token) :
    Nat → List OpenPair → Nat → List OpenPair → Prop where
  | refl (i : Nat) (stack : List OpenPair) : Through patterns tokens i stack i stack
  | step {i j : Nat} {stack stack' after : List OpenPair} {t : Token} (ht : tokens[i]? = some t)
      (hopen : openAfter patterns (kindBefore tokens i) t.kind stack = some stack')
      (h : Through patterns tokens (i + 1) stack' j after) :
      Through patterns tokens i stack j after

section Through

variable {patterns : Bool} {tokens : Array Token} {i j k : Nat}
  {stack stack' after : List OpenPair}

theorem Through.single {t : Token} (ht : tokens[i]? = some t)
    (hopen : openAfter patterns (kindBefore tokens i) t.kind stack = some after) :
    Through patterns tokens i stack (i + 1) after :=
  .step ht hopen (.refl _ _)

theorem Through.trans (h : Through patterns tokens i stack k stack')
    (h' : Through patterns tokens k stack' j after) : Through patterns tokens i stack j after := by
  induction h with
  | refl => exact h'
  | step ht hopen _ ih => exact .step ht hopen (ih h')

/-- To the end of the tokens, a stretch leads to where all of them lead. -/
theorem Through.pairUp (h : Through patterns tokens i stack j after) (hj : tokens.size ≤ j) :
    Grammar.pairUp patterns (kindBefore tokens i) stack
      ((tokens.toList.drop i).map (·.kind)) = some after := by
  induction h with
  | refl i stack =>
      rw [List.drop_eq_nil_of_le (by simpa using hj)]
      rfl
  | @step i j stack stack' after t ht hopen _ ih =>
      obtain ⟨hi, rfl⟩ := Array.getElem?_eq_some_iff.mp ht
      have hdrop : tokens.toList.drop i = tokens[i] :: tokens.toList.drop (i + 1) := by
        rw [List.drop_eq_getElem_cons (by simpa using hi), Array.getElem_toList]
      have hbefore : kindBefore tokens (i + 1) = some tokens[i].kind := by simp [kindBefore, ht]
      rw [hdrop, List.map_cons, Grammar.pairUp, hopen, Option.bind_some, ← hbefore]
      exact ih hj

end Through

/-! ## §3. What an expression does to the stack. -/

/-- What tokens of a kind do to the stack. -/
inductive Turn where
  | keep
  | opens (p : Pair)
  | closes (p : Pair)
deriving DecidableEq, Repr

/-- What a token of a kind does to the stack. -/
def turnOf (kind : Kind) : Turn :=
  match Pair.opened? kind, Pair.closed? kind with
  | some p, _ => .opens p
  | none, some p => .closes p
  | none, none => .keep

/-- What each token of some kinds does to the stack, if they all do the same. -/
def turnOf? : List Kind → Option Turn
  | [] => none
  | kind :: kinds => if kinds.all fun k => turnOf k == turnOf kind then some (turnOf kind) else none

/-- The pairs that are open after a turn. -/
def Turn.apply : Turn → List Pair → Option (List Pair)
  | .keep, pairs => some pairs
  | .opens p, pairs => some (p :: pairs)
  | .closes p, q :: pairs => if q = p then some pairs else none
  | .closes _, [] => none

/-- The pairs that an expression leaves open if some are open before it, as far as it can be told
from the expression.  Patterns occur where they are allowed, or after a check of the version. -/
def Expr.effect? : {α : Type} → Rule α → (allowed : Bool) → List Pair → Option (List Pair)
  | _, .token kinds, _, pairs => (turnOf? kinds).bind fun turn => turn.apply pairs
  | _, .seq f x, allowed, pairs => (f.effect? allowed pairs).bind fun pairs => x.effect? allowed pairs
  | _, .map _ x, allowed, pairs => x.effect? allowed pairs
  | _, .check _ x, allowed, pairs => x.effect? allowed pairs
  | _, .since v x, allowed, pairs =>
    x.effect? (allowed || v.atLeast Version.Feature.patternMatching.since) pairs
  | _, .orElse a b, allowed, pairs =>
    if a.effect? allowed pairs = b.effect? allowed pairs then a.effect? allowed pairs else none
  | _, .star x, allowed, pairs =>
    if x.effect? allowed pairs = some pairs then some pairs else none
  | _, .call s, allowed, pairs => if s.isPattern && !allowed then none else some pairs
  | _, _, _, pairs => some pairs

/-- In this context each symbol keeps the stack; those of patterns in versions that have them. -/
def nesting (tokens : Array Token) (version : Version) : Context Symbol Symbol.Result where
  tokens
  version
  gives s i _ j := (s.isPattern = true → version.supports .patternMatching = true) →
    ∀ stack, Through (version.supports .patternMatching) tokens i stack j stack

variable {tokens : Array Token} {version : Version} {i j k : Nat}

/-- A turn of the pairs is a turn of the stack. -/
theorem openAfter_of_turn {kind : Kind} {pairs pairs' : List Pair}
    (h : (turnOf kind).apply pairs = some pairs') (patterns : Bool) (before : Option Kind)
    {opens : List OpenPair} (hopens : opens.map (·.pair) = pairs) (stack : List OpenPair) :
    ∃ opens', opens'.map (·.pair) = pairs' ∧
      openAfter patterns before kind (opens ++ stack) = some (opens' ++ stack) := by
  unfold turnOf at h
  unfold openAfter
  cases hopened : Pair.opened? kind with
  | some p =>
      rw [hopened] at h
      cases h
      exact ⟨⟨p, _⟩ :: opens, by rw [List.map_cons, hopens], rfl⟩
  | none =>
      rw [hopened] at h
      cases hclosed : Pair.closed? kind with
      | none =>
          rw [hclosed] at h
          cases h
          exact ⟨opens, hopens, rfl⟩
      | some p =>
          rw [hclosed] at h
          -- what closes must close the pair that was opened last
          cases opens with
          | nil =>
              subst hopens
              cases h
          | cons o opens =>
              subst hopens
              simp only [Turn.apply, List.map_cons] at h
              split at h
              next hpair =>
                cases h
                refine ⟨opens, rfl, ?_⟩
                simp [OpenPair.endsWith, hpair]
              next => cases h

theorem turnOf_of_mem {kinds : List Kind} {turn : Turn} (h : turnOf? kinds = some turn) {kind : Kind}
    (hkind : kind ∈ kinds) : turnOf kind = turn := by
  cases kinds with
  | nil => cases hkind
  | cons first kinds =>
      simp only [turnOf?, Option.ite_none_right_eq_some, List.all_eq_true, beq_iff_eq,
        Option.some.injEq] at h
      obtain ⟨hall, rfl⟩ := h
      rcases List.mem_cons.mp hkind with rfl | hkind
      · rfl
      · exact hall kind hkind

/-- **The effect of an expression is what its readings do to the stack.** -/
theorem through_of_effect {α : Type} {e : Rule α} {allowed : Bool} {pairs pairs' : List Pair}
    (h : e.effect? allowed pairs = some pairs')
    (hallowed : allowed = true → version.supports .patternMatching = true) {v : α}
    (hread : e.Reads (nesting tokens version) i v j) {opens : List OpenPair}
    (hopens : opens.map (·.pair) = pairs) (stack : List OpenPair) :
    ∃ opens', opens'.map (·.pair) = pairs' ∧
      Through (version.supports .patternMatching) tokens i (opens ++ stack) j (opens' ++ stack) := by
  induction e generalizing allowed pairs pairs' i j opens with
  | token kinds =>
      obtain ⟨ht, hkind, rfl⟩ := hread
      obtain ⟨turn, hturn, happly⟩ := Option.bind_eq_some_iff.mp h
      rw [← turnOf_of_mem hturn hkind] at happly
      obtain ⟨opens', hopens', hopen⟩ := openAfter_of_turn happly
        (version.supports .patternMatching) (kindBefore tokens i) hopens stack
      exact ⟨opens', hopens', .single ht hopen⟩
  | done value =>
      obtain ⟨-, rfl⟩ := hread
      cases h
      exact ⟨opens, hopens, .refl _ _⟩
  | seq f x ihf ihx =>
      obtain ⟨k, g, hf, a, hx, -⟩ := hread
      obtain ⟨between, hbetween, h⟩ := Option.bind_eq_some_iff.mp h
      obtain ⟨opens₁, hopens₁, hthrough₁⟩ := ihf hbetween hallowed hf hopens
      obtain ⟨opens₂, hopens₂, hthrough₂⟩ := ihx h hallowed hx hopens₁
      exact ⟨opens₂, hopens₂, hthrough₁.trans hthrough₂⟩
  | map f x ih =>
      obtain ⟨a, hx, -⟩ := hread
      exact ih h hallowed hx hopens
  | check f x ih =>
      obtain ⟨a, hx, -⟩ := hread
      exact ih h hallowed hx hopens
  | since v₀ x ih =>
      obtain ⟨hx, hv⟩ := hread
      refine ih h (fun hor => ?_) hx hopens
      rcases Bool.or_eq_true _ _ ▸ hor with hor | hor
      · exact hallowed hor
      · exact Version.atLeast_trans hv hor
  | orElse a b iha ihb =>
      simp only [Expr.effect?, Option.ite_none_right_eq_some] at h
      obtain ⟨heq, h⟩ := h
      rcases hread with hread | hread
      · exact iha h hallowed hread hopens
      · exact ihb (heq ▸ h) hallowed hread hopens
  | star x ih =>
      simp only [Expr.effect?, Option.ite_none_right_eq_some, Option.some.injEq] at h
      obtain ⟨hx, rfl⟩ := h
      -- each element leaves the same pairs open, though some may be loose where others were not
      induction (show Repeats (x.Reads (nesting tokens version)) i v j from hread)
        generalizing opens with
      | nil i => exact ⟨opens, hopens, .refl _ _⟩
      | cons head tail iht =>
          obtain ⟨opens₁, hopens₁, hthrough₁⟩ := ih hx hallowed head hopens
          obtain ⟨opens₂, hopens₂, hthrough₂⟩ := iht tail hopens₁
          exact ⟨opens₂, hopens₂, hthrough₁.trans hthrough₂⟩
  | next kinds | notNext kinds | finish =>
      obtain ⟨rfl, -⟩ := hread
      cases h
      exact ⟨opens, hopens, .refl _ _⟩
  | call s =>
      simp only [Expr.effect?, Option.ite_none_left_eq_some, Bool.and_eq_true, Bool.not_eq_true',
        not_and, Bool.not_eq_false, Option.some.injEq] at h
      obtain ⟨hpattern, rfl⟩ := h
      exact ⟨opens, hopens, hread (fun hs => hallowed (hpattern hs)) _⟩

/-- Every reading of an expression keeps the stack. -/
def Keeps (c : Context Symbol Symbol.Result) {α : Type} (e : Rule α) : Prop :=
  ∀ i v j, e.Reads c i v j → ∀ stack,
    Through (c.version.supports .patternMatching) c.tokens i stack j stack

theorem keeps_of_effect {α : Type} {e : Rule α} (allowed : Bool)
    (h : e.effect? allowed [] = some [])
    (hallowed : allowed = true → version.supports .patternMatching = true) :
    Keeps (nesting tokens version) e := by
  intro i v j hread stack
  have hnone : ([] : List OpenPair).map (·.pair) = [] := rfl
  obtain ⟨opens, hopens, hthrough⟩ := through_of_effect h hallowed hread hnone stack
  rw [List.map_eq_nil_iff] at hopens
  subst hopens
  exact hthrough

/-! ## §4. Operators. -/

theorem effect_firstOf {α : Type} {xs : List (Rule α)} {last : Rule α} {allowed : Bool}
    {pairs : List Pair} (hxs : ∀ x ∈ xs, x.effect? allowed pairs = some pairs)
    (hlast : last.effect? allowed pairs = some pairs) :
    (Expr.firstOf xs last).effect? allowed pairs = some pairs := by
  induction xs with
  | nil => exact hlast
  | cons x xs ih =>
      obtain ⟨hx, hxs⟩ := List.forall_mem_cons.mp hxs
      show (if x.effect? allowed pairs = (Expr.firstOf xs last).effect? allowed pairs
        then x.effect? allowed pairs else none) = some pairs
      rw [hx, ih hxs, if_pos rfl]

theorem effect_foldl_orElse {α : Type} {xs : List (Rule α)} {allowed : Bool} {pairs : List Pair}
    (hxs : ∀ x ∈ xs, x.effect? allowed pairs = some pairs) :
    ∀ {x : Rule α}, x.effect? allowed pairs = some pairs →
      (xs.foldl Expr.orElse x).effect? allowed pairs = some pairs := by
  induction xs with
  | nil => exact fun hx => hx
  | cons y xs ih =>
      intro x hx
      obtain ⟨hy, hxs⟩ := List.forall_mem_cons.mp hxs
      refine ih hxs ?_
      show (if x.effect? allowed pairs = y.effect? allowed pairs then x.effect? allowed pairs
        else none) = some pairs
      rw [hx, hy, if_pos rfl]

/-- Operators of all levels keep the pairs that are open if no operator is a delimiter. -/
theorem effect_climb {unary : List UnaryLevel} {binary : List BinaryLevel} {atom : Rule Node}
    {operand : Nat → Rule Node} {allowed : Bool} {pairs : List Pair}
    (hunary : ∀ u ∈ unary, turnOf? u.kinds = some .keep)
    (hbinary : ∀ b ∈ binary, turnOf? b.kinds = some .keep)
    (hatom : atom.effect? allowed pairs = some pairs)
    (hoperand : ∀ l, (operand l).effect? allowed pairs = some pairs) (level : Nat) :
    (climb unary binary atom operand level).effect? allowed pairs = some pairs := by
  -- an operator neither opens nor closes anything, so an operation does what its operands do
  have hhead : ∀ x ∈ unary.map (·.head operand), x.effect? allowed pairs = some pairs := by
    intro x hx
    obtain ⟨u, hu, rfl⟩ := List.mem_map.mp hx
    show ((turnOf? u.kinds).bind fun turn => turn.apply pairs).bind
      (fun pairs => (operand u.level).effect? allowed pairs) = some pairs
    rw [hunary u hu]
    exact hoperand _
  have htail : ∀ x ∈ (binary.filter (level ≤ ·.level)).map (·.tail operand),
      x.effect? allowed pairs = some pairs := by
    intro x hx
    obtain ⟨b, hb, rfl⟩ := List.mem_map.mp hx
    show ((turnOf? b.kinds).bind fun turn => turn.apply pairs).bind
      (fun pairs => (operand b.rightLevel).effect? allowed pairs) = some pairs
    rw [hbinary b (List.mem_filter.mp hb).1]
    exact hoperand _
  have hfirst := effect_firstOf hhead hatom
  simp only [climb]
  split
  next => exact hfirst
  next tail tails heq =>
    rw [heq] at htail
    obtain ⟨htail, htails⟩ := List.forall_mem_cons.mp htail
    have hoperators := effect_foldl_orElse htails htail
    show ((Expr.firstOf (unary.map (·.head operand)) atom).effect? allowed pairs).bind
      (fun pairs => if (tails.foldl Expr.orElse tail).effect? allowed pairs = some pairs
        then some pairs else none) = some pairs
    rw [hfirst, Option.bind_some, hoperators, if_pos rfl]

/-! ## §5. Object patterns. -/

/-- A constant ends with the token of a constant. -/
theorem kindBefore_patternConstant {c : Context Symbol Symbol.Result} {n : Node}
    (h : patternConstant.Reads c i n j) : kindBefore c.tokens j = some .tCONSTANT := by
  have hname : ∀ {i t j}, (Expr.tok .tCONSTANT : Rule Token).Reads c i t j →
      kindBefore c.tokens j = some .tCONSTANT := by
    intro i t j h
    obtain ⟨ht, hkind, rfl⟩ := h.tok
    simp [kindBefore, ht, hkind]
  obtain ⟨k, g, ⟨head, hread, rfl⟩, names, hnames, rfl⟩ := h
  have hhead : kindBefore c.tokens k = some .tCONSTANT := by
    rcases hread with ⟨_, _, -, t, ht, -⟩ | ⟨t, ht, -⟩
    · exact hname ht
    · exact hname ht
  clear hread
  -- the last name of the path, or the head if there is no path
  induction (show Repeats _ k names j from hnames) with
  | nil => exact hhead
  | cons first rest ih =>
      obtain ⟨_, _, -, ht⟩ := first.seqRight
      exact ih rest (hname ht)

/-- The bracket behind a constant is loose where there are patterns. -/
theorem through_partsOpen {c : Context Symbol Symbol.Result}
    (hpatterns : c.version.supports .patternMatching = true) (hconstant : Keeps c patternConstant)
    {β : Type} {f : Node → Token → β} {g : β}
    (h : (f <$> patternConstant <*> .token partsOpen).Reads c i g j) (stack : List OpenPair) :
    ∃ p, Through (c.version.supports .patternMatching) c.tokens i stack j (⟨p, true⟩ :: stack) := by
  obtain ⟨k, _, ⟨n, hn, rfl⟩, opening, ⟨hopening, hopens, rfl⟩, rfl⟩ := h
  have hopen : ∃ p, openAfter (c.version.supports .patternMatching) (kindBefore c.tokens k)
      opening.kind stack = some (⟨p, true⟩ :: stack) := by
    rw [kindBefore_patternConstant hn, hpatterns]
    simp only [partsOpen, List.mem_cons, List.not_mem_nil, or_false] at hopens
    rcases hopens with hkind | hkind
    · exact ⟨.paren, by rw [hkind]; rfl⟩
    · exact ⟨.square, by rw [hkind]; rfl⟩
  obtain ⟨p, hopen⟩ := hopen
  exact ⟨p, (hconstant _ _ _ hn stack).trans (.single hopening hopen)⟩

/-- A loose bracket ends with either of the brackets that end the parts of an object. -/
theorem through_partsClose {c : Context Symbol Symbol.Result} {t : Token}
    (h : (Expr.token partsClose : Rule Token).Reads c i t j) (p : Pair) (stack : List OpenPair) :
    Through (c.version.supports .patternMatching) c.tokens i (⟨p, true⟩ :: stack) j stack := by
  obtain ⟨ht, hkind, rfl⟩ := h
  refine .single ht ?_
  simp only [partsClose, List.mem_cons, List.not_mem_nil, or_false] at hkind
  rcases hkind with hkind | hkind
  · simp [hkind, openAfter, Pair.opened?, Pair.closed?, OpenPair.endsWith]
  · simp [hkind, openAfter, Pair.opened?, Pair.closed?, OpenPair.endsWith]

theorem keeps_patternPrimary (hpatterns : version.supports .patternMatching = true) :
    Keeps (nesting tokens version) patternPrimary := by
  -- the parts between the marks open and close pairs of their own only
  have hkeeps : ∀ {α : Type} {e : Rule α}, e.effect? true [] = some [] →
      Keeps (nesting tokens version) e := fun h => keeps_of_effect true h fun _ => hpatterns
  have hconstant : Keeps (nesting tokens version) patternConstant := hkeeps rfl
  have hkeys : Keeps (nesting tokens version) (Expr.sepBy1 (.call Symbol.keyPattern) comma) :=
    hkeeps rfl
  have hitems : Keeps (nesting tokens version) (Expr.sepBy patternItem comma) := hkeeps rfl
  have htrailing : Keeps (nesting tokens version) (Expr.present comma) := hkeeps rfl
  intro i v j h stack
  rcases h with h | h | h | h | h | h | h
  · exact hkeeps rfl _ _ _ h stack
  · exact hkeeps rfl _ _ _ h stack
  · -- an object pattern by keys
    obtain ⟨k₂, _, ⟨k₁, _, hopen, _, hparts, rfl⟩, _, hclose, rfl⟩ := h
    obtain ⟨p, hopen⟩ := through_partsOpen hpatterns hconstant hopen stack
    exact hopen.trans ((hkeys _ _ _ hparts _).trans (through_partsClose hclose p stack))
  · -- an object pattern as a list
    obtain ⟨k₃, _, ⟨k₂, _, ⟨k₁, _, hopen, _, hparts, rfl⟩, _, hcomma, rfl⟩, _, hclose, rfl⟩ := h
    obtain ⟨p, hopen⟩ := through_partsOpen hpatterns hconstant hopen stack
    exact hopen.trans ((hitems _ _ _ hparts _).trans
      ((htrailing _ _ _ hcomma _).trans (through_partsClose hclose p stack)))
  · exact hkeeps rfl _ _ _ h stack
  · exact hkeeps rfl _ _ _ h stack
  · exact hkeeps rfl _ _ _ h stack

theorem keeps_patternAlternatives (hpatterns : version.supports .patternMatching = true) :
    Keeps (nesting tokens version) patternAlternatives := by
  intro i v j h stack
  obtain ⟨k, _, ⟨first, hfirst, rfl⟩, rest, hrest, rfl⟩ := h
  refine (keeps_patternPrimary hpatterns _ _ _ hfirst stack).trans ?_
  clear hfirst first
  induction (show Repeats _ k rest j from hrest) with
  | nil i => exact .refl _ _
  | cons head tail ih =>
      obtain ⟨_, bar, hbar, hpattern⟩ := head.seqRight
      have hbar' : Keeps (nesting tokens version) (Expr.tok .tPIPE) :=
        keeps_of_effect true rfl fun _ => hpatterns
      exact (hbar' _ _ _ hbar stack).trans
        ((keeps_patternPrimary hpatterns _ _ _ hpattern stack).trans (ih tail))

theorem keeps_patternRule (hpatterns : version.supports .patternMatching = true) :
    Keeps (nesting tokens version) patternRule := by
  have hname : Keeps (nesting tokens version) (Expr.tok .tIDENTIFIER) :=
    keeps_of_effect true rfl fun _ => hpatterns
  have harrow : Keeps (nesting tokens version) (Expr.tok .tASSOC) :=
    keeps_of_effect true rfl fun _ => hpatterns
  rintro i v j (⟨k₂, _, hleft, _, hn, rfl⟩ | h) stack
  · obtain ⟨k₁, _, ⟨p, hp, rfl⟩, ha⟩ := hleft.seqLeft
    exact (keeps_patternAlternatives hpatterns _ _ _ hp stack).trans
      ((harrow _ _ _ ha stack).trans (hname _ _ _ hn stack))
  · exact keeps_patternAlternatives hpatterns _ _ _ h stack

/-! ## §6. All rules. -/

/-- **Every rule keeps the stack.** -/
theorem language_nesting (tokens : Array Token) (version : Version) :
    language.Closed (nesting tokens version) := by
  intro s i v j h hpattern stack
  have hkeeps : ∀ {α : Type} {e : Rule α}, e.effect? s.isPattern [] = some [] →
      Keeps (nesting tokens version) e := fun h => keeps_of_effect _ h hpattern
  cases s with
  | operation level =>
      exact hkeeps (effect_climb (by decide) (by decide) rfl (fun _ => rfl) level) _ _ _ h stack
  | expression level =>
      exact hkeeps (effect_climb (by decide) (by decide) rfl (fun _ => rfl) level) _ _ _ h stack
  | pattern => exact keeps_patternRule (hpattern rfl) _ _ _ h stack
  | param ofBlock => cases ofBlock <;> exact hkeeps rfl _ _ _ h stack
  | _ => exact hkeeps rfl _ _ _ h stack

/-- **The delimiters of a program pair up.**  From the left to the right each closing delimiter
ends the innermost one that is open, and nothing is open at the end; they are of one pair, or the
opening one is a bracket right behind a constant, in a version that has patterns, and both are
parentheses or square brackets. -/
theorem delimiters_pair_up {tokens : List Token} {version : Version} {root : Option Node}
    (h : readProgram tokens version = .ok root) :
    pairUp (version.supports .patternMatching) none [] (tokens.map (·.kind)) = some [] := by
  obtain ⟨j, hread⟩ := Rules.reads_of_parse (language_nesting tokens.toArray version) h
  obtain ⟨k, _, hblock, rfl, hend⟩ := hread.seqLeft
  have hkeeps : Keeps (nesting tokens.toArray version) block :=
    keeps_of_effect false rfl fun hfalse => by cases hfalse
  exact (hkeeps _ _ _ hblock []).pairUp hend

/-- The tokens of `x in Foo(a]`. -/
def looseTokens : List Token :=
  [⟨.tIDENTIFIER, "x", ⟨0, 1, 1, 0⟩⟩, ⟨.kIN, "in", ⟨2, 4, 1, 2⟩⟩, ⟨.tCONSTANT, "Foo", ⟨5, 8, 1, 5⟩⟩,
    ⟨.tLPAREN2, "(", ⟨8, 9, 1, 8⟩⟩, ⟨.tIDENTIFIER, "a", ⟨9, 10, 1, 9⟩⟩,
    ⟨.tRBRACK, "]", ⟨10, 11, 1, 10⟩⟩]

/-- They are read, and pair up; a bracket that is not loose would not end so. -/
theorem delimiters_pair_up_loosely : ∃ root, readProgram looseTokens ⟨3, 4⟩ = .ok root ∧
    pairUp true none [] (looseTokens.map (·.kind)) = some [] ∧
      pairUp false none [] (looseTokens.map (·.kind)) = none := by
  have hread : (readProgram looseTokens ⟨3, 4⟩).toOption.isSome = true := by decide +kernel
  cases h : readProgram looseTokens ⟨3, 4⟩ with
  | error i =>
      rw [h] at hread
      cases hread
  | ok root => exact ⟨root, rfl, delimiters_pair_up h, by decide⟩

end RubySyntax.Grammar
