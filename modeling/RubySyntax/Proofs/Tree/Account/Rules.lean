/-
  RubySyntax.Proofs.Tree.Account.Rules
  ────────────────────────────────────
  **THE RULES OF THE GRAMMAR LOSE NOTHING BUT BLOCK ARGUMENTS.**

  Between two positions the tokens have marks.  What an expression gives between the positions
  accounts for them, if the tokens that it reads are neither numbers nor the ampersand of a block
  argument: for these there is one rule each.  `Conserves` is proved along the structure of an
  expression: a sequence needs it of its pieces, a function that is applied has to conserve its
  arguments.

  Main results:
    • `Conserves.seq`, `Conserves.star`, … — expressions conserve if their pieces do,
    • `language_conserves` — what symbols account for is closed under the rules of the language.
-/
import Mathlib.Algebra.BigOperators.Intervals
import RubySyntax.Proofs.Token.Report
import RubySyntax.Proofs.Tree.Account.Build
import RubySyntax.Proofs.Tree.Place.Rules

namespace RubySyntax

open scoped BigOperators

/-! ## §1. The marks between two positions. -/

theorem Token.number_mem_marks {t : Token} {span : Span} :
    .number span ∈ t.marks ↔ t.kind.isNumber = true ∧ t.span = span := by
  unfold Token.marks
  split
  next h => simp [h, eq_comm]
  next h => split <;> simp [h]

theorem Token.Wide.lt {t : Token} {kinds : List Token.Kind} (h : t.Wide) (hkind : t.kind ∈ kinds)
    (hregexp : kinds.contains .tREGEXP_OPT = false) : t.span.start < t.span.stop := by
  rcases h with h | h
  · rw [h] at hkind
    rw [List.contains_iff_mem.mpr hkind] at hregexp
    cases hregexp
  · exact h

theorem Node.Kind.number_mem_marks {kind : Kind} {span span' : Span} :
    .number span ∈ kind.marks span' ↔ kind.isNumber = true ∧ span' = span := by
  unfold Kind.marks
  split
  next h => simp [h, eq_comm]
  next h => split <;> simp [h]

namespace OrderedTokens

variable (ts : OrderedTokens)

/-- The marks of the token at a position. -/
def marksAt (i : Nat) : Multiset Mark := (ts.list[i]?).elim 0 Token.marks

/-- The marks of the tokens between two positions. -/
def marks (i j : Nat) : Multiset Mark := ∑ k ∈ Finset.Ico i j, ts.marksAt k

variable {ts} {i j k : Nat} {t : Token}

theorem marks_add (hij : i ≤ j) (hjk : j ≤ k) : ts.marks i j + ts.marks j k = ts.marks i k :=
  Finset.sum_Ico_consecutive ts.marksAt hij hjk

theorem marks_self (i : Nat) : ts.marks i i = 0 := by
  rw [marks, Finset.Ico_self, Finset.sum_empty]

theorem marks_succ (h : ts.list[i]? = some t) : ts.marks i (i + 1) = t.marks := by
  rw [marks, Nat.Ico_succ_singleton, Finset.sum_singleton, marksAt, h, Option.elim_some]

/-- A token ends before the next ones begin. -/
theorem stop_le_start {t u : Token} (ht : ts.list[i]? = some t) (hu : ts.list[j]? = some u)
    (hij : i < j) : t.span.stop ≤ u.span.start := by
  obtain ⟨hi, rfl⟩ := List.getElem?_eq_some_iff.mp ht
  obtain ⟨hj, rfl⟩ := List.getElem?_eq_some_iff.mp hu
  exact List.pairwise_iff_getElem.mp ts.ordered i j hi hj hij

/-- Tokens that overlap are one. -/
theorem index_eq_of_overlap {t u : Token} (ht : ts.list[i]? = some t) (hu : ts.list[j]? = some u)
    (htu : t.span.start < u.span.stop) (hut : u.span.start < t.span.stop) : i = j := by
  rcases Nat.lt_trichotomy i j with hij | hij | hij
  · have := stop_le_start ht hu hij
    omega
  · exact hij
  · have := stop_le_start hu ht hij
    omega

/-- A value accounts for the tokens between two positions. -/
structure Accounted {α : Type} [Held α] (ts : OrderedTokens) (i : Nat) (a : α) (j : Nat) : Prop where
  le : i ≤ j
  holds : Holds ts.list (ts.marks i j) a

variable {α β : Type}

/-- One value after another. -/
theorem Accounted.pair [Parts α] [Parts β] {a : α} {b : β}
    (ha : ts.Accounted i a k) (hb : ts.Accounted k b j) : ts.Accounted i (a, b) j := by
  obtain ⟨hik, ha⟩ := ha
  obtain ⟨hkj, hb⟩ := hb
  refine ⟨Nat.le_trans hik hkj, ?_, ha.2, hb.2⟩
  rw [← marks_add hik hkj]
  exact ha.1.add hb.1

/-- A value that is built from another one. -/
theorem Accounted.built [Parts α] [Held β] {a : α} {b : β} (ha : ts.Accounted i a j)
    (hb : fit ts.list a → Built ts.list (nodes a) b) : ts.Accounted i b j :=
  ⟨ha.le, Held.of_built (hb ha.holds.2) ha.holds.1⟩

theorem Accounted.cons [Parts α] [Loose α] {a : α} {as : List α} (ha : ts.Accounted i a k)
    (has : ts.Accounted k as j) : ts.Accounted i (a :: as) j :=
  (ha.pair has).built fun hfit => ⟨.refl _,
    Loose.fit_iff.mpr (List.forall_mem_cons.mpr ⟨hfit.1, Loose.fit_iff.mp hfit.2⟩)⟩

theorem Accounted.nil [Parts α] (hfit : fit ts.list ([] : List α)) :
    ts.Accounted i ([] : List α) i := by
  refine ⟨Nat.le_refl _, ?_, hfit⟩
  rw [marks_self]
  exact Node.carries_zero fun _ => Multiset.notMem_zero _

/-- No values follow each other. -/
theorem fit_nil [Parts α] [Loose α] {tokens : List Token} : fit tokens ([] : List α) :=
  Loose.fit_iff.mpr nofun

end OrderedTokens

namespace Grammar

open Token Grammar.Expr OrderedTokens
open Node hiding Kind

/-! ## §2. What symbols account for. -/

/-- The nodes in the value of a symbol. -/
instance Symbol.parts : (s : Symbol) → Parts s.Result
  | .statements | .body => inferInstanceAs (Parts (List Node))
  | .elseBranch => inferInstanceAs (Parts (Option Node))
  | .callArgument => inferInstanceAs (Parts Argument)
  | .primary | .atom => inferInstanceAs (Parts Chain)
  | .suffix => inferInstanceAs (Parts Suffix)
  | .statement | .expression _ | .expressionAtom | .commandCall | .command | .argument | .ternary
  | .range | .operation _ | .operand | .assigned | .literal | .compound | .targetItem | .param _
  | .topPattern | .pattern | .keyPattern => inferInstanceAs (Parts Node)

/-- Readings in which every symbol stands where it was read and accounts for its tokens. -/
def accounting (ts : OrderedTokens) (version : Version) : Context Symbol Symbol.Result :=
  ⟨ts.list.toArray, version, fun s i v j =>
    s.Stands ts.list (ts.reached i) (ts.reached j) v ∧ ts.Accounted i v j⟩

variable {ts : OrderedTokens} {version : Version} {i j : Nat}

/-- What accounts for its tokens stands where it was read. -/
theorem reads_standing {α : Type} {e : Rule α} {v : α}
    (h : e.Reads (accounting ts version) i v j) : e.Reads (standing ts version) i v j := by
  have hgives : ∀ s i v j, (accounting ts version).gives s i v j →
      (standing ts version).gives s i v j := fun _ _ _ _ hgives => hgives.1
  refine h.mono ?_ ?_ hgives <;> rfl

/-- What an expression gives accounts for the tokens that it reads. -/
def Conserves (ts : OrderedTokens) (version : Version) {α : Type} [Held α] (e : Rule α) : Prop :=
  ∀ i v j, e.Reads (accounting ts version) i v j → ts.Accounted i v j

section Expressions

variable {α β : Type}

theorem token_at {kinds : List Kind} {t : Token}
    (h : (Expr.token kinds).Reads (accounting ts version) i t j) :
    ts.list[i]? = some t ∧ t.kind ∈ kinds ∧ j = i + 1 := by
  obtain ⟨ht, hkind, rfl⟩ := h
  rw [accounting, List.getElem?_toArray] at ht
  exact ⟨ht, hkind, rfl⟩

theorem Conserves.token {kinds : List Kind}
    (hkinds : (kinds.all fun k => !k.isNumber) = true) :
    Conserves ts version (.token kinds) := by
  intro i t j h
  obtain ⟨ht, hkind, rfl⟩ := token_at h
  refine ⟨Nat.le_succ i, ?_, trivial⟩
  rw [marks_succ ht]
  refine carries_zero fun span hspan => ?_
  have hnumber := List.all_eq_true.mp hkinds _ hkind
  rw [(Token.number_mem_marks.mp hspan).1] at hnumber
  cases hnumber

theorem Conserves.done [Held α] {value : α} (h : Built ts.list 0 value) :
    Conserves ts version (.done value) := by
  rintro i v j ⟨rfl, rfl⟩
  refine ⟨Nat.le_refl _, ?_⟩
  rw [marks_self]
  exact Held.of_built h (carries_zero fun _ => Multiset.notMem_zero _)

theorem Conserves.seq [Parts α] [Held β] {f : Rule (α → β)} {x : Rule α}
    (hf : Conserves ts version f) (hx : Conserves ts version x) :
    Conserves ts version (.seq f x) := by
  rintro i v j ⟨k, g, hg, a, ha, rfl⟩
  obtain ⟨hik, hg⟩ := hf i g k hg
  obtain ⟨hkj, ha⟩ := hx k a j ha
  refine ⟨Nat.le_trans hik hkj, ?_⟩
  rw [← marks_add hik hkj]
  exact hg _ a ha

theorem Conserves.map [Parts α] [Held β] {f : α → β} {x : Rule α} (hf : Built ts.list 0 f)
    (hx : Conserves ts version x) : Conserves ts version (.map f x) := by
  rintro i v j ⟨a, ha, rfl⟩
  obtain ⟨hij, ha⟩ := hx i a j ha
  have := Held.of_built hf (carries_zero fun _ => Multiset.notMem_zero _) _ a ha
  rw [zero_add] at this
  exact ⟨hij, this⟩

theorem Conserves.check [Parts α] [Held β] {f : Version → α → Option β} {x : Rule α}
    (hf : ∀ a, fit ts.list a → ∀ b ∈ f version a, Built ts.list (nodes a) b)
    (hx : Conserves ts version x) : Conserves ts version (.check f x) := by
  rintro i v j ⟨a, ha, hb⟩
  exact (hx i a j ha).built fun hfit => hf a hfit v hb

theorem Conserves.since [Held α] {v₀ : Version} {x : Rule α} (hx : Conserves ts version x) :
    Conserves ts version (.since v₀ x) :=
  fun i v j h => hx i v j h.1

theorem Conserves.orElse [Held α] {x y : Rule α} (hx : Conserves ts version x)
    (hy : Conserves ts version y) : Conserves ts version (.orElse x y) :=
  fun i v j h => h.elim (hx i v j) (hy i v j)

theorem Conserves.opt [Parts α] {x : Rule α} (hx : Conserves ts version x) :
    Conserves ts version (Expr.opt x) := by
  refine .orElse (.map (fun a ha => ⟨?_, ?_⟩) hx) (.done ⟨.refl _, nofun⟩)
  · rw [zero_add]
    exact .refl _
  · rintro b ⟨⟩
    exact ha

theorem Repeats.accounted [Parts α] [Loose α] {R : Nat → α → Nat → Prop} {as : List α}
    (hR : ∀ i a j, R i a j → ts.Accounted i a j) (h : Repeats R i as j) : ts.Accounted i as j := by
  induction h with
  | nil i => exact .nil fit_nil
  | cons head tail ih => exact (hR _ _ _ head).cons ih

theorem Conserves.star [Parts α] [Loose α] {x : Rule α} (hx : Conserves ts version x) :
    Conserves ts version (.star x) :=
  fun _ _ _ h => Repeats.accounted hx h

/-- What leaves no node may be read behind. -/
theorem Conserves.seqLeft [Held α] [Parts β] [NodeFree β] {x : Rule α} {y : Rule β}
    (hx : Conserves ts version x) (hy : Conserves ts version y) :
    Conserves ts version (x <* y) := by
  intro i a j h
  obtain ⟨k, b, ha, hb⟩ := h.seqLeft
  obtain ⟨hik, ha⟩ := hx i a k ha
  obtain ⟨hkj, hb⟩ := hy k b j hb
  refine ⟨Nat.le_trans hik hkj, ?_⟩
  rw [← marks_add hik hkj]
  refine Held.ignore ha ?_
  rw [← NodeFree.nodes_eq b]
  exact hb.1

/-- What leaves no node may be read before. -/
theorem Conserves.seqRight [Parts α] [Parts β] [NodeFree α] {x : Rule α} {y : Rule β}
    (hx : Conserves ts version x) (hy : Conserves ts version y) :
    Conserves ts version (x *> y) := by
  intro i b j h
  obtain ⟨k, a, ha, hb⟩ := h.seqRight
  obtain ⟨hik, ha⟩ := hx i a k ha
  obtain ⟨hkj, hb⟩ := hy k b j hb
  refine ⟨Nat.le_trans hik hkj, ?_, hb.2⟩
  rw [← marks_add hik hkj, ← zero_add (nodes b), ← NodeFree.nodes_eq a]
  exact ha.1.add hb.1

theorem Conserves.plus [Parts α] [Loose α] {x : Rule α} (hx : Conserves ts version x) :
    Conserves ts version (Expr.plus x) := by
  intro i as j h
  obtain ⟨a, rest, k, rfl, ha, hrest⟩ := h.plus
  exact (hx _ _ _ ha).cons (Repeats.accounted hx hrest)

theorem Conserves.sepBy1 [Parts α] [Loose α] [Parts β] [NodeFree β] {x : Rule α} {sep : Rule β}
    (hx : Conserves ts version x) (hsep : Conserves ts version sep) :
    Conserves ts version (Expr.sepBy1 x sep) := by
  intro i as j h
  obtain ⟨a, rest, k, rfl, ha, hrest⟩ := h.sepBy1
  exact (hx _ _ _ ha).cons (Repeats.accounted (hsep.seqRight hx) hrest)

theorem Conserves.sepBy [Parts α] [Loose α] [Parts β] [NodeFree β] {x : Rule α} {sep : Rule β}
    (hx : Conserves ts version x) (hsep : Conserves ts version sep) :
    Conserves ts version (Expr.sepBy x sep) :=
  .orElse (hx.sepBy1 hsep) (.done ⟨.refl _, fit_nil⟩)

theorem Conserves.present [Parts α] [NodeFree α] {x : Rule α} (hx : Conserves ts version x) :
    Conserves ts version (Expr.present x) :=
  .map (fun a _ => ⟨conserved_of_eq ((zero_add _).trans (NodeFree.nodes_eq a)), trivial⟩) hx.opt

theorem Conserves.call (s : Symbol) : Conserves ts version (.call s) := fun _ _ _ h => h.2

theorem conserves_of_stay {e : Rule Unit}
    (h : ∀ i v j, e.Reads (accounting ts version) i v j → j = i) : Conserves ts version e := by
  intro i v j hv
  cases h i v j hv
  refine ⟨Nat.le_refl _, ?_, trivial⟩
  rw [marks_self]
  exact carries_zero fun _ => Multiset.notMem_zero _

theorem Conserves.next {kinds : List Kind} : Conserves ts version (.next kinds) :=
  conserves_of_stay fun _ _ _ h => h.1

theorem Conserves.notNext {kinds : List Kind} : Conserves ts version (.notNext kinds) :=
  conserves_of_stay fun _ _ _ h => h.1

theorem Conserves.finish : Conserves ts version .finish :=
  conserves_of_stay fun _ _ _ h => h.1

end Expressions

/-! ## §3. What functions build. -/

section Built

variable {tokens : List Token} {before ns : Multiset Node} {n : Node} {kind : Node.Kind}
  {children : List Child} {span : Span}

/-- A node is built from what it accounts for. -/
theorem built (h : Conserved tokens ns (nodes n)) (heq : before = ns) : Built tokens before n :=
  ⟨heq ▸ h, trivial⟩

/-- A node is built from what its slots account for. -/
theorem built_mk (heq : before = nodesIn children)
    (hordinary : (Node.mk kind children span).isOrdinary = true) :
    Built tokens before (Node.mk kind children span) :=
  ⟨.node (conserved_of_eq heq) hordinary, trivial⟩

end Built

/-! ## §4. Shared expressions. -/

theorem term_conserves : Conserves ts version term := .orElse (.token rfl) (.token rfl)

theorem newlines_conserves : Conserves ts version newlines := .star (.token rfl)

theorem terms_conserves : Conserves ts version terms := .plus term_conserves

theorem optTerms_conserves : Conserves ts version optTerms := .star term_conserves

/-- A mark between statements. -/
theorem built_unit {tokens : List Token} {α : Type} [Parts α] [NodeFree α] :
    Built tokens 0 fun _ : α => () :=
  fun _ _ => ⟨conserved_of_eq (by simp), trivial⟩

theorem built_unit₂ {tokens : List Token} {α β : Type} [Parts α] [NodeFree α] [Parts β]
    [NodeFree β] : Built tokens 0 fun (_ : α) (_ : β) => () :=
  fun _ _ _ _ => ⟨conserved_of_eq (by simp), trivial⟩

theorem thenMark_conserves : Conserves ts version thenMark :=
  .orElse (.map built_unit (.token rfl)) (.seq (.map built_unit₂ terms_conserves) (.opt (.token rfl)))

theorem doMark_conserves : Conserves ts version doMark :=
  .orElse (.map built_unit (.token rfl)) (.map built_unit terms_conserves)

theorem commaLine_conserves : Conserves ts version commaLine :=
  .seq (.map built_unit₂ (.token rfl)) newlines_conserves

/-- Two values one after the other. -/
theorem built_pair {tokens : List Token} {α β : Type} [Parts α] [Parts β] :
    Built tokens 0 (Prod.mk : α → β → α × β) :=
  fun _ ha _ hb => ⟨conserved_of_eq (congrArg (· + _) (zero_add _)), ha, hb⟩

/-- Three values one after the other. -/
theorem built_triple {tokens : List Token} {α β γ : Type} [Parts α] [Parts β] [Parts γ] :
    Built tokens 0 fun (a : α) (b : β) (c : γ) => (a, b, c) :=
  fun _ ha _ hb _ hc => ⟨conserved_of_eq (by rw [zero_add, add_assoc]; rfl), ha, hb, hc⟩

theorem block_conserves : Conserves ts version block :=
  .map (fun ns _ => ⟨(conserved_of_eq (zero_add _)).trans (ofStatements?_conserved ns),
    fun _ _ => trivial⟩) (.call .statements)

theorem fullBlock_conserves : Conserves ts version fullBlock :=
  .map (fun ns _ => ⟨(conserved_of_eq (zero_add _)).trans (ofStatements?_conserved ns),
    fun _ _ => trivial⟩) (.call .body)

theorem primaryNode_conserves : Conserves ts version primaryNode :=
  .map (fun _ _ => built (.refl _) (by simp)) (.call .primary)

theorem target_conserves : Conserves ts version (primaryTarget Node.target?) := by
  refine .check (fun c _ t ht => ?_) (.call .primary)
  exact built (target?_conserved c.node t ht).2 (by simp)

theorem splatOrArgument_conserves : Conserves ts version splatOrArgument :=
  .orElse (.seq (.map (fun op _ value _ => built (splat_conserved op (some value)) (by simp)) (.token rfl))
    (.call .argument)) (.call .argument)

theorem splatsOrArguments_conserves : Conserves ts version (sepBy1 splatOrArgument comma) :=
  splatOrArgument_conserves.sepBy1 (.token rfl)

/-! ## §5. Operations. -/

theorem oneLineMatch_conserves {op : Kind} {feature : Version.Feature}
    (hop : op.isNumber = false) : Conserves ts version (oneLineMatch op feature) := by
  refine .since (.check ?_ (.seq (.seq (.map built_triple (.call .argument))
    (.token (by simp [hop]))) (.call .topPattern)))
  rintro ⟨value, op, p⟩ - n ⟨⟩
  exact built (matchPattern_conserved version value op p) (by simp)

theorem commandCall_conserves : Conserves ts version commandCall := .call .commandCall

theorem argument_conserves : Conserves ts version argument := .call .argument

theorem expressionAtomRule_conserves : Conserves ts version expressionAtomRule :=
  .orElse (oneLineMatch_conserves rfl) (.orElse (oneLineMatch_conserves rfl)
    (.orElse commandCall_conserves argument_conserves))

theorem ternaryRule_conserves : Conserves ts version ternaryRule := by
  refine .orElse (.seq (.seqLeft (.seqLeft (.seqLeft (.seq (.seqLeft (.seqLeft (.map ?_
    (.call .range)) (.token rfl)) newlines_conserves) (.call .ternary)) newlines_conserves) (.token rfl))
    newlines_conserves) (.call .ternary)) (.call .range)
  exact fun cond _ yes _ no _ => built (ternary_conserved cond yes no) (by simp)

theorem operation_conserves : Conserves ts version operation := .call (.operation 0)

theorem rangeRule_conserves : Conserves ts version rangeRule := by
  refine .orElse (.seq (.seq (.map ?_ operation_conserves) (.token rfl)) operation_conserves)
    (.orElse (.since (.seq (.map ?_ operation_conserves) (.token rfl)))
      (.orElse (.since (.seq (.map ?_ (.token rfl)) operation_conserves)) operation_conserves))
  · exact fun lhs _ op _ rhs _ => built (range_conserved (some lhs) op (some rhs)) (by simp)
  · exact fun lhs _ op _ => built (range_conserved (some lhs) op none) (by simp)
  · exact fun op _ rhs _ => built (range_conserved none op (some rhs)) (by simp)

theorem argumentRule_conserves : Conserves ts version argumentRule := by
  refine .orElse (.seq (.seqLeft (.map ?_ (.token rfl)) .notNext) argument_conserves) (.call .ternary)
  exact fun kw _ value _ => built_mk (by simp) rfl

theorem assignedRule_conserves : Conserves ts version assignedRule := by
  refine .seq (.map (fun value _ fallback _ => ?_)
    (.orElse commandCall_conserves argument_conserves))
    (.opt (.seq (.map built_pair (.token rfl)) argument_conserves))
  rcases fallback with - | ⟨kw, fallback⟩
  · exact built (.refl _) (by simp)
  · exact built (rescueModifier_conserved value kw fallback) (by simp)

theorem operandRule_conserves : Conserves ts version operandRule := by
  refine .orElse (.check ?_ (.seq (.seqLeft (.map built_pair (.call .primary)) (.token rfl))
      (.call .assigned)))
    (.orElse (.check ?_ (.seq (.seq (.map built_triple (.call .primary)) (.token rfl)) (.call .assigned)))
      primaryNode_conserves)
  · rintro ⟨target, value⟩ - n hn
    exact built (assign?_conserved target.node value n hn) (by simp)
  · rintro ⟨target, op, value⟩ - n hn
    exact built (operatorAssign?_conserved target.node op value n hn) (by simp)

theorem operator_accounted {kinds : List Kind} (h : (kinds.all fun k => !k.isNumber) = true)
    {op : Token} (hop : (accounting ts version).tokens[i]? = some op) (hkind : op.kind ∈ kinds) :
    ts.Accounted i op (i + 1) := by
  have hconserves : Conserves ts version (.token kinds) := .token h
  exact hconserves i op (i + 1) ⟨hop, hkind, rfl⟩

theorem operationRule_conserves (level : Nat) : Conserves ts version (operationRule level) := by
  have hunary : ∀ u ∈ unaryLevels, (u.kinds.all fun k => !k.isNumber) = true := by decide
  have hbinary : ∀ b ∈ binaryLevels, (b.kinds.all fun k => !k.isNumber) = true := by decide
  refine fun i n j h => climb_reads (P := fun i n j => ts.Accounted i n j) ?_ ?_ ?_ ?_ h
  · intro u hu i op x j hop hkind hx
    exact ((operator_accounted (hunary u hu) hop hkind).pair hx).built fun _ =>
      built_mk (by simp) rfl
  · intro b hb i x k op y j hx hop hkind hy
    refine (hx.pair ((operator_accounted (hbinary b hb) hop hkind).pair hy)).built fun _ => ?_
    simp only [binaryLevels, List.mem_cons, List.not_mem_nil, or_false] at hb
    rcases hb with rfl | rfl | hb
    · exact built (joined_conserved x y rfl) (by simp)
    · exact built (joined_conserved x y rfl) (by simp)
    · have hcombine : b.combine = Node.binary := by
        rcases hb with rfl | rfl | rfl | rfl | rfl | rfl | rfl | rfl <;> rfl
      rw [hcombine]
      exact built (binary_conserved x op y) (by simp)
  · exact fun i n j h => h.2
  · exact fun l i n j h => h.2

theorem expressionRule_conserves (level : Nat) : Conserves ts version (expressionRule level) := by
  have hunary : ∀ u ∈ negationLevels, (u.kinds.all fun k => !k.isNumber) = true := by decide
  refine fun i n j h => climb_reads (P := fun i n j => ts.Accounted i n j) ?_ ?_ ?_ ?_ h
  · intro u hu i op x j hop hkind hx
    exact ((operator_accounted (hunary u hu) hop hkind).pair hx).built fun _ =>
      built_mk (by simp) rfl
  · intro b hb i x k op y j hx hop hkind hy
    cases List.mem_singleton.mp hb
    refine (hx.pair ((operator_accounted rfl hop hkind).pair hy)).built fun _ => ?_
    refine built (joined_conserved x y ?_) (by simp)
    split <;> rfl
  · exact fun i n j h => h.2
  · exact fun l i n j h => h.2

/-! ## §6. Tokens with a mark. -/

/-- A number leaves its mark. -/
theorem number_conserves {kind : Kind} (hkind : kind.isNumber = true) {f : Token → Node}
    (hf : ∀ t, ∃ kind' children, f t = .mk kind' children t.span ∧ kind'.isNumber = true ∧
      nodesIn children = 0) :
    Conserves ts version (f <$> tok kind) := by
  rintro i n j ⟨t, ht, rfl⟩
  obtain ⟨hat, hkind', rfl⟩ := token_at ht
  obtain rfl := List.mem_singleton.mp hkind'
  obtain ⟨kind', children, hn, hkind', hchildren⟩ := hf t
  refine ⟨Nat.le_succ i, ?_, trivial⟩
  have hsound : (Node.mk kind' children t.span).Sound ts.list := by
    apply sound_of_not_bare <;> cases kind' <;> first | rfl | cases hkind'
  have h : Carries ts.list 0 (nodesIn children) := by
    rw [hchildren]
    exact carries_zero fun _ => Multiset.notMem_zero _
  have := h.mark hsound
  rw [add_zero, Kind.marks, hkind', if_pos rfl] at this
  rw [marks_succ hat, Token.marks, hkind, if_pos rfl, hn]
  exact this

/-- The ampersand that a block argument or a block parameter begins with leaves its mark. -/
theorem ampersand_carries {op : Token} (hop : op.kind = .tAMPER ∨ op.kind = .tAMPER2)
    {kind : Node.Kind} {children : List Child} {span : Span} {x : Multiset Mark}
    (hkind : kind.isBlockArgument = true) (hspan : span.start = op.span.start)
    (h : Carries ts.list x (nodesIn children)) :
    Carries ts.list (op.marks + x) {Node.mk kind children span} := by
  have hsound : (Node.mk kind children span).Sound ts.list := by
    apply sound_of_not_bare <;> cases kind <;> first | rfl | cases hkind
  have hmarks : op.marks = kind.marks span := by
    have hnumber : op.kind.isNumber = false := by rcases hop with h | h <;> rw [h] <;> rfl
    have hnumber' : kind.isNumber = false := by cases kind <;> first | rfl | cases hkind
    rw [Token.marks, hnumber, if_neg Bool.false_ne_true, if_pos hop, Kind.marks, hnumber',
      if_neg Bool.false_ne_true, if_pos hkind, hspan]
  rw [hmarks]
  exact h.mark hsound

/-! ## §7. Parameters and blocks. -/

theorem defaultValue_conserves (ofBlock : Bool) :
    Conserves ts version (defaultValue ofBlock) := by
  refine .orElse (.check (fun value _ n hn => ?_) argument_conserves) primaryNode_conserves
  split at hn <;> cases hn
  exact built (.refl _) rfl

theorem optName_conserves : Conserves ts version optName := .opt (.token rfl)

/-- A parameter for a block leaves the mark of its ampersand. -/
theorem blockParam_conserves : Conserves ts version
    ((fun op name => Node.param .blockarg op name none) <$> Expr.token ampersands <*> optName) := by
  rintro i n j ⟨k, g, ⟨op, hop, rfl⟩, name, hname, rfl⟩
  obtain ⟨hat, hkind, rfl⟩ := token_at hop
  obtain ⟨hle, hname', -⟩ := optName_conserves _ _ _ hname
  refine ⟨by omega, ?_, trivial⟩
  rw [← marks_add (Nat.le_succ i) hle, marks_succ hat]
  have hslots : nodesIn ((name.toList.map fun t => Child.symbol t.value) ++
      slots (none : Option Node).toList) = nodes name := by
    cases name <;> rfl
  refine ampersand_carries (by simpa [ampersands] using hkind) rfl ?_ (hslots ▸ hname')
  -- the name stands behind the ampersand
  rcases hname.opt with ⟨rfl, -⟩ | ⟨t, rfl, ht⟩
  · rfl
  · obtain ⟨ht, -, -⟩ := token_at ht
    have hop := OrderedTokens.stands hat
    have ht := OrderedTokens.stands ht
    have hstart := Span.join_start op.span t.span
    have := hop.le
    have := hop.le_hi
    have := ht.lo_le
    exact hstart.trans (by omega)

theorem paramRule_conserves (ofBlock : Bool) : Conserves ts version (paramRule ofBlock) := by
  refine .orElse (.since (.map ?_ (.token rfl))) <|
    .orElse (.seq (.map ?_ (.token rfl)) (defaultValue_conserves ofBlock)) <|
    .orElse (.map ?_ (.token rfl)) <|
    .orElse (.seq (.map ?_ (.token rfl)) (.token rfl)) <|
    .orElse (.seq (.map ?_ (.token rfl)) optName_conserves) <|
    .orElse (.seq (.map ?_ (.token rfl)) optName_conserves) <|
    .orElse blockParam_conserves <|
    .orElse (.seq (.seqLeft (.map ?_ (.token rfl)) (.token rfl)) (defaultValue_conserves ofBlock)) <|
    .orElse (.map ?_ (.token rfl)) <|
    .seq (.seq (.map ?_ (.token rfl)) (.sepBy1 (.call _) (.token rfl))) (.token rfl)
  · -- `...`
    exact fun dots _ => built_mk (by simp) rfl
  · -- `name: value`
    exact fun label _ value _ =>
      built (param_conserved label (some label) (some value) rfl) (by simp)
  · -- `name:`
    exact fun label _ => built (param_conserved label (some label) none rfl) (by simp)
  · -- `**nil`
    exact fun star _ nil_ _ => built_mk (by simp) rfl
  · -- `**name`, `**`
    exact fun op _ name _ => built (param_conserved op name none rfl) (by simp)
  · -- `*name`, `*`
    exact fun op _ name _ => built (param_conserved op name none rfl) (by simp)
  · -- `name = value`
    exact fun name _ value _ => built (param_conserved name (some name) (some value) rfl) (by simp)
  · -- `name`
    exact fun name _ => built (param_conserved name (some name) none rfl) (by simp)
  · -- `(a, b)`, which is taken apart
    exact fun opening _ items _ closing _ => built_mk (by simp) rfl

theorem parenParams_conserves : Conserves ts version parenParams :=
  .seq (.seq (.map (fun _ _ _ _ _ _ => built_mk (by simp) rfl) (.token rfl))
    (.sepBy (.call _) (.token rfl))) (.token rfl)

theorem methodParams_conserves : Conserves ts version methodParams :=
  .orElse parenParams_conserves
    (.map (fun _ _ => built_mk (by simp) rfl) (.sepBy1 (.call _) (.token rfl)))

theorem ownNames_conserves : Conserves ts version ownNames := by
  refine .seqRight (.token rfl) (.sepBy1 (.map (fun n _ => ?_) (.token rfl)) (.token rfl))
  exact built (param_conserved n (some n) none rfl) (by simp)

theorem blockParams_conserves : Conserves ts version blockParams := by
  refine .orElse (.map ?_ (.token rfl)) <|
    .seq (.seq (.seq (.seq (.map ?_ (.token rfl)) (.sepBy (.call _) (.token rfl)))
      (.present (.token rfl))) (.opt ownNames_conserves)) (.token rfl)
  · exact fun bars _ => built (blockParams_conserved bars [] false [] bars) (by simp)
  · intro opening _ params _ trailing _ own _ closing _
    refine built (blockParams_conserved opening params trailing (own.getD []) closing) ?_
    cases own <;> simp

theorem built_parts {tokens : List Token} :
    Built tokens 0 Node.BlockParts.mk :=
  fun opening _ params _ body _ closing _ => ⟨conserved_of_eq (by simp [nodes_parts]), trivial⟩

theorem braceBlock_conserves : Conserves ts version braceBlock :=
  .seq (.seq (.seq (.map built_parts (.token rfl)) (.opt blockParams_conserves)) block_conserves)
    (.token rfl)

theorem doBlock_conserves : Conserves ts version doBlock :=
  .seq (.seq (.seq (.map built_parts (.token rfl)) (.opt blockParams_conserves))
    fullBlock_conserves) (.token rfl)

theorem lambdaBody_conserves : Conserves ts version lambdaBody := by
  refine .orElse (.seq (.seq (.map ?_ (.token rfl)) block_conserves) (.token rfl))
    (.seq (.seq (.map ?_ (.token rfl)) fullBlock_conserves) (.token rfl))
  · exact fun opening _ body _ closing _ => ⟨conserved_of_eq (by simp [nodes_parts]), trivial⟩
  · exact fun opening _ body _ closing _ => ⟨conserved_of_eq (by simp [nodes_parts]), trivial⟩

/-- The parameters of a lambda are not in its body. -/
theorem lambdaBody_params {c : Context Symbol Symbol.Result} :
    lambdaBody.Yields c i fun body _ => body.params = none :=
  ⟨fun _ _ _ _ _ _ _ _ _ => rfl, fun _ _ _ _ _ _ _ _ _ => rfl⟩

theorem lambda_conserves : Conserves ts version lambda := by
  rintro i n j ⟨⟨arrow, params, body⟩, h, hn⟩
  cases hn
  have hconserves : Conserves ts version ((fun arrow params body => (arrow, params, body)) <$>
      tok .tLAMBDA <*> opt methodParams <*> lambdaBody) :=
    .seq (.seq (.map built_triple (.token rfl)) (.opt methodParams_conserves)) lambdaBody_conserves
  have hbody : body.params = none := by
    obtain ⟨_, _, ⟨_, _, ⟨_, -, rfl⟩, _, -, rfl⟩, _, hbody, heq⟩ := h
    cases heq
    exact lambdaBody_params.reads hbody
  exact (hconserves i _ j h).built fun _ =>
    built (lambda_conserved version arrow params body hbody) (by simp)

/-! ## §8. Arguments and commands. -/

/-- An argument that is no block. -/
theorem built_argument {tokens : List Token} {before ns : Multiset Node} {a : Argument}
    (h : Conserved tokens ns (nodes a.node)) (heq : before = ns)
    (hblock : a.blockPass? = none) : Built tokens before a := by
  refine ⟨heq ▸ h, fun n hn => ?_⟩
  rw [hblock] at hn
  cases hn

/-- A number in a placed node is within its span. -/
theorem number_within {n : Node} (h : Everywhere (Placed ts.list) n) {span : Span}
    (hspan : .number span ∈ n.marks) : n.span.Contains span := by
  induction h with
  | @mk kind children span' here below ih =>
      rw [marks_mk, Multiset.mem_add] at hspan
      rcases hspan with hspan | hspan
      · obtain ⟨-, rfl⟩ := Kind.number_mem_marks.mp hspan
        exact .refl _
      · obtain ⟨marks, hmarks, hspan⟩ := Multiset.mem_join.mp hspan
        obtain ⟨m, hm, rfl⟩ := Multiset.mem_map.mp hmarks
        have hm := mem_nodesIn.mp hm
        exact (here.contains m hm).trans (ih m hm hspan)

/-- A block argument leaves the mark of its ampersand. -/
theorem blockPass_accounted {op : Token} {value : Option Node}
    (hop : ts.list[i]? = some op) (hkind : op.kind = .tAMPER)
    (hvalue : ts.Accounted (i + 1) value j)
    (hstands : ∀ n ∈ value, ts.Frames (i + 1) n j) :
    ts.Accounted i (Argument.blockPass (Node.blockPass op value)) j := by
  obtain ⟨hle, hvalue, -⟩ := hvalue
  have hstart : (joinOption op.span value).start = op.span.start := by
    cases value with
    | none => rfl
    | some n =>
        have hop := OrderedTokens.stands hop
        have := hop.le
        have := hop.le_hi
        have := (hstands n rfl).span.lo_le
        exact (Span.join_start op.span n.span).trans (by omega)
  have hmarks : (Node.blockPass op value).marks =
      {.ampersand op.span.start} + marksOf (nodes value) := by
    rw [Node.blockPass, marks_mk, ← hstart]
    simp [Node.Kind.marks, Node.Kind.isNumber, Node.Kind.isBlockArgument]
  refine ⟨by omega, ?_, forall_mem_some ⟨?_, ?_, fun span hspan => ?_⟩⟩
  · rw [← marks_add (Nat.le_succ i) hle, marks_succ hop]
    refine ampersand_carries (.inl hkind) rfl hstart ?_
    simpa using hvalue
  · exact ⟨op, List.mem_of_getElem? hop, hkind, hstart.symm⟩
  · rw [hmarks, ← hstart]
    exact Multiset.mem_add.mpr (.inl (Multiset.mem_singleton_self _))
  · -- a number in the block is in its value
    rw [hmarks] at hspan
    cases value with
    | none => simp at hspan
    | some n =>
        refine Span.Contains.trans (Span.join_contains_right op.span n.span) ?_
        exact number_within (hstands n rfl).placed (by simpa [nodes_node] using hspan)

theorem callArgumentRule_conserves : Conserves ts version callArgumentRule := by
  refine .orElse (.since (.seqLeft (.map ?_ (.token rfl)) .next)) <|
    .orElse ?_ <|
    .orElse (.since ?_) <|
    .orElse (.seq (.map ?_ (.token rfl)) argument_conserves) <|
    .orElse (.since (.map ?_ (.token rfl))) <|
    .orElse (.seq (.map ?_ (.token rfl)) argument_conserves) <|
    .orElse (.since (.map ?_ (.token rfl))) <|
    .orElse (.seq (.seqLeft (.map ?_ (.token rfl)) newlines_conserves) argument_conserves) <|
    .orElse (.since (.map ?_ (.token rfl))) <|
    .orElse (.seq (.seqLeft (.map ?_ argument_conserves) (.token rfl)) argument_conserves) <|
    .orElse (.map ?_ (.call .command)) (.map ?_ argument_conserves)
  · -- `...`
    exact fun dots _ => built_argument (leaf_conserved rfl rfl) (by simp) rfl
  · -- `&block`
    rintro i a j ⟨k, g, ⟨op, hop, rfl⟩, value, hvalue, rfl⟩
    obtain ⟨hat, hkind, rfl⟩ := token_at hop
    obtain ⟨hstands, hle, hvalue⟩ := hvalue
    exact blockPass_accounted hat (List.mem_singleton.mp hkind) ⟨hle, hvalue.1, fun _ _ => trivial⟩
      (forall_mem_some hstands)
  · -- `&`
    rintro i a j ⟨op, hop, rfl⟩
    obtain ⟨hat, hkind, rfl⟩ := token_at hop
    refine blockPass_accounted hat (List.mem_singleton.mp hkind) ⟨Nat.le_refl _, ?_, nofun⟩ nofun
    rw [marks_self]
    exact carries_zero fun _ => Multiset.notMem_zero _
  · -- `**options`
    exact fun op _ value _ => built_argument (doubleSplat_conserved op value) (by simp) rfl
  · -- `**`
    exact fun op _ => built_argument (leaf_conserved rfl rfl) (by simp) rfl
  · -- `*values`
    exact fun op _ value _ => built_argument (splat_conserved op (some value)) (by simp) rfl
  · -- `*`
    exact fun op _ => built_argument (leaf_conserved rfl rfl) (by simp) rfl
  · -- `key: value`
    exact fun label _ value _ => built_argument (labelled_conserved label value) (by simp) rfl
  · -- `key:`
    exact fun label _ => built_argument (labelAlone_conserved label) (by simp) rfl
  · -- `key => value`
    exact fun key _ value _ => built_argument (pair_conserved key value) (by simp) rfl
  · -- a command
    exact fun n _ => built_argument (.refl _) (by simp [Argument.node]) rfl
  · -- a value
    exact fun n _ => built_argument (.refl _) (by simp [Argument.node]) rfl

/-- A block argument may get lost if another one is read behind it. -/
theorem losable_of_passed {n m : Node} (hn : n.IsPassed ts.list) (hm : m.IsPassed ts.list)
    (h : n.span.stop ≤ m.span.start) : Losable ts.list n.marks := by
  intro span hspan
  obtain ⟨hstart, hstop⟩ := hn.contains span hspan
  exact ⟨n.span.start, m.span.start, ⟨hn.marked, hstart, hn.mem_marks⟩, hm.marked,
    Nat.le_trans hstop h⟩

/-- An argument that stands where it was read and accounts for its tokens. -/
structure ReadArgument (ts : OrderedTokens) (i : Nat) (a : Argument) (j : Nat) : Prop where
  accounted : ts.Accounted i a j
  stands : ts.Frames i a.node j

/-- Arguments that account for their tokens and stand behind a position. -/
structure ReadArguments (ts : OrderedTokens) (i : Nat) (items : List Argument) (j : Nat) : Prop where
  accounted : ts.Accounted i items j
  fit : ∀ a ∈ items, fit ts.list a
  behind : ∀ a ∈ items, ts.reached i ≤ a.node.span.start

theorem ReadArguments.cons {k : Nat} {a : Argument} {items : List Argument}
    (ha : ReadArgument ts i a k) (hitems : ReadArguments ts k items j) :
    ReadArguments ts i (a :: items) j := by
  obtain ⟨ha, hstands⟩ := ha
  obtain ⟨haccounted, hfit, hbehind⟩ := hitems
  refine ⟨(ha.pair haccounted).built fun hrow => ⟨.refl _, ?_⟩,
    List.forall_mem_cons.mpr ⟨ha.holds.2, hfit⟩,
    List.forall_mem_cons.mpr ⟨hstands.span.lo_le, fun b hb => ?_⟩⟩
  · refine List.pairwise_cons.mpr ⟨fun b hb n hn m hm => ?_, hrow.2⟩
    refine losable_of_passed (ha.holds.2 n hn) (hfit b hb m hm) ?_
    have hstop := hstands.span.le_hi
    have hstart := hbehind b hb
    rw [Argument.node_of_blockPass? hn] at hstop
    rw [Argument.node_of_blockPass? hm] at hstart
    exact Nat.le_trans hstop hstart
  · exact Nat.le_trans hstands.bounds (hbehind b hb)

theorem readArguments_of_repeats {R : Nat → Argument → Nat → Prop} {items : List Argument}
    (hR : ∀ i a j, R i a j → ReadArgument ts i a j) (h : Repeats R i items j) :
    ReadArguments ts i items j := by
  induction h with
  | nil i => exact ⟨.nil .nil, nofun, nofun⟩
  | cons head tail ih => exact .cons (hR _ _ _ head) ih

theorem commandArguments_conserves : Conserves ts version commandArguments := by
  intro i items j h
  obtain ⟨a, rest, k, rfl, ⟨hstands, ha⟩, hrest⟩ := h.sepBy1
  refine (ReadArguments.cons ⟨ha, hstands⟩ (readArguments_of_repeats ?_ hrest)).accounted
  -- a comma stands before each of the others
  intro i a j h
  obtain ⟨k, _, hcomma, hstands, ha⟩ := h.seqRight
  have haccounted : Conserves ts version (comma *> .call Symbol.callArgument) :=
    .seqRight (.token rfl) (.call .callArgument)
  exact ⟨haccounted i a j h, hstands.mono ⟨(token_stands (reads_standing hcomma)).bounds, Nat.le_refl _⟩⟩

theorem argumentList_conserves : Conserves ts version argumentList :=
  .seqLeft (.orElse commandArguments_conserves (.done ⟨.refl _, .nil⟩)) (.opt (.token rfl))

theorem parenArguments_conserves : Conserves ts version parenArguments :=
  .seq (.map built_pair (.seqRight (.token rfl) argumentList_conserves)) (.token rfl)

theorem commandRule_conserves : Conserves ts version commandRule := by
  refine .orElse (.seq (.map ?_ (.token rfl)) commandArguments_conserves) ?_
  · exact fun kw _ items hitems => built (jump_conserved kw hitems) (by simp)
  · have hopen : Conserves ts version
        (filterMap (fun c => if c.isOpen then some c else none) primary) := by
      refine .check (fun c _ c' hc' => ?_) (.call .primary)
      split at hc' <;> cases hc'
      exact ⟨.refl _, trivial⟩
    rintro i n j ⟨⟨c, items⟩, h, hn⟩
    have hne : items ≠ [] := by
      obtain ⟨_, _, ⟨_, -, rfl⟩, _, hitems, heq⟩ := h
      cases heq
      obtain ⟨item, rest, _, rfl, -⟩ := hitems.sepBy1
      exact List.cons_ne_nil item rest
    have hconserves : Conserves ts version (Prod.mk <$>
        filterMap (fun c => if c.isOpen then some c else none) primary <*> commandArguments) :=
      .seq (.map built_pair hopen) commandArguments_conserves
    exact (hconserves i _ j h).built fun hfit =>
      built (command?_conserved hfit.2 hne n hn) (by simp)

theorem commandCallRule_conserves : Conserves ts version commandCallRule := by
  refine .orElse (.check ?_ (.seq (.map built_pair (.call .command)) (.opt doBlock_conserves)))
    (.check ?_ (.seq (.map built_pair argument_conserves) doBlock_conserves))
  · rintro ⟨c, - | parts⟩ - n hn
    · cases hn
      exact built (.refl _) (by simp)
    · exact built (attachBlock?_conserved version c parts n hn) (by simp)
  · rintro ⟨a, parts⟩ - n hn
    exact built (attachBlock?_conserved version a parts n hn) (by simp)

/-! ## §9. Primary expressions. -/

theorem suffixRule_conserves : Conserves ts version suffixRule := by
  refine .orElse (.seq (.seq (.map ?_ (.token rfl)) (.token rfl)) (.opt parenArguments_conserves)) <|
    .orElse (.seq (.map ?_ (.token rfl)) parenArguments_conserves) <|
    .orElse (.seqLeft (.map ?_ (.seqRight (.token rfl) (.token rfl))) .notNext) <|
    .orElse (.seq (.seq (.map ?_ (.token rfl)) (.token rfl)) (.opt parenArguments_conserves)) <|
    .orElse (.seq (.map ?_ (.seqRight (.token rfl) argumentList_conserves)) (.token rfl))
      (.map ?_ braceBlock_conserves)
  · exact fun dot _ name _ args hargs => ⟨conserved_of_eq (by simp), hargs⟩
  · exact fun dot _ args hargs => ⟨conserved_of_eq (by simp), hargs⟩
  · exact fun name _ => ⟨conserved_of_eq (by simp), trivial⟩
  · exact fun dot _ name _ args hargs => ⟨conserved_of_eq (by simp), hargs⟩
  · exact fun args hargs closing _ => ⟨conserved_of_eq (by simp), hargs⟩
  · exact fun parts _ => ⟨conserved_of_eq (by simp), trivial⟩

theorem primaryRule_conserves : Conserves ts version primaryRule := by
  refine .check ?_ (.seq (.map built_pair (.call .atom)) (.star (.call .suffix)))
  rintro ⟨first, ops⟩ ⟨-, hops⟩ c hc
  exact ⟨applySuffixes?_conserved version hops c hc, trivial⟩

/-- A primary expression is built from what its node accounts for. -/
theorem built_chain {tokens : List Token} {before ns : Multiset Node} {c : Chain}
    (h : Conserved tokens ns (nodes c.node)) (heq : before = ns) : Built tokens before c :=
  ⟨heq ▸ h, trivial⟩

/-- A call with parentheses covers more than any name. -/
theorem functionCall_conserves (hwide : ∀ t ∈ ts.list, t.Wide) {kinds : List Kind}
    (hkinds : (kinds.all fun k => !k.isNumber) = true)
    (hregexp : kinds.contains .tREGEXP_OPT = false) :
    Conserves ts version ((fun name (items, closing) =>
      Node.Chain.closed (Node.functionCall name items closing)) <$> Expr.token kinds
        <*> parenArguments) := by
  rintro i c j ⟨k, g, ⟨name, hname, rfl⟩, ⟨items, closing⟩, hargs, rfl⟩
  have haccounted := (Conserves.token hkinds i name k hname).pair
    (parenArguments_conserves _ _ _ hargs)
  refine haccounted.built fun hfit => ⟨?_, trivial⟩
  -- the name and the closing parenthesis are two tokens in the span of the call
  obtain ⟨hat, hkind, rfl⟩ := token_at hname
  obtain ⟨l, _, ⟨_, hitems, rfl⟩, _, hclosing, heq⟩ := hargs
  cases heq
  have hle : i + 1 ≤ l :=
    (Conserves.seqRight (.token rfl) argumentList_conserves _ _ _ hitems).le
  obtain ⟨hat', hkind', -⟩ := token_at hclosing
  have hnamewide := (hwide name (List.mem_of_getElem? hat)).lt hkind hregexp
  have hclosingwide := (hwide closing (List.mem_of_getElem? hat')).lt hkind' rfl
  have hcontains := Span.join_contains_left (joinAll name.span (arguments items)) closing.span
  have hcontains' := Span.join_contains_right (joinAll name.span (arguments items)) closing.span
  replace hcontains := hcontains.trans (joinAll_contains_self name.span (arguments items))
  have hsound : (functionCall name items closing).Sound ts.list := by
    refine ⟨?_, rfl⟩
    rintro ⟨-, t, ht, -, hspan⟩
    obtain ⟨m, hm⟩ := List.getElem?_of_mem ht
    obtain ⟨hstart, hstop⟩ := hcontains
    obtain ⟨hstart', hstop'⟩ := hcontains'
    replace hspan : t.span = (joinAll name.span (arguments items)).join closing.span := hspan
    rw [← hspan] at hstart hstop hstart' hstop'
    have h := index_eq_of_overlap hm hat (by omega) (by omega)
    have h' := index_eq_of_overlap hm hat' (by omega) (by omega)
    omega
  exact (conserved_of_eq (by simp)).trans (functionCall_conserved hfit.2.1 hsound)

/-- A name with a mark at its end is no plain one. -/
theorem nameCall_conserves (hwide : ∀ t ∈ ts.list, t.Wide) :
    Conserves ts version ((fun x => Node.Chain.opened (Node.nameCall x)) <$> tok .tFID) := by
  rintro i c j ⟨t, ht, rfl⟩
  refine (Conserves.token rfl i t j ht).built fun _ => ⟨?_, trivial⟩
  obtain ⟨hat, hkind, rfl⟩ := token_at ht
  have hlt := (hwide t (List.mem_of_getElem? hat)).lt hkind rfl
  have hsound : (nameCall t).Sound ts.list := by
    refine ⟨?_, rfl⟩
    rintro ⟨-, u, hu, hname, hspan⟩
    obtain ⟨m, hm⟩ := List.getElem?_of_mem hu
    replace hspan : u.span = t.span := hspan
    obtain rfl := index_eq_of_overlap hm hat (by rw [hspan]; exact hlt) (by rw [hspan]; exact hlt)
    rw [hm] at hat
    cases hat
    rw [List.mem_singleton.mp hkind] at hname
    cases hname
  exact (conserved_of_eq (by simp)).trans (nameCall_conserved hsound)

theorem atomRule_conserves (hwide : ∀ t ∈ ts.list, t.Wide) : Conserves ts version atomRule := by
  refine .orElse (.map ?_ (.call .literal)) <|
    .orElse (.map ?_ (.call .compound)) <|
    .orElse (.seq (.seqLeft (.seq (.seqLeft (.seqLeft (.map ?_ (.token rfl)) (.token rfl))
      newlines_conserves) (.call (.expression 0))) newlines_conserves) (.token rfl)) <|
    .orElse (.seq (.map ?_ (.token rfl)) (.opt parenArguments_conserves)) <|
    .orElse (.seq (.map ?_ (.token rfl)) (.opt parenArguments_conserves)) <|
    .orElse (.map ?_ (.token rfl)) <|
    .orElse (.seq (.map ?_ (.token rfl)) (.token rfl)) <|
    .orElse (functionCall_conserves hwide rfl rfl) <|
    .orElse (.map ?_ (.token rfl)) <|
    .orElse (nameCall_conserves hwide) <|
    .orElse (.map ?_ (.token rfl)) <|
    .orElse (.map ?_ (.token rfl)) (.map ?_ lambda_conserves)
  · -- a literal
    exact fun n _ => built_chain (.refl _) (by simp)
  · -- a construct with an end of its own
    exact fun n _ => built_chain (.refl _) (by simp)
  · -- `defined?(x)`
    exact fun kw _ value _ closing _ =>
      built_chain (defined_conserved kw value (some closing)) (by simp)
  · -- `super`
    rintro kw - (- | ⟨items, closing⟩) hargs
    · exact built_chain (leaf_conserved rfl rfl) (by simp)
    · exact built_chain (superCall_conserved kw (hargs _ rfl).1 closing) (by simp)
  · -- `yield`
    rintro kw - (- | ⟨items, closing⟩) hargs
    · exact built_chain (leaf_conserved rfl rfl) (by simp)
    · exact built_chain (yieldCall_conserved kw (hargs _ rfl).1 closing) (by simp)
  · -- a jump that carries nothing
    intro kw _
    have hnone : fit ts.list ([] : List Argument) := .nil
    exact built_chain (jump_conserved kw hnone) (by simp)
  · -- `::Name`
    exact fun colons _ name _ => built_chain (topConstant_conserved colons name) (by simp)
  · -- `name`
    exact fun t _ => built_chain (identifier_conserved t) (by simp)
  · -- `Name`
    exact fun t _ => built_chain (constant_conserved none t) (by simp)
  · -- `@name`, `$name`
    exact fun t _ => built_chain (markedVariable_conserved t) (by simp)
  · -- `->`
    exact fun n _ => built_chain (.refl _) (by simp)

/-! ## §10. Literals. -/

theorem statements_conserves : Conserves ts version statements := .call .statements

theorem stringPart_conserves : Conserves ts version stringPart := by
  refine .orElse (.map ?_ (.token rfl))
    (.seq (.seq (.map ?_ (.token rfl)) statements_conserves) (.token rfl))
  · exact fun t _ => ⟨conserved_of_eq (by simp), trivial⟩
  · exact fun opening _ body _ closing _ => ⟨conserved_of_eq (by simp), trivial⟩

theorem stringParts_conserves : Conserves ts version (.star stringPart) := stringPart_conserves.star

theorem stringLiteral_conserves : Conserves ts version stringLiteral := by
  refine .orElse (.seq (.seq (.map ?_ (.token rfl)) stringParts_conserves) (.token rfl))
    (.map ?_ (.token rfl))
  · exact fun opening _ parts _ closing _ => built (string_conserved opening parts closing) (by simp)
  · exact fun t _ => built_mk (by simp) rfl

theorem hashItem_conserves : Conserves ts version hashItem := by
  refine .orElse (.seq (.seqLeft (.map ?_ (.token rfl)) newlines_conserves) argument_conserves) <|
    .orElse (.since (.map ?_ (.token rfl))) <|
    .orElse (.seq (.map ?_ (.token rfl)) argument_conserves)
      (.seq (.seqLeft (.seqLeft (.map ?_ argument_conserves) (.token rfl)) newlines_conserves)
        argument_conserves)
  · exact fun label _ value _ => built (labelled_conserved label value) (by simp)
  · exact fun label _ => built (labelAlone_conserved label) (by simp)
  · exact fun op _ value _ => built (doubleSplat_conserved op value) (by simp)
  · exact fun key _ value _ => built (pair_conserved key value) (by simp)

theorem hashLiteral_conserves : Conserves ts version hashLiteral := by
  refine .seq (.seqLeft (.seqLeft (.seq (.seqLeft (.map ?_ (.token rfl)) newlines_conserves)
    (.sepBy hashItem_conserves commaLine_conserves)) (.opt commaLine_conserves)) newlines_conserves)
    (.token rfl)
  exact fun opening _ pairs _ closing _ => built_mk (by simp) rfl

theorem word_conserves {k : Kind} {kind : Node.Kind} (hk : k.isNumber = false)
    (hkind : ∀ t, (Node.bare kind t).isOrdinary = true) :
    Conserves ts version (Node.bare kind <$> tok k) :=
  .map (fun t _ => built_mk (by simp) (hkind t)) (.token (by simp [hk]))

theorem literalRule_conserves : Conserves ts version literalRule := by
  refine .orElse (number_conserves rfl ?_) <| .orElse (number_conserves rfl ?_) <|
    .orElse (number_conserves rfl ?_) <| .orElse (number_conserves rfl ?_) <|
    .orElse (.map ?_ stringLiteral_conserves.plus) <|
    .orElse (.seq (.seq (.map ?_ (.token rfl)) stringParts_conserves) (.token rfl)) <|
    .orElse (.map ?_ (.token rfl)) <|
    .orElse (.seq (.seq (.map ?_ (.token rfl)) stringParts_conserves) (.token rfl)) <|
    .orElse (.seq (.seq (.seq (.map ?_ (.token rfl)) stringParts_conserves) (.token rfl))
      (.token rfl)) <|
    .orElse (.seq (.seq (.map ?_ (.token rfl)) argumentList_conserves) (.token rfl)) <|
    .orElse hashLiteral_conserves ?_
  · -- an integer
    intro t
    refine ⟨_, _, rfl, rfl, ?_⟩
    cases integerValue? t.value.toList <;> rfl
  · -- a float
    intro t
    refine ⟨_, _, rfl, rfl, ?_⟩
    cases Decimal.read? (String.ofList (t.value.toList.filter (· != '_'))) <;> rfl
  · -- a rational number
    exact fun t => ⟨_, _, rfl, rfl, rfl⟩
  · -- an imaginary number
    exact fun t => ⟨_, _, rfl, rfl, rfl⟩
  · -- strings one after the other
    exact fun ns _ => built (concatenation_conserved ns) (by simp)
  · -- a command string
    exact fun opening _ parts _ closing _ =>
      built (commandString_conserved opening parts closing) (by simp)
  · -- `:name`
    exact fun t _ => built (symbol_conserved t) (by simp)
  · -- a symbol between quotes
    exact fun opening _ parts _ closing _ =>
      built (quotedSymbol_conserved opening parts closing) (by simp)
  · -- `/pattern/`
    exact fun opening _ parts _ closing _ flags _ =>
      built (regexp_conserved opening parts closing flags) (by simp)
  · -- `[...]`
    exact fun opening _ items hitems closing _ => built (array_conserved opening hitems closing) (by simp)
  · -- the words that stand for a value
    exact .orElse (word_conserves rfl fun _ => rfl) <| .orElse (word_conserves rfl fun _ => rfl) <|
      .orElse (word_conserves rfl fun _ => rfl) <| .orElse (word_conserves rfl fun _ => rfl) <|
      .orElse (word_conserves rfl fun _ => rfl) <| .orElse (word_conserves rfl fun _ => rfl) <|
      .orElse (word_conserves rfl fun _ => rfl) <| .orElse (word_conserves rfl fun _ => rfl)
        (word_conserves rfl fun _ => rfl)

/-! ## §11. Statements. -/

theorem parenTargets_conserves : Conserves ts version parenTargets :=
  .seq (.seqLeft (.seq (.map (fun _ _ _ _ _ _ => built_mk (by simp) rfl) (.token rfl))
    (.sepBy1 (.call .targetItem) (.token rfl))) (.opt (.token rfl))) (.token rfl)

theorem splatTarget_conserves : Conserves ts version splatTarget :=
  .seq (.map (fun op _ value _ => built (splat_conserved op value) (by simp)) (.token rfl))
    (.opt target_conserves)

theorem targetItemRule_conserves : Conserves ts version targetItemRule :=
  .orElse parenTargets_conserves (.orElse splatTarget_conserves target_conserves)

theorem targets_conserves : Conserves ts version targets := by
  refine .orElse (.seqLeft (.seq (.seqLeft (.map ?_ (.call .targetItem)) (.token rfl))
      (.sepBy (.call .targetItem) (.token rfl))) (.opt (.token rfl)))
    (.orElse (.map ?_ splatTarget_conserves) (.map ?_ parenTargets_conserves))
  · exact fun first _ rest _ => built (targets_conserved (first :: rest)) (by simp)
  · exact fun s _ => built (targets_conserved [s]) (by simp)
  · exact fun p _ => built (targets_conserved [p]) (by simp)

theorem multipleAssignment_conserves : Conserves ts version multipleAssignment := by
  refine .seq (.seqLeft (.map ?_ targets_conserves) (.token rfl))
    (.orElse commandCall_conserves (.map ?_ splatsOrArguments_conserves))
  · exact fun left _ value _ => built (joined_conserved left value rfl) (by simp)
  · exact fun ns _ => built (multipleValues_conserved ns) (by simp)

theorem severalValues_conserves : Conserves ts version severalValues := by
  refine .check ?_ (.seq (.seqLeft (.map built_pair (.call .primary)) (.token rfl))
    splatsOrArguments_conserves)
  rintro ⟨target, items⟩ - n hn
  exact built (assignValues?_conserved target.node items n hn) (by simp)

theorem methodName_conserves : Conserves ts version methodName :=
  .map (fun t _ => built (symbol_conserved t) (by simp)) (.token rfl)

theorem globalVariable_conserves : Conserves ts version globalVariable :=
  .map (fun t _ => built (markedVariable_conserved t) (by simp)) (.token rfl)

theorem plainStatement_conserves : Conserves ts version plainStatement := by
  refine .orElse (.seq (.seq (.map ?_ (.token rfl)) globalVariable_conserves)
      globalVariable_conserves) <|
    .orElse (.seq (.seq (.map ?_ (.token rfl)) methodName_conserves) methodName_conserves) <|
    .orElse (.seq (.map ?_ (.token rfl)) (methodName_conserves.sepBy1 (.token rfl))) <|
    .orElse (.seq (.seq (.seqLeft (.map ?_ (.token rfl)) (.token rfl)) statements_conserves)
      (.token rfl)) <|
    .orElse multipleAssignment_conserves <| .orElse severalValues_conserves (.call (.expression 0))
  · exact fun kw _ new _ old _ => built_mk (by simp) rfl
  · exact fun kw _ new _ old _ => built_mk (by simp) rfl
  · exact fun kw _ names _ => built_mk (by simp) rfl
  · exact fun kw _ ns _ closing _ => built (beforeOrAfter_conserved kw ns closing) (by simp)

theorem modifier_conserves : Conserves ts version modifier :=
  .seq (.map built_pair (.token rfl)) (.call (.expression 0))

/-- A statement keeps what its modifiers account for. -/
theorem modifiers_conserved {tokens : List Token} (mods : List (Token × Node)) (s : Node) :
    Conserved tokens (nodes s + nodes mods)
      (nodes (mods.foldl (fun body (kw, value) => Node.modified body kw value) s)) := by
  induction mods generalizing s with
  | nil => exact conserved_of_eq (by simp)
  | cons m mods ih =>
      obtain ⟨kw, value⟩ := m
      refine .trans ?_ (ih _)
      rw [nodes_cons, ← add_assoc]
      refine .add ?_ (.refl _)
      exact (conserved_of_eq (by simp)).trans (modified_conserved s kw value)

theorem statementRule_conserves : Conserves ts version statementRule :=
  .seq (.map (fun s _ mods _ => built (modifiers_conserved mods s) (by simp))
    plainStatement_conserves) modifier_conserves.star

theorem statementsRule_conserves : Conserves ts version statementsRule :=
  .seqLeft (.seqRight optTerms_conserves (.sepBy (.call .statement) terms_conserves))
    optTerms_conserves

/-! ## §12. Conditionals, loops and choices. -/

theorem expression_conserves : Conserves ts version expression := .call (.expression 0)

theorem elseBranch_conserves :
    Conserves ts version (opt (.call Symbol.elseBranch) : Rule (Option (Option Node))) :=
  .opt (.call .elseBranch)

theorem ifExpression_conserves : Conserves ts version ifExpression := by
  refine .seq (.seq (.seq (.seqLeft (.seq (.map ?_ (.token rfl)) expression_conserves)
    thenMark_conserves) block_conserves) elseBranch_conserves) (.token rfl)
  exact fun kw _ cond _ yes _ no _ closing _ =>
    built (conditional_conserved kw cond yes no.join closing.span) (by simp)

theorem elseBranchRule_conserves : Conserves ts version elseBranchRule := by
  refine .orElse (.seq (.seq (.seqLeft (.seq (.map ?_ (.token rfl)) expression_conserves)
    thenMark_conserves) block_conserves) elseBranch_conserves) (.seqRight (.token rfl) block_conserves)
  intro kw _ cond _ yes _ no _
  refine ⟨(conserved_of_eq (by simp)).trans (conditional_conserved kw cond yes no.join _), ?_⟩
  exact fun _ _ => trivial

theorem unlessExpression_conserves : Conserves ts version unlessExpression := by
  refine .seq (.seq (.seq (.seqLeft (.seq (.map ?_ (.token rfl)) expression_conserves)
    thenMark_conserves) block_conserves) (.opt (.seqRight (.token rfl) block_conserves)))
    (.token rfl)
  exact fun kw _ cond _ no _ yes _ closing _ =>
    built (conditional_conserved kw cond yes.join no closing.span) (by simp [add_right_comm])

theorem loopExpression_conserves : Conserves ts version loopExpression := by
  refine .seq (.seq (.seqLeft (.seq (.map ?_ (.token rfl)) expression_conserves) doMark_conserves)
    block_conserves) (.token rfl)
  exact fun kw _ cond _ body _ closing _ =>
    built (conditionLoop_conserved kw cond body closing) (by simp)

theorem loopVariables_conserves : Conserves ts version loopVariables :=
  .orElse targets_conserves target_conserves

theorem forExpression_conserves : Conserves ts version forExpression := by
  refine .seq (.seq (.seqLeft (.seq (.seqLeft (.seq (.map ?_ (.token rfl)) loopVariables_conserves)
    (.token rfl)) expression_conserves) doMark_conserves) block_conserves) (.token rfl)
  exact fun kw _ var _ elements _ body _ closing _ => built_mk (by simp [add_assoc]) rfl

theorem elseClause_conserves : Conserves ts version elseClause :=
  .seq (.map built_pair (.token rfl)) block_conserves

theorem whenClause_conserves : Conserves ts version whenClause := by
  refine .seq (.seqLeft (.seq (.map ?_ (.token rfl)) splatsOrArguments_conserves)
    thenMark_conserves) block_conserves
  exact fun kw _ values _ body _ => built (whenClause_conserved kw values body) (by simp)

theorem patternGuard_conserves : Conserves ts version patternGuard :=
  .seq (.map (fun kw _ cond _ => built (guard_conserved kw cond) (by simp)) (.token rfl))
    expression_conserves

theorem inClause_conserves : Conserves ts version inClause := by
  refine .seq (.seqLeft (.seq (.seq (.map ?_ (.token rfl)) (.call .topPattern))
    (.opt patternGuard_conserves)) thenMark_conserves) block_conserves
  exact fun kw _ pattern _ guard _ body _ => built_mk (by simp [add_assoc]) rfl

theorem caseExpression_conserves : Conserves ts version caseExpression := by
  refine .orElse (.seq (.seq (.seq (.seqLeft (.seq (.map ?_ (.token rfl))
      (.opt expression_conserves)) optTerms_conserves) whenClause_conserves.plus)
      (.opt elseClause_conserves)) (.token rfl))
    (.since (.seq (.seq (.seq (.seqLeft (.seq (.map ?_ (.token rfl)) expression_conserves)
      optTerms_conserves) inClause_conserves.plus) (.opt elseClause_conserves)) (.token rfl)))
  · exact fun kw _ subject _ clauses _ otherwise _ closing _ =>
      built (caseWhen_conserved kw subject clauses otherwise closing) (by simp)
  · exact fun kw _ subject _ clauses _ otherwise _ closing _ =>
      built (caseMatch_conserved kw subject clauses otherwise closing) (by simp)

/-! ## §13. Bodies and definitions. -/

theorem rescueVariable_conserves : Conserves ts version rescueVariable :=
  .seqRight (.token rfl) target_conserves

theorem rescueClause_conserves : Conserves ts version rescueClause := by
  refine .seq (.seqLeft (.seq (.seq (.map ?_ (.token rfl)) (.opt splatsOrArguments_conserves))
    (.opt rescueVariable_conserves)) thenMark_conserves) block_conserves
  exact fun kw _ classes _ var _ body _ =>
    built (rescueClause_conserved kw classes var body) (by simp)

theorem bodyRule_conserves : Conserves ts version bodyRule := by
  refine .seq (.seq (.seq (.map ?_ statements_conserves) rescueClause_conserves.star)
    (.opt (.seqRight (.token rfl) statements_conserves)))
    (.opt (.seq (.map built_pair (.token rfl)) statements_conserves))
  exact fun ns _ rescues _ otherwise _ ensure _ =>
    ⟨(conserved_of_eq (by simp)).trans (bodyStatements_conserved ns rescues otherwise ensure),
      fun _ _ => trivial⟩

theorem body_conserves : Conserves ts version body := .call .body

theorem beginExpression_conserves : Conserves ts version beginExpression :=
  .seq (.seq (.map (fun _ _ _ _ _ _ => built_mk (by simp) rfl) (.token rfl)) body_conserves)
    (.token rfl)

theorem parenExpression_conserves : Conserves ts version parenExpression :=
  .seq (.seq (.map (fun _ _ _ _ _ _ => built_mk (by simp) rfl) (.token rfl)) statements_conserves)
    (.token rfl)

theorem methodHead_conserves : Conserves ts version methodHead := by
  refine .orElse (.seq (.seqLeft (.map ?_ (.token rfl)) (.token rfl)) (.token rfl))
    (.map ?_ (.token rfl))
  · exact fun object _ name _ =>
      ⟨(conserved_of_eq (by simp)).trans (methodReceiver_conserved object), trivial⟩
  · exact fun name _ => ⟨conserved_of_eq (by simp [nodes_head]), trivial⟩

theorem definition_conserved {tokens : List Token} (kw : Token) (head : MethodHead)
    (params body : Option Node) (stop : Span) :
    Conserved tokens (nodes head + nodes params + nodes body)
      (nodes (Node.methodDef kw head (params.getD (Node.noParams head.name)) body stop)) :=
  (((Conserved.refl _).add (noParams_conserved params head.name)).add (.refl _)).trans
    (methodDef_conserved kw head _ body stop)

theorem methodDefinition_conserves : Conserves ts version methodDefinition := by
  refine .orElse (.since (.seq (.seqLeft (.seq (.seq (.map ?_ (.token rfl)) methodHead_conserves)
      (.opt parenParams_conserves)) (.token rfl)) (.call .assigned)))
    (.seq (.seq (.seq (.seq (.map ?_ (.token rfl)) methodHead_conserves)
      (.opt methodParams_conserves)) fullBlock_conserves) (.token rfl))
  · exact fun kw _ head _ params _ value _ =>
      built (definition_conserved kw head params (some value) value.span) (by simp)
  · exact fun kw _ head _ params _ body _ closing _ =>
      built (definition_conserved kw head params body closing.span) (by simp)

theorem constantPath_conserves : Conserves ts version constantPath := by
  refine .check (fun c _ n hn => ?_) (.call .primary)
  dsimp only at hn
  split at hn <;> cases hn
  exact built (.refl _) (by simp)

theorem classDefinition_conserves : Conserves ts version classDefinition := by
  refine .orElse (.seq (.seq (.seq (.seqLeft (.map ?_ (.token rfl)) (.token rfl))
      expression_conserves) fullBlock_conserves) (.token rfl))
    (.seq (.seq (.seq (.seq (.map ?_ (.token rfl)) constantPath_conserves)
      (.opt (.seqRight (.token rfl) expression_conserves))) fullBlock_conserves) (.token rfl))
  · exact fun kw _ object _ body _ closing _ => built_mk (by simp) rfl
  · exact fun kw _ name _ parent _ body _ closing _ => built_mk (by simp [add_assoc]) rfl

theorem moduleDefinition_conserves : Conserves ts version moduleDefinition := by
  refine .seq (.seq (.seq (.map ?_ (.token rfl)) constantPath_conserves) fullBlock_conserves)
    (.token rfl)
  exact fun kw _ name _ body _ closing _ => built_mk (by simp) rfl

theorem compoundRule_conserves : Conserves ts version compoundRule :=
  .orElse ifExpression_conserves <| .orElse unlessExpression_conserves <|
    .orElse loopExpression_conserves <| .orElse forExpression_conserves <|
    .orElse caseExpression_conserves <| .orElse beginExpression_conserves <|
    .orElse methodDefinition_conserves <| .orElse classDefinition_conserves <|
    .orElse moduleDefinition_conserves parenExpression_conserves

/-! ## §14. Patterns. -/

theorem patternRest_conserves : Conserves ts version patternRest :=
  .seq (.map (fun star _ name _ => built (matchRest_conserved star name) (by simp)) (.token rfl))
    (.opt (.token rfl))

theorem patternItem_conserves : Conserves ts version patternItem :=
  .orElse patternRest_conserves (.call .pattern)

theorem keyPatternRule_conserves : Conserves ts version keyPatternRule := by
  refine .orElse (.seq (.map ?_ (.token rfl)) (.call .pattern)) <|
    .orElse (.map ?_ (.token rfl)) <| .orElse (.seq (.map ?_ (.token rfl)) (.token rfl))
      (.seq (.map ?_ (.token rfl)) (.opt (.token rfl)))
  · exact fun label _ pattern _ => built (labelled_conserved label pattern) (by simp)
  · exact fun label _ => built (matchVar_conserved label) (by simp)
  · exact fun star _ nil_ _ => built_mk (by simp) rfl
  · exact fun star _ name _ => built (matchRest_conserved star name) (by simp)

theorem constants_conserved {tokens : List Token} (names : List Token) (head : Node) :
    Conserved tokens (nodes head)
      (nodes (names.foldl (fun scope n => Node.constant (some scope) n) head)) := by
  induction names generalizing head with
  | nil => exact .refl _
  | cons name names ih => exact (constant_conserved (some head) name).trans (ih _)

theorem patternConstant_conserves : Conserves ts version patternConstant := by
  refine .seq (.map ?_ (.orElse (.seq (.map ?_ (.token rfl)) (.token rfl)) (.map ?_ (.token rfl))))
    (.star (.seqRight (.token rfl) (.token rfl)))
  · exact fun head _ names _ => built (constants_conserved names head) (by simp)
  · exact fun colons _ name _ => built (topConstant_conserved colons name) (by simp)
  · exact fun name _ => built (constant_conserved none name) (by simp)

theorem patternScalar_conserves : Conserves ts version patternScalar :=
  .seqRight .notNext primaryNode_conserves

theorem patternValue_conserves : Conserves ts version patternValue := by
  refine .orElse (.seq (.seq (.map ?_ patternScalar_conserves) (.token rfl))
      patternScalar_conserves) <|
    .orElse (.seq (.map ?_ patternScalar_conserves) (.token rfl)) <|
    .orElse (.seq (.map ?_ (.token rfl)) patternScalar_conserves) patternScalar_conserves
  · exact fun lhs _ op _ rhs _ => built (range_conserved (some lhs) op (some rhs)) (by simp)
  · exact fun lhs _ op _ => built (range_conserved (some lhs) op none) (by simp)
  · exact fun op _ rhs _ => built (range_conserved none op (some rhs)) (by simp)

theorem pinTarget_conserves : Conserves ts version pinTarget := by
  refine .orElse (.seq (.seq (.map ?_ (.token rfl)) expression_conserves) (.token rfl)) <|
    .orElse (.map ?_ (.token rfl)) (.map ?_ (.token rfl))
  · exact fun opening _ value _ closing _ => built_mk (by simp) rfl
  · exact fun t _ => built (identifier_conserved t) (by simp)
  · exact fun t _ => built (markedVariable_conserved t) (by simp)

theorem constPattern_conserved {tokens : List Token} {items : Multiset Node} (c : Node)
    {inner : Node} (h : Conserved tokens items (nodes inner)) (closing : Token) :
    Conserved tokens (nodes c + items) (nodes (Node.constPattern c inner closing)) :=
  .node (by simpa using (Conserved.refl (nodes c)).add h) rfl

theorem patternPrimary_conserves : Conserves ts version patternPrimary := by
  refine .orElse (.seq (.seq (.seq (.map ?_ (.token rfl))
      (patternItem_conserves.sepBy (.token rfl))) (.present (.token rfl))) (.token rfl)) <|
    .orElse (.seq (.seqLeft (.seqLeft (.seq (.seqLeft (.map ?_ (.token rfl)) newlines_conserves)
      (.sepBy (.call .keyPattern) (.token rfl))) (.opt (.token rfl))) newlines_conserves)
      (.token rfl)) <|
    .orElse (.seq (.seq (.seq (.map ?_ patternConstant_conserves) (.token rfl))
      (.sepBy1 (.call .keyPattern) (.token rfl))) (.token rfl)) <|
    .orElse (.seq (.seq (.seq (.seq (.map ?_ patternConstant_conserves) (.token rfl))
      (patternItem_conserves.sepBy (.token rfl))) (.present (.token rfl))) (.token rfl)) <|
    .orElse (.seq (.map ?_ (.token rfl)) pinTarget_conserves) <|
    .orElse patternValue_conserves (.map ?_ (.token rfl))
  · -- `[...]`
    exact fun opening _ items _ trailing _ closing _ =>
      built (listPattern_conserved items trailing _) (by simp)
  · -- `{...}`
    exact fun opening _ items _ closing _ => built_mk (by simp) rfl
  · -- `Name(key: ...)`
    exact fun c _ opening _ items _ closing _ => built
      (constPattern_conserved c (.node (conserved_of_eq (nodesIn_slots items).symm) rfl) closing)
      (by simp)
  · -- `Name(...)`
    exact fun c _ opening _ items _ trailing _ closing _ => built
      (constPattern_conserved c (listPattern_conserved items trailing _) closing) (by simp)
  · -- `^x`
    exact fun caret _ value _ => built_mk (by simp) rfl
  · exact fun t _ => built (matchVar_conserved t) (by simp)

theorem alternatives_conserved {tokens : List Token} (rest : List Node) (first : Node) :
    Conserved tokens (nodes first + nodes rest) (nodes (rest.foldl Node.matchAlt first)) := by
  induction rest generalizing first with
  | nil => exact conserved_of_eq (by simp)
  | cons n rest ih =>
      refine .trans ?_ (ih _)
      rw [nodes_cons, ← add_assoc]
      exact .add (joined_conserved first n rfl) (.refl _)

theorem patternAlternatives_conserves : Conserves ts version patternAlternatives :=
  .seq (.map (fun first _ rest _ => built (alternatives_conserved rest first) (by simp))
    patternPrimary_conserves) (.star (.seqRight (.token rfl) patternPrimary_conserves))

theorem patternRule_conserves : Conserves ts version patternRule := by
  refine .orElse (.seq (.seqLeft (.map ?_ patternAlternatives_conserves) (.token rfl))
    (.token rfl)) patternAlternatives_conserves
  exact fun pattern _ name _ => built (matchAs_conserved pattern name) (by simp)

theorem topPatternRule_conserves : Conserves ts version topPatternRule := by
  refine .orElse (.map ?_ (.sepBy1 (.call .keyPattern) (.token rfl)))
    (.seq (.map ?_ (patternItem_conserves.sepBy1 (.token rfl))) (.present (.token rfl)))
  · exact fun items _ => built_mk (by simp) rfl
  · exact fun items _ trailing _ => built (topPattern_conserved items trailing) (by simp)

/-! ## §15. The grammar. -/

/-- **The rules of the language keep what symbols account for.** -/
theorem language_conserves (hwide : ∀ t ∈ ts.list, t.Wide) :
    language.Closed (accounting ts version) := by
  intro s i v j h
  refine ⟨language_stands s i v j (reads_standing h), ?_⟩
  cases s with
  | statements => exact statementsRule_conserves i v j h
  | statement => exact statementRule_conserves i v j h
  | expression level => exact expressionRule_conserves level i v j h
  | expressionAtom => exact expressionAtomRule_conserves i v j h
  | commandCall => exact commandCallRule_conserves i v j h
  | command => exact commandRule_conserves i v j h
  | argument => exact argumentRule_conserves i v j h
  | ternary => exact ternaryRule_conserves i v j h
  | range => exact rangeRule_conserves i v j h
  | operation level => exact operationRule_conserves level i v j h
  | operand => exact operandRule_conserves i v j h
  | assigned => exact assignedRule_conserves i v j h
  | callArgument => exact callArgumentRule_conserves i v j h
  | primary => exact primaryRule_conserves i v j h
  | suffix => exact suffixRule_conserves i v j h
  | atom => exact atomRule_conserves hwide i v j h
  | literal => exact literalRule_conserves i v j h
  | compound => exact compoundRule_conserves i v j h
  | elseBranch => exact elseBranchRule_conserves i v j h
  | body => exact bodyRule_conserves i v j h
  | targetItem => exact targetItemRule_conserves i v j h
  | param ofBlock => exact paramRule_conserves ofBlock i v j h
  | topPattern => exact topPatternRule_conserves i v j h
  | pattern => exact patternRule_conserves i v j h
  | keyPattern => exact keyPatternRule_conserves i v j h

end Grammar

end RubySyntax
