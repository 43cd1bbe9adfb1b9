/-
  RubySyntax.Proofs.Tree.Place.Rules
  ──────────────────────────────────
  **THE RULES OF THE GRAMMAR PLACE NODES WHERE THEY ARE READ.**

  A position in the tokens is measured by the end of the token before it.  Tokens stand in order,
  so a token stands between the measures of the positions before and after it, and so does every
  node between the measures of the positions where its reading began and ended.  `Symbol.Stands`
  says it of the values of each symbol, and each rule keeps it if the symbols that it refers to
  do.

  Main results:
    • `standing_forward` — no rule leads back,
    • `language_stands` — what symbols promise is closed under the rules of the language.
-/
import RubySyntax.Grammar.Program
import RubySyntax.Proofs.Grammar.Forward
import RubySyntax.Proofs.Tree.Place.Control

namespace RubySyntax

/-! ## §1. Tokens in order. -/

/-- Tokens in the order of a text. -/
structure OrderedTokens where
  list : List Token
  proper : ∀ t ∈ list, t.span.start ≤ t.span.stop
  ordered : list.Pairwise fun t u => t.span.stop ≤ u.span.start

namespace OrderedTokens

variable (ts : OrderedTokens)

/-- How far the text has been read before a position: to the end of the token before it. -/
def reached : Nat → Nat
  | 0 => 0
  | i + 1 => match ts.list[i]? with
    | some t => t.span.stop
    | none => reached i

variable {ts} {i : Nat} {t : Token}

theorem reached_le_start (h : ts.list[i]? = some t) : ts.reached i ≤ t.span.start := by
  cases i with
  | zero => exact Nat.zero_le _
  | succ i =>
      obtain ⟨hi, rfl⟩ := List.getElem?_eq_some_iff.mp h
      have hi' : i < ts.list.length := Nat.lt_of_succ_lt hi
      rw [reached, List.getElem?_eq_getElem hi']
      exact List.pairwise_iff_getElem.mp ts.ordered i (i + 1) hi' hi (Nat.lt_succ_self i)

theorem reached_succ (h : ts.list[i]? = some t) : ts.reached (i + 1) = t.span.stop := by
  rw [reached, h]

/-- A token stands between the measures before and after it. -/
theorem stands (h : ts.list[i]? = some t) :
    t.span.Stands ts.list (ts.reached i) (ts.reached (i + 1)) := by
  have ht := List.mem_of_getElem? h
  have hstop : t.span.stop ≤ ts.reached (i + 1) := Nat.le_of_eq (reached_succ h).symm
  exact ⟨reached_le_start h, ts.proper t ht, hstop,
    ⟨⟨t, ht, rfl⟩, ⟨t, ht, rfl⟩⟩, t, ht, rfl, rfl, rfl⟩

/-- A node stands where it was read. -/
abbrev Frames (ts : OrderedTokens) (i : Nat) (n : Node) (j : Nat) : Prop :=
  n.Stands ts.list (ts.reached i) (ts.reached j)

end OrderedTokens

namespace Grammar

open Token Grammar.Expr

/-! ## §2. What symbols promise. -/

/-- Where the values of a symbol stand, between two offsets. -/
def Symbol.Stands (tokens : List Token) (lo hi : Nat) : (s : Symbol) → s.Result → Prop
  | .statements, ns => Node.StatementsStand tokens lo hi ns
  | .body, ns => lo ≤ hi ∧ ∀ n ∈ ns, Node.Stands tokens lo hi n
  | .elseBranch, branch => lo ≤ hi ∧ ∀ n ∈ branch, Node.Stands tokens lo hi n
  | .callArgument, x => Node.Stands tokens lo hi x.node
  | .primary, c | .atom, c => Node.Stands tokens lo hi c.node
  | .suffix, op => Node.Suffix.Stands tokens lo hi op
  | .statement, n | .expression _, n | .expressionAtom, n | .commandCall, n | .command, n
  | .argument, n | .ternary, n | .range, n | .operation _, n | .operand, n | .assigned, n
  | .literal, n | .compound, n | .targetItem, n | .param _, n | .topPattern, n | .pattern, n
  | .keyPattern, n => Node.Stands tokens lo hi n

theorem Symbol.Stands.bounds {tokens : List Token} {lo hi : Nat} {s : Symbol} {v : s.Result}
    (h : s.Stands tokens lo hi v) : lo ≤ hi := by
  cases s with
  | statements => exact Node.StatementsStand.bounds h
  | body | elseBranch => exact h.1
  | suffix => exact Node.Suffix.Stands.bounds h
  | _ => exact Node.Stands.bounds h

/-- Readings in which every symbol stands where it was read. -/
def standing (ts : OrderedTokens) (version : Version) : Context Symbol Symbol.Result :=
  ⟨ts.list.toArray, version, fun s i v j => s.Stands ts.list (ts.reached i) (ts.reached j) v⟩

variable {ts : OrderedTokens} {version : Version} {i j : Nat}

theorem token_stands {kinds : List Kind} {t : Token}
    (h : (Expr.token kinds).Reads (standing ts version) i t j) :
    t.span.Stands ts.list (ts.reached i) (ts.reached j) := by
  obtain ⟨ht, -, rfl⟩ := h
  apply OrderedTokens.stands
  rwa [standing, List.getElem?_toArray] at ht

theorem token_mem {kinds : List Kind} {t : Token}
    (h : (Expr.token kinds).Reads (standing ts version) i t j) : t ∈ ts.list := by
  obtain ⟨ht, -, -⟩ := h
  rw [standing, List.getElem?_toArray] at ht
  exact List.mem_of_getElem? ht

/-- **No rule leads back.** -/
theorem standing_forward : (standing ts version).Forward ts.reached := by
  refine ⟨fun i t ht => ?_, fun s i v j h => Symbol.Stands.bounds h⟩
  rw [standing, List.getElem?_toArray] at ht
  exact (OrderedTokens.stands ht).bounds

section Lists

variable {x : Rule Node} {β : Type} {sep : Rule β} {ns : List Node}

theorem sepBy1_stand (h : (sepBy1 x sep).Reads (standing ts version) i ns j)
    (hx : ∀ i n j, x.Reads (standing ts version) i n j → ts.Frames i n j) :
    ∀ n ∈ ns, ts.Frames i n j :=
  h.sepBy1_within standing_forward (fun h hlo hhi => h.mono ⟨hlo, hhi⟩) hx

theorem sepBy1_first (h : (sepBy1 x sep).Reads (standing ts version) i ns j)
    (hx : ∀ i n j, x.Reads (standing ts version) i n j → ts.Frames i n j) :
    ∃ n rest k, ns = n :: rest ∧ x.Reads (standing ts version) i n k ∧
      ts.reached k ≤ ts.reached j ∧ ∀ m ∈ rest, ts.Frames k m j :=
  h.sepBy1_split standing_forward (fun h hlo hhi => h.mono ⟨hlo, hhi⟩) hx

theorem sepBy_stand (h : (sepBy x sep).Reads (standing ts version) i ns j)
    (hx : ∀ i n j, x.Reads (standing ts version) i n j → ts.Frames i n j) :
    ∀ n ∈ ns, ts.Frames i n j :=
  h.sepBy_within standing_forward (fun h hlo hhi => h.mono ⟨hlo, hhi⟩) hx

theorem plus_stand (h : (plus x).Reads (standing ts version) i ns j)
    (hx : ∀ i n j, x.Reads (standing ts version) i n j → ts.Frames i n j) :
    ∀ n ∈ ns, ts.Frames i n j :=
  h.plus_within standing_forward (fun h hlo hhi => h.mono ⟨hlo, hhi⟩) hx

theorem opt_stands {o : Option Node} (h : (opt x).Reads (standing ts version) i o j)
    (hx : ∀ i n j, x.Reads (standing ts version) i n j → ts.Frames i n j) :
    ∀ n ∈ o, ts.Frames i n j :=
  fun n hn => hx _ _ _ (h.opt_some n hn)

end Lists

theorem optToken_stands {kinds : List Kind} {o : Option Token}
    (h : (opt (.token kinds)).Reads (standing ts version) i o j) :
    ∀ t ∈ o, t.span.Stands ts.list (ts.reached i) (ts.reached j) :=
  fun t ht => token_stands (h.opt_some t ht)

theorem ne_nil_of_sepBy1 {α β : Type} {x : Rule α} {sep : Rule β} {vs : List α}
    (h : (sepBy1 x sep).Reads (standing ts version) i vs j) : vs ≠ [] := by
  obtain ⟨v, rest, _, rfl, -⟩ := h.sepBy1
  exact List.cons_ne_nil v rest

/-! ## §3. Shared expressions. -/

theorem statements_stand {ns : List Node} (h : statements.Reads (standing ts version) i ns j) :
    Node.StatementsStand ts.list (ts.reached i) (ts.reached j) ns :=
  h

theorem block_stands :
    block.Yields (standing ts version) i fun o j => ∀ n ∈ o, ts.Frames i n j := by
  intro ns _ hns
  exact Node.ofStatements?_stands (statements_stand hns).stands

theorem fullBlock_stands :
    fullBlock.Yields (standing ts version) i fun o j => ∀ n ∈ o, ts.Frames i n j := by
  intro ns _ hns
  exact Node.ofStatements?_stands hns.2

theorem primaryNode_stands : primaryNode.Yields (standing ts version) i (ts.Frames i) := by
  intro c _ hc
  exact hc

theorem target_stands :
    (primaryTarget Node.target?).Yields (standing ts version) i (ts.Frames i) := by
  intro c _ hc t ht
  exact Node.target?_stands hc t ht

theorem splatOrArgument_stands :
    splatOrArgument.Yields (standing ts version) i (ts.Frames i) := by
  refine Advances.yields ⟨?_, ?_⟩ standing_forward
  · intro op _ hop _ value _ hvalue _
    exact Node.splat_stands ((token_stands hop).mono (by omega))
      (Node.forall_mem_some (Node.Stands.mono hvalue (by omega)))
  · intro n _ hn _
    exact hn

theorem splatsOrArguments_stand {ns : List Node}
    (h : (sepBy1 splatOrArgument comma).Reads (standing ts version) i ns j) :
    ∀ n ∈ ns, ts.Frames i n j :=
  sepBy1_stand h fun _ _ _ h => splatOrArgument_stands.reads h

/-! ## §4. Operations. -/

theorem oneLineMatch_stands {op : Kind} {feature : Version.Feature} :
    (oneLineMatch op feature).Yields (standing ts version) i (ts.Frames i) := by
  refine Advances.yields ?_ standing_forward
  intro value _ hvalue _ op _ _ _ p _ hp _ n hn _
  cases hn
  exact Node.joined_stands (Node.Stands.mono hvalue (by omega)) (Node.Stands.mono hp (by omega))

theorem expressionAtomRule_stands :
    expressionAtomRule.Yields (standing ts version) i (ts.Frames i) := by
  refine ⟨oneLineMatch_stands, oneLineMatch_stands, ?_, ?_⟩
  · intro n _ hn
    exact hn
  · intro n _ hn
    exact hn

theorem ternaryRule_stands : ternaryRule.Yields (standing ts version) i (ts.Frames i) := by
  refine Advances.yields ⟨?_, ?_⟩ standing_forward
  · intro cond _ hcond _ _ _ _ _ _ _ _ _ yes _ hyes _ _ _ _ _ _ _ _ _ _ _ _ _ no _ hno _
    exact Node.ternary_stands hcond (Node.Stands.mono hyes ⟨by omega, Nat.le_refl _⟩)
      (Node.Stands.mono hno (by omega))
  · intro n _ hn _
    exact hn

theorem rangeRule_stands : rangeRule.Yields (standing ts version) i (ts.Frames i) := by
  refine Advances.yields ⟨?_, ?_, ?_, ?_⟩ standing_forward
  · -- `a..b`
    intro lhs _ hlhs _ op _ hop _ rhs _ hrhs _
    exact Node.range_stands ((token_stands hop).mono (by omega))
      (Node.forall_mem_some (Node.Stands.mono hlhs (by omega)))
      (Node.forall_mem_some (Node.Stands.mono hrhs (by omega)))
  · -- `a..`
    intro lhs _ hlhs _ op _ hop _ _
    exact Node.range_stands ((token_stands hop).mono (by omega))
      (Node.forall_mem_some (Node.Stands.mono hlhs (by omega))) (by simp)
  · -- `..b`
    intro op _ hop _ rhs _ hrhs _ _
    exact Node.range_stands ((token_stands hop).mono (by omega)) (by simp)
      (Node.forall_mem_some (Node.Stands.mono hrhs (by omega)))
  · -- an operation
    intro n _ hn _
    exact hn

theorem argumentRule_stands : argumentRule.Yields (standing ts version) i (ts.Frames i) := by
  refine Advances.yields ⟨?_, ?_⟩ standing_forward
  · intro kw _ hkw _ _ _ _ _ value _ hvalue _
    exact Node.defined_stands ((token_stands hkw).mono (by omega))
      (Node.Stands.mono hvalue (by omega)) (by simp)
  · intro n _ hn _
    exact hn

theorem assignedRule_stands : assignedRule.Yields (standing ts version) i (ts.Frames i) := by
  have hrescued : ∀ (value : Node) (k : Nat), ts.Frames i value k → ∀ kw fallback j,
      (Prod.mk <$> tok .kRESCUE_MOD <*> argument).Reads (standing ts version) k (kw, fallback) j →
        ts.Frames i (Node.rescueModifier value kw fallback) j := by
    intro value k hvalue kw fallback j h
    have hk := hvalue.bounds
    have hj := h.forward standing_forward
    obtain ⟨k', g, ⟨t, ht, rfl⟩, n, hn, hg⟩ := h
    cases hg
    have hkw := token_stands ht
    have hkw' := hkw.bounds
    have hn' := Node.Stands.bounds hn
    exact Node.rescueModifier_stands (hvalue.mono (by omega)) (Node.Stands.mono hn (by omega))
      (hkw.mono (by omega))
  refine ⟨?_, ?_⟩
  · intro value k hvalue fallback j h
    obtain ⟨rfl, rfl⟩ | ⟨⟨kw, other⟩, rfl, hread⟩ := h.opt
    · exact hvalue
    · exact hrescued value k hvalue kw other j hread
  · intro value k hvalue fallback j h
    obtain ⟨rfl, rfl⟩ | ⟨⟨kw, other⟩, rfl, hread⟩ := h.opt
    · exact hvalue
    · exact hrescued value k hvalue kw other j hread

theorem operandRule_stands : operandRule.Yields (standing ts version) i (ts.Frames i) := by
  refine ⟨Advances.yields ?_ standing_forward, Advances.yields ?_ standing_forward,
    primaryNode_stands⟩
  · intro target _ htarget _ _ _ _ _ value _ hvalue _ n hn
    exact Node.assign?_stands (Node.Stands.mono htarget (by omega))
      (Node.Stands.mono hvalue (by omega)) n hn
  · intro target _ htarget _ op _ _ _ value _ hvalue _ n hn
    exact Node.operatorAssign?_stands (Node.Stands.mono htarget (by omega))
      (Node.Stands.mono hvalue (by omega)) op n hn

theorem unaryLevel_stands {op : Token} {x : Node} {method : String}
    (hop : (standing ts version).tokens[i]? = some op) (hx : ts.Frames (i + 1) x j) :
    ts.Frames i (Node.unary op x method) j := by
  have hi := standing_forward.token i op hop
  have hj := hx.bounds
  rw [standing, List.getElem?_toArray] at hop
  exact Node.unary_stands ((OrderedTokens.stands hop).mono (by omega)) (hx.mono (by omega)) method

theorem operationRule_stands (level : Nat) :
    (operationRule level).Yields (standing ts version) i (ts.Frames i) := by
  refine .of_reads fun n j h => climb_reads (P := ts.Frames) ?_ ?_ ?_ ?_ h
  · exact fun u _ i op x j hop _ hx => unaryLevel_stands hop hx
  · intro b hb i x k op y j hx hop _ hy
    have hk := standing_forward.token k op hop
    have hi := hx.bounds
    have hj := hy.bounds
    rw [standing, List.getElem?_toArray] at hop
    have hop := OrderedTokens.stands hop
    simp only [binaryLevels, List.mem_cons, List.not_mem_nil, or_false] at hb
    rcases hb with rfl | rfl | hb
    · exact Node.joined_stands (hx.mono (by omega)) (hy.mono (by omega))
    · exact Node.joined_stands (hx.mono (by omega)) (hy.mono (by omega))
    · have hcombine : b.combine = Node.binary := by
        rcases hb with rfl | rfl | rfl | rfl | rfl | rfl | rfl | rfl <;> rfl
      rw [hcombine]
      exact Node.binary_stands (hx.mono (by omega)) (hop.mono (by omega)) (hy.mono (by omega))
  · exact fun i n j h => h
  · exact fun l i n j h => h

theorem expressionRule_stands (level : Nat) :
    (expressionRule level).Yields (standing ts version) i (ts.Frames i) := by
  refine .of_reads fun n j h => climb_reads (P := ts.Frames) ?_ ?_ ?_ ?_ h
  · exact fun u _ i op x j hop _ hx => unaryLevel_stands hop hx
  · intro b hb i x k op y j hx hop _ hy
    have hk := standing_forward.token k op hop
    have hi := hx.bounds
    have hj := hy.bounds
    cases List.mem_singleton.mp hb
    exact Node.joined_stands (hx.mono (by omega)) (hy.mono (by omega))
  · exact fun i n j h => h
  · exact fun l i n j h => h

/-! ## §5. Parameters and blocks. -/

theorem defaultValue_stands (ofBlock : Bool) :
    (defaultValue ofBlock).Yields (standing ts version) i (ts.Frames i) := by
  refine ⟨?_, primaryNode_stands⟩
  intro value _ hvalue n hn
  split at hn
  · cases hn
  · cases hn
    exact hvalue

theorem paramRule_stands (ofBlock : Bool) :
    (paramRule ofBlock).Yields (standing ts version) i (ts.Frames i) := by
  refine Advances.yields ⟨?_, ?_, ?_, ?_, ?_, ?_, ?_, ?_, ?_, ?_⟩ standing_forward
  · -- `...`
    intro dots _ hdots _ _
    exact Node.bare_stands (token_stands hdots)
  · -- `name: value`
    intro label _ hlabel _ value _ hvalue _
    have hlabel := token_stands hlabel
    have hvalue := (defaultValue_stands ofBlock).reads hvalue
    exact Node.param_stands (hlabel.mono (by omega)) (Node.forall_mem_some (hlabel.mono (by omega)))
      (Node.forall_mem_some (hvalue.mono (by omega)))
  · -- `name:`
    intro label _ hlabel _
    have hlabel := token_stands hlabel
    exact Node.param_stands hlabel (Node.forall_mem_some hlabel) (by simp)
  · -- `**nil`
    intro star _ hstar _ nil_ _ hnil _
    exact Node.noKeywords_stands ((token_stands hstar).mono (by omega))
      ((token_stands hnil).mono (by omega))
  · -- `**name`, `**`
    intro op _ hop _ name _ hname _
    exact Node.param_stands ((token_stands hop).mono (by omega))
      (fun t ht => (optToken_stands hname t ht).mono (by omega)) (by simp)
  · -- `*name`, `*`
    intro op _ hop _ name _ hname _
    exact Node.param_stands ((token_stands hop).mono (by omega))
      (fun t ht => (optToken_stands hname t ht).mono (by omega)) (by simp)
  · -- `&name`, `&`
    intro op _ hop _ name _ hname _
    exact Node.param_stands ((token_stands hop).mono (by omega))
      (fun t ht => (optToken_stands hname t ht).mono (by omega)) (by simp)
  · -- `name = value`
    intro name _ hname _ _ _ _ _ value _ hvalue _
    have hname := token_stands hname
    have hvalue := (defaultValue_stands ofBlock).reads hvalue
    exact Node.param_stands (hname.mono (by omega)) (Node.forall_mem_some (hname.mono (by omega)))
      (Node.forall_mem_some (hvalue.mono (by omega)))
  · -- `name`
    intro name _ hname _
    have hname := token_stands hname
    exact Node.param_stands hname (Node.forall_mem_some hname) (by simp)
  · -- `(a, b)`, which is taken apart
    intro opening _ hopening _ items _ hitems hle closing _ hclosing _
    exact Node.between_stands (token_stands hopening) (sepBy1_stand hitems fun _ _ _ h => h) hle
      (token_stands hclosing)

theorem parenParams_stands : parenParams.Yields (standing ts version) i (ts.Frames i) := by
  refine Advances.yields ?_ standing_forward
  intro opening _ hopening _ params _ hparams hle closing _ hclosing _
  exact Node.between_stands (token_stands hopening) (sepBy_stand hparams fun _ _ _ h => h) hle
    (token_stands hclosing)

theorem methodParams_stands : methodParams.Yields (standing ts version) i (ts.Frames i) := by
  refine ⟨parenParams_stands, .of_reads ?_⟩
  rintro n j ⟨params, hparams, rfl⟩
  exact Node.cover_stands (ne_nil_of_sepBy1 hparams) (sepBy1_stand hparams fun _ _ _ h => h)

theorem ownNames_stand :
    ownNames.Yields (standing ts version) i fun ns j => ∀ n ∈ ns, ts.Frames i n j := by
  refine Advances.yields ?_ standing_forward
  intro _ _ _ _ ns _ hns _ n hn
  refine (sepBy1_stand hns ?_ n hn).mono (by omega)
  rintro i n j ⟨t, ht, rfl⟩
  have ht := token_stands ht
  exact Node.param_stands ht (Node.forall_mem_some ht) (by simp)

theorem blockParams_stands : blockParams.Yields (standing ts version) i (ts.Frames i) := by
  refine Advances.yields ⟨?_, ?_⟩ standing_forward
  · intro bars _ hbars _
    exact Node.noBlockParams_stands (token_stands hbars)
  · intro opening _ hopening _ params _ hparams _ trailing _ _ _ own _ hown _ closing _ hclosing _
    have hparams := sepBy_stand hparams fun _ _ _ h => h
    refine Node.blockParams_stands (token_stands hopening)
      (fun n hn => (hparams n hn).mono (by omega))
      (by omega) (token_stands hclosing) trailing fun n hn => ?_
    cases own with
    | none => exact absurd hn List.not_mem_nil
    | some ns => exact (ownNames_stand.reads (hown.opt_some ns rfl) n hn).mono (by omega)

theorem braceBlock_stands :
    braceBlock.Yields (standing ts version) i
      fun parts j => parts.Stands ts.list (ts.reached i) (ts.reached j) := by
  refine Advances.yields ?_ standing_forward
  intro opening _ hopening _ params _ hparams _ body _ hbody _ closing _ hclosing _
  have hparams := opt_stands hparams fun _ _ _ h => blockParams_stands.reads h
  have hbody := block_stands.reads hbody
  exact Node.blockParts_stand (token_mem hopening) ((token_stands hopening).mono (by omega))
    (fun n hn => (hparams n hn).mono (by omega))
    (fun n hn => (hbody n hn).mono (by omega)) (token_stands hclosing)

theorem doBlock_stands :
    doBlock.Yields (standing ts version) i
      fun parts j => parts.Stands ts.list (ts.reached i) (ts.reached j) := by
  refine Advances.yields ?_ standing_forward
  intro opening _ hopening _ params _ hparams _ body _ hbody _ closing _ hclosing _
  have hparams := opt_stands hparams fun _ _ _ h => blockParams_stands.reads h
  have hbody := fullBlock_stands.reads hbody
  exact Node.blockParts_stand (token_mem hopening) ((token_stands hopening).mono (by omega))
    (fun n hn => (hparams n hn).mono (by omega))
    (fun n hn => (hbody n hn).mono (by omega)) (token_stands hclosing)

theorem lambdaBody_stands :
    lambdaBody.Yields (standing ts version) i
      fun parts j => parts.Stands ts.list (ts.reached i) (ts.reached j) := by
  refine Advances.yields ⟨?_, ?_⟩ standing_forward
  · intro opening _ hopening _ body _ hbody _ closing _ hclosing _
    have hbody := block_stands.reads hbody
    exact Node.blockParts_stand (token_mem hopening) ((token_stands hopening).mono (by omega)) (by simp)
      (fun n hn => (hbody n hn).mono (by omega)) (token_stands hclosing)
  · intro opening _ hopening _ body _ hbody _ closing _ hclosing _
    have hbody := fullBlock_stands.reads hbody
    exact Node.blockParts_stand (token_mem hopening) ((token_stands hopening).mono (by omega)) (by simp)
      (fun n hn => (hbody n hn).mono (by omega)) (token_stands hclosing)

theorem lambda_stands : lambda.Yields (standing ts version) i (ts.Frames i) := by
  refine Advances.yields ?_ standing_forward
  intro arrow _ harrow _ params _ hparams hle parts _ hparts _ n hn
  cases hn
  exact Node.lambda_stands _ (token_stands harrow)
    (opt_stands hparams fun _ _ _ h => methodParams_stands.reads h) hle
    (lambdaBody_stands.reads hparts)

/-! ## §6. Arguments and commands. -/

theorem callArgumentRule_stands :
    callArgumentRule.Yields (standing ts version) i fun x j => ts.Frames i x.node j := by
  refine Advances.yields ⟨?_, ?_, ?_, ?_, ?_, ?_, ?_, ?_, ?_, ?_, ?_, ?_⟩ standing_forward
  · -- `...`
    intro dots _ hdots _ _ _ _ _ _
    exact Node.bare_stands ((token_stands hdots).mono (by omega))
  · -- `&block`
    intro op _ hop _ value _ hvalue _
    exact Node.blockPass_stands ((token_stands hop).mono (by omega))
      (Node.forall_mem_some (Node.Stands.mono hvalue (by omega)))
  · -- `&`
    intro op _ hop _ _
    exact Node.blockPass_stands (token_stands hop) (by simp)
  · -- `**options`
    intro op _ hop _ value _ hvalue _
    exact Node.marked_stands ((token_stands hop).mono (by omega))
      (Node.Stands.mono hvalue (by omega))
  · -- `**`
    intro op _ hop _ _
    exact Node.bare_stands (token_stands hop)
  · -- `*values`
    intro op _ hop _ value _ hvalue _
    exact Node.splat_stands ((token_stands hop).mono (by omega))
      (Node.forall_mem_some (Node.Stands.mono hvalue (by omega)))
  · -- `*`
    intro op _ hop _ _
    exact Node.bare_stands (token_stands hop)
  · -- `key: value`
    intro label _ hlabel _ _ _ _ _ value _ hvalue _
    exact Node.labelled_stands ((token_stands hlabel).mono (by omega))
      (Node.Stands.mono hvalue (by omega))
  · -- `key:`
    intro label _ hlabel _ _
    exact Node.labelAlone_stands (token_stands hlabel)
  · -- `key => value`
    intro key _ hkey _ _ _ _ _ value _ hvalue _
    exact Node.joined_stands (Node.Stands.mono hkey (by omega)) (Node.Stands.mono hvalue (by omega))
  · -- a command
    intro n _ hn _
    exact hn
  · -- a value
    intro n _ hn _
    exact hn

theorem argumentList_stand {items : List Node.Argument}
    (h : argumentList.Reads (standing ts version) i items j) :
    ∀ x ∈ items, ts.Frames i x.node j := by
  obtain ⟨_, _, h, hcomma⟩ := h.seqLeft
  have hcomma := hcomma.forward standing_forward
  intro x hx
  refine Node.Stands.mono (h.sepBy_within (P := fun lo hi x => x.node.Stands ts.list lo hi)
    standing_forward (fun h hlo hhi => h.mono ⟨hlo, hhi⟩) (fun _ _ _ h => h) x hx) (by omega)

theorem commandArguments_stand {items : List Node.Argument}
    (h : commandArguments.Reads (standing ts version) i items j) :
    ∀ x ∈ items, ts.Frames i x.node j :=
  h.sepBy1_within (P := fun lo hi x => x.node.Stands ts.list lo hi) standing_forward
    (fun h hlo hhi => h.mono ⟨hlo, hhi⟩) fun _ _ _ h => h

theorem parenArguments_stand :
    parenArguments.Yields (standing ts version) i
      fun p j => Node.ArgumentsStand ts.list (ts.reached i) (ts.reached j) p.1 p.2 := by
  refine Advances.yields ?_ standing_forward
  intro _ _ _ _ items _ hitems hle closing _ hclosing _
  exact (Node.argumentsStand_mk (argumentList_stand hitems) hle (token_stands hclosing)).mono
    (by omega)

theorem commandRule_stands : commandRule.Yields (standing ts version) i (ts.Frames i) := by
  refine Advances.yields ⟨?_, ?_⟩ standing_forward
  · intro kw _ hkw _ items _ hitems _
    exact Node.jump_stands ((token_stands hkw).mono (by omega))
      fun x hx => (commandArguments_stand hitems x hx).mono (by omega)
  · intro c _ hc _ c' hc' items _ hitems _ n hn
    dsimp only at hc'
    split at hc'
    · cases hc'
      exact Node.command?_stands (Node.Stands.mono hc (by omega))
        (fun x hx => (commandArguments_stand hitems x hx).mono (by omega)) n hn
    · cases hc'

theorem commandCallRule_stands :
    commandCallRule.Yields (standing ts version) i (ts.Frames i) := by
  refine Advances.yields ⟨?_, ?_⟩ standing_forward
  · intro c _ hc _ parts _ hparts _ n hn
    cases parts with
    | none =>
        cases hn
        exact Node.Stands.mono hc (by omega)
    | some parts =>
        have hparts := doBlock_stands.reads (hparts.opt_some parts rfl)
        exact Node.attachBlock?_stands _ hc hparts n hn
  · intro a _ ha _ parts _ hparts _ n hn
    exact Node.attachBlock?_stands _ ha (doBlock_stands.reads hparts) n hn

/-! ## §7. Primary expressions. -/

theorem methodSuffix_stands {dot name : Token} {args : Option Node.ParenArguments} {k : Nat}
    (hname : name.span.Stands ts.list (ts.reached i) (ts.reached k))
    (hargs : (opt parenArguments).Reads (standing ts version) k args j) :
    (Node.Suffix.method dot name args).Stands ts.list (ts.reached i) (ts.reached j) := by
  have hk := hname.bounds
  have hj := hargs.forward standing_forward
  match args, hargs.opt_some with
  | none, _ => exact hname.mono (by omega)
  | some (items, closing), hargs =>
      have hargs := parenArguments_stand.reads (hargs _ rfl)
      exact ⟨hname.mono (by omega), hargs.mono (by omega)⟩

theorem suffixRule_stands :
    suffixRule.Yields (standing ts version) i
      fun op j => op.Stands ts.list (ts.reached i) (ts.reached j) := by
  refine ⟨?_, Advances.yields ?_ standing_forward, Advances.yields ?_ standing_forward, ?_,
    Advances.yields ?_ standing_forward, braceBlock_stands⟩
  · -- `.name`, with arguments or without
    intro dot _ hdot name _ hname args _ hargs
    have hdot := (token_stands hdot).bounds
    exact methodSuffix_stands ((token_stands hname).mono (by omega)) hargs
  · -- `.()`
    intro dot _ hdot _ args _ hargs _
    have hargs := parenArguments_stand.reads hargs
    exact ⟨(token_stands hdot).mono (by omega), hargs.mono (by omega)⟩
  · -- `::Name`
    intro _ _ _ _ name _ hname _ _ _ _ _
    exact Span.Stands.mono (token_stands hname) (by omega)
  · -- `::name`, with arguments or without
    intro dot _ hdot name _ hname args _ hargs
    have hdot := (token_stands hdot).bounds
    exact methodSuffix_stands ((token_stands hname).mono (by omega)) hargs
  · -- `[...]`
    intro _ _ _ _ items _ hitems hle closing _ hclosing _
    have hargs := Node.argumentsStand_mk (argumentList_stand hitems) hle (token_stands hclosing)
    exact hargs.mono (by omega)

/-- What follows a primary expression is applied to it step by step. -/
theorem applySuffixes?_stands {first : Node.Chain} {ops : List Node.Suffix} {k : Nat}
    (hfirst : ts.Frames i first.node k)
    (hops : Repeats ((Expr.call Symbol.suffix).Reads (standing ts version)) k ops j) :
    ∀ c ∈ Node.applySuffixes? version first ops, ts.Frames i c.node j := by
  induction hops generalizing first with
  | nil k =>
      rintro c ⟨⟩
      exact hfirst
  | cons head tail ih =>
      intro c hc
      obtain ⟨next, hnext, hc⟩ := Option.bind_eq_some_iff.mp hc
      exact ih (Node.applySuffix?_stands version hfirst head next hnext) c hc

theorem primaryRule_stands :
    primaryRule.Yields (standing ts version) i fun c j => ts.Frames i c.node j := by
  intro first _ hfirst ops _ hops c hc
  exact applySuffixes?_stands hfirst hops c hc

theorem atomRule_stands :
    atomRule.Yields (standing ts version) i fun c j => ts.Frames i c.node j := by
  refine Advances.yields ⟨?_, ?_, ?_, ?_, ?_, ?_, ?_, ?_, ?_, ?_, ?_, ?_, ?_⟩ standing_forward
  · -- a literal
    intro n _ hn _
    exact hn
  · -- a construct with an end of its own
    intro n _ hn _
    exact hn
  · -- `defined?(x)`
    intro kw _ hkw _ _ _ _ _ _ _ _ _ value _ hvalue _ _ _ _ _ closing _ hclosing _
    show ts.Frames i (Node.defined kw value (some closing)) _
    exact Node.defined_stands ((token_stands hkw).mono (by omega))
      (Node.Stands.mono hvalue (by omega))
      (Node.forall_mem_some ((token_stands hclosing).mono (by omega)))
  · -- `super`
    intro kw _ hkw _ args _ hargs hle
    refine Node.superChain_stands (token_stands hkw) (fun p hp => ?_) hle
    exact parenArguments_stand.reads (hargs.opt_some p hp)
  · -- `yield`
    intro kw _ hkw _ args _ hargs hle
    refine Node.yieldChain_stands (token_stands hkw) (fun p hp => ?_) hle
    exact parenArguments_stand.reads (hargs.opt_some p hp)
  · -- a jump that carries nothing
    intro kw _ hkw _
    show ts.Frames i (Node.jump kw []) _
    exact Node.jump_stands (token_stands hkw) (List.forall_mem_nil _)
  · -- `::Name`
    intro colons _ hcolons _ name _ hname _
    exact Node.topConstant_stands ((token_stands hname).mono (by omega))
      ((token_stands hcolons).mono (by omega))
  · -- `name(...)`
    intro name _ hname _ args _ hargs _
    exact Node.functionCall_stands (token_stands hname) (parenArguments_stand.reads hargs)
  · -- `name`
    intro t _ ht _
    exact Node.named_stands (token_stands ht)
  · -- `name?`, `name!`
    intro t _ ht _
    exact Node.nameCall_stands (token_stands ht)
  · -- `Name`
    intro t _ ht _
    exact Node.constant_stands (token_stands ht) (by simp)
  · -- `@name`, `$name`
    intro t _ ht _
    exact Node.markedVariable_stands (token_stands ht)
  · -- `->`
    refine .of_reads ?_
    rintro c j ⟨n, hn, rfl⟩
    exact lambda_stands.reads hn

/-! ## §8. Literals. -/

theorem stringPart_stands :
    stringPart.Yields (standing ts version) i
      fun part j => part.Stands ts.list (ts.reached i) (ts.reached j) := by
  refine Advances.yields ⟨?_, ?_⟩ standing_forward
  · intro t _ ht _
    exact Node.stands_mk (token_stands ht) (by simp)
  · intro opening _ hopening _ body _ hbody _ closing _ hclosing _
    have hbody := statements_stand hbody
    exact Node.between_stands (token_stands hopening) hbody.stands hbody.bounds
      (token_stands hclosing)

theorem stringParts_stand {parts : List Node.StringPart}
    (h : (Expr.star stringPart).Reads (standing ts version) i parts j) :
    ∀ part ∈ parts, part.Stands ts.list (ts.reached i) (ts.reached j) :=
  h.star_within (P := fun lo hi part => part.Stands ts.list lo hi) standing_forward
    (fun h hlo hhi => h.mono ⟨hlo, hhi⟩) fun _ _ _ h => stringPart_stands.reads h

theorem stringLiteral_stands : stringLiteral.Yields (standing ts version) i (ts.Frames i) := by
  refine Advances.yields ⟨?_, ?_⟩ standing_forward
  · intro opening _ hopening _ parts _ hparts hle closing _ hclosing _
    exact Node.string_stands (token_stands hopening) (stringParts_stand hparts) hle
      (token_stands hclosing)
  · intro t _ ht _
    exact Node.character_stands (token_stands ht)

theorem hashItem_stands : hashItem.Yields (standing ts version) i (ts.Frames i) := by
  refine Advances.yields ⟨?_, ?_, ?_, ?_⟩ standing_forward
  · -- `key: value`
    intro label _ hlabel _ _ _ _ _ value _ hvalue _
    exact Node.labelled_stands ((token_stands hlabel).mono (by omega))
      (Node.Stands.mono hvalue (by omega))
  · -- `key:`
    intro label _ hlabel _ _
    exact Node.labelAlone_stands (token_stands hlabel)
  · -- `**options`
    intro op _ hop _ value _ hvalue _
    exact Node.marked_stands ((token_stands hop).mono (by omega))
      (Node.Stands.mono hvalue (by omega))
  · -- `key => value`
    intro key _ hkey _ _ _ _ _ _ _ _ _ value _ hvalue _
    exact Node.joined_stands (Node.Stands.mono hkey (by omega)) (Node.Stands.mono hvalue (by omega))

theorem hashLiteral_stands : hashLiteral.Yields (standing ts version) i (ts.Frames i) := by
  refine Advances.yields ?_ standing_forward
  intro opening _ hopening _ _ _ _ _ pairs _ hpairs _ _ _ _ _ _ _ _ _ closing _ hclosing _
  have hpairs := sepBy_stand hpairs fun _ _ _ h => hashItem_stands.reads h
  exact Node.between_stands (token_stands hopening) (fun n hn => (hpairs n hn).mono (by omega))
    (by omega)
    (token_stands hclosing)

theorem literalRule_stands : literalRule.Yields (standing ts version) i (ts.Frames i) := by
  refine Advances.yields ⟨?_, ?_, ?_, ?_, ?_, ?_, ?_, ?_, ?_, ?_, ?_, ?_⟩ standing_forward
  · -- an integer
    intro t _ ht _
    exact Node.integer_stands (token_stands ht)
  · -- a float
    intro t _ ht _
    exact Node.float_stands (token_stands ht)
  · -- a rational number
    intro t _ ht _
    exact Node.rational_stands (token_stands ht)
  · -- an imaginary number
    intro t _ ht _
    exact Node.complex_stands (token_stands ht)
  · -- strings one after the other
    refine .of_reads ?_
    rintro n j ⟨ns, hns, rfl⟩
    obtain ⟨first, rest, _, rfl, -⟩ := hns.plus
    exact Node.concatenation_stands (List.cons_ne_nil _ _)
      (plus_stand hns fun _ _ _ h => stringLiteral_stands.reads h)
  · -- a command string
    intro opening _ hopening _ parts _ hparts hle closing _ hclosing _
    exact Node.commandString_stands (token_stands hopening) (stringParts_stand hparts) hle
      (token_stands hclosing)
  · -- `:name`
    intro t _ ht _
    exact Node.named_stands (token_stands ht)
  · -- a symbol between quotes
    intro opening _ hopening _ parts _ hparts hle closing _ hclosing _
    exact Node.quotedSymbol_stands (token_stands hopening) (stringParts_stand hparts) hle
      (token_stands hclosing)
  · -- `/pattern/`
    intro opening _ hopening _ parts _ hparts hle closing _ hclosing _ flags _ hflags _
    exact Node.regexp_stands (token_stands hopening) (stringParts_stand hparts) hle
      (token_stands hclosing) (token_stands hflags)
  · -- `[...]`
    intro opening _ hopening _ items _ hitems hle closing _ hclosing _
    exact Node.array_stands (token_stands hopening) (argumentList_stand hitems) hle
      (token_stands hclosing)
  · exact .of_reads fun n j h => hashLiteral_stands.reads h
  · -- the words that stand for a value
    refine ⟨?_, ?_, ?_, ?_, ?_, ?_, ?_, ?_, ?_⟩ <;>
    · intro t _ ht _
      exact Node.bare_stands (token_stands ht)

/-! ## §9. Statements. -/

theorem parenTargets_stands : parenTargets.Yields (standing ts version) i (ts.Frames i) := by
  refine Advances.yields ?_ standing_forward
  intro opening _ hopening _ items _ hitems _ _ _ _ _ closing _ hclosing _
  have hitems := sepBy1_stand hitems fun _ _ _ h => h
  exact Node.between_stands (token_stands hopening) (fun n hn => (hitems n hn).mono (by omega))
    (by omega)
    (token_stands hclosing)

theorem splatTarget_stands : splatTarget.Yields (standing ts version) i (ts.Frames i) := by
  refine Advances.yields ?_ standing_forward
  intro op _ hop _ target _ htarget _
  have htarget := opt_stands htarget fun _ _ _ h => target_stands.reads h
  exact Node.splat_stands ((token_stands hop).mono (by omega))
    fun n hn => (htarget n hn).mono (by omega)

theorem targetItemRule_stands :
    targetItemRule.Yields (standing ts version) i (ts.Frames i) :=
  ⟨parenTargets_stands, splatTarget_stands, target_stands⟩

theorem targets_stands : targets.Yields (standing ts version) i (ts.Frames i) := by
  refine ⟨Advances.yields ?_ standing_forward, .of_reads ?_, .of_reads ?_⟩
  · intro first _ hfirst _ _ _ _ _ rest _ hrest _ _ _ _ _
    have hrest := sepBy_stand hrest fun _ _ _ h => h
    refine Node.targets_stands (List.cons_ne_nil _ _) (List.forall_mem_cons.mpr ⟨?_, ?_⟩)
    · exact Node.Stands.mono hfirst (by omega)
    · exact fun n hn => (hrest n hn).mono (by omega)
  · rintro n j ⟨m, hm, rfl⟩
    exact Node.targets_stands (List.cons_ne_nil _ _)
      (List.forall_mem_singleton.mpr (splatTarget_stands.reads hm))
  · rintro n j ⟨m, hm, rfl⟩
    exact Node.targets_stands (List.cons_ne_nil _ _)
      (List.forall_mem_singleton.mpr (parenTargets_stands.reads hm))

theorem multipleAssignment_stands :
    multipleAssignment.Yields (standing ts version) i (ts.Frames i) := by
  refine targets_stands.mono fun left k hleft => ?_
  intro _ k' heq value j hvalue
  have hleft' := hleft.bounds
  have heq := heq.forward standing_forward
  have hvalue : ts.Frames k' value j := by
    rcases hvalue with hvalue | ⟨ns, hns, rfl⟩
    · exact hvalue
    · exact Node.multipleValues_stands (ne_nil_of_sepBy1 hns) (splatsOrArguments_stand hns)
  have hvalue' := hvalue.bounds
  exact Node.joined_stands (hleft.mono (by omega)) (hvalue.mono (by omega))

theorem severalValues_stands : severalValues.Yields (standing ts version) i (ts.Frames i) := by
  refine Advances.yields ?_ standing_forward
  intro target _ htarget _ _ _ _ _ items _ hitems _ n hn
  exact Node.assignValues?_stands (ne_nil_of_sepBy1 hitems)
    (fun n hn => (splatsOrArguments_stand hitems n hn).mono (by omega))
    (Node.Stands.mono htarget (by omega)) n hn

theorem methodName_stands : methodName.Yields (standing ts version) i (ts.Frames i) := by
  intro t _ ht
  exact Node.named_stands (token_stands ht)

theorem globalVariable_stands : globalVariable.Yields (standing ts version) i (ts.Frames i) := by
  intro t _ ht
  exact Node.markedVariable_stands (token_stands ht)

theorem plainStatement_stands : plainStatement.Yields (standing ts version) i (ts.Frames i) := by
  refine ⟨?_, ?_, Advances.yields ?_ standing_forward, Advances.yields ?_ standing_forward,
    multipleAssignment_stands, severalValues_stands, ?_⟩
  · -- `alias $new $old`
    intro kw _ hkw new _ hnew old _ hold
    exact Node.aliasDef_stands (token_stands hkw) (globalVariable_stands.reads hnew)
      (globalVariable_stands.reads hold)
  · -- `alias new old`
    intro kw _ hkw new _ hnew old _ hold
    exact Node.aliasDef_stands (token_stands hkw) (methodName_stands.reads hnew)
      (methodName_stands.reads hold)
  · -- `undef a, b`
    intro kw _ hkw _ names _ hnames _
    have hnames := sepBy1_stand hnames fun _ _ _ h => methodName_stands.reads h
    exact Node.undefNames_stands ((token_stands hkw).mono (by omega))
      fun n hn => (hnames n hn).mono (by omega)
  · -- a block before or after the program
    intro kw _ hkw _ _ _ _ _ ns _ hns _ closing _ hclosing _
    have hns := statements_stand hns
    exact Node.beforeOrAfter_stands (token_stands hkw)
      (fun n hn => (hns.stands n hn).mono (by omega))
      (by omega) (token_stands hclosing)
  · -- an expression
    intro n _ hn
    exact hn

theorem modifier_stands :
    modifier.Yields (standing ts version) i fun m j =>
      m.1.span.Stands ts.list (ts.reached i) (ts.reached j) ∧ ts.Frames i m.2 j := by
  refine Advances.yields ?_ standing_forward
  intro kw _ hkw _ value _ hvalue _
  exact ⟨(token_stands hkw).mono (by omega), Node.Stands.mono hvalue (by omega)⟩

theorem statementRule_stands : statementRule.Yields (standing ts version) i (ts.Frames i) := by
  refine plainStatement_stands.mono fun s k hs => ?_
  intro mods j hmods
  have hk := hs.bounds
  have hj := hmods.forward standing_forward
  replace hmods := hmods.star_within
    (P := fun lo hi m => m.1.span.Stands ts.list lo hi ∧ m.2.Stands ts.list lo hi)
    standing_forward (fun h hlo hhi => ⟨h.1.mono ⟨hlo, hhi⟩, h.2.mono ⟨hlo, hhi⟩⟩)
    fun _ _ _ h => modifier_stands.reads h
  -- the modifiers are joined one after the other, all within the same bounds
  replace hs : ts.Frames i s j := hs.mono (by omega)
  induction mods generalizing s with
  | nil => exact hs
  | cons m mods ih =>
      obtain ⟨⟨hkw, hvalue⟩, hmods⟩ := List.forall_mem_cons.mp hmods
      exact ih _ hmods (Node.modified_stands hs (hkw.mono (by omega)) (hvalue.mono (by omega)))

theorem statementsRule_stands :
    statementsRule.Yields (standing ts version) i fun ns j =>
      Node.StatementsStand ts.list (ts.reached i) (ts.reached j) ns := by
  refine Advances.yields ?_ standing_forward
  intro _ k _ _ ns k' hns _ _ j _ _
  have hall := sepBy_stand hns fun _ _ _ h => h
  refine ⟨by omega, fun n hn => (hall n hn).mono (by omega), fun first hfirst => ?_⟩
  rcases hns.sepBy with hns | ⟨rfl, -⟩
  · -- the others were read after the first, so none of them begins before it
    obtain ⟨s, rest, l, rfl, hs, hl, hrest⟩ := sepBy1_first hns fun _ _ _ h => h
    cases hfirst
    have hspan := Node.Stands.span hs
    have hle := Nat.le_trans hspan.le hspan.le_hi
    refine List.forall_mem_cons.mpr ⟨?_, fun n hn => (hrest n hn).mono (by omega)⟩
    exact Node.Stands.narrow hs (Nat.le_refl _) (Nat.le_trans hspan.le_hi (by omega))
  · cases hfirst

/-! ## §10. Conditionals, loops and choices. -/

theorem elseBranch_stands {no : Option (Option Node)}
    (h : (opt (.call Symbol.elseBranch)).Reads (standing ts version) i no j) :
    ∀ n ∈ no.join, ts.Frames i n j := by
  intro n hn
  obtain rfl := Option.join_eq_some_iff.mp hn
  have hbranch := h.opt_some _ rfl
  exact hbranch.2 n rfl

theorem ifExpression_stands : ifExpression.Yields (standing ts version) i (ts.Frames i) := by
  refine Advances.yields ?_ standing_forward
  intro kw _ hkw _ cond _ hcond _ _ _ _ _ yes _ hyes _ no _ hno _ closing _ hclosing _
  have hyes := block_stands.reads hyes
  have hno := elseBranch_stands hno
  have hclosing := token_stands hclosing
  exact Node.conditional_stands (token_stands hkw) (Node.Stands.mono hcond (by omega))
    (fun n hn => (hyes n hn).mono (by omega)) (fun n hn => (hno n hn).mono (by omega))
    (hclosing.mono (by omega))
    (Nat.le_trans hclosing.lo_le hclosing.le)

theorem elseBranchRule_stands :
    elseBranchRule.Yields (standing ts version) i fun branch j =>
      ts.reached i ≤ ts.reached j ∧ ∀ n ∈ branch, ts.Frames i n j := by
  refine Advances.yields ⟨?_, ?_⟩ standing_forward
  · intro kw _ hkw _ cond _ hcond _ _ _ _ _ yes _ hyes _ no _ hno _
    have hyes := block_stands.reads hyes
    have hno := elseBranch_stands hno
    refine ⟨by omega, Node.forall_mem_some (Node.elseIf_stands (token_stands hkw)
      (Node.Stands.mono hcond (by omega)) (fun n hn => (hyes n hn).mono (by omega)) fun n
      hn => (hno n hn).mono (by omega))⟩
  · intro _ _ _ _ no _ hno _
    have hno := block_stands.reads hno
    exact ⟨by omega, fun n hn => (hno n hn).mono (by omega)⟩

theorem unlessExpression_stands :
    unlessExpression.Yields (standing ts version) i (ts.Frames i) := by
  refine Advances.yields ?_ standing_forward
  intro kw _ hkw _ cond _ hcond _ _ _ _ _ no _ hno _ yes k hyes _ closing _ hclosing _
  have hno := block_stands.reads hno
  have hclosing := token_stands hclosing
  refine Node.conditional_stands (token_stands hkw) (Node.Stands.mono hcond (by omega))
    (fun n hn => ?_)
    (fun n hn => (hno n hn).mono (by omega)) (hclosing.mono (by omega))
    (Nat.le_trans hclosing.lo_le hclosing.le)
  obtain rfl := Option.join_eq_some_iff.mp hn
  obtain ⟨l, _, helse, h⟩ := (hyes.opt_some _ rfl).seqRight
  have helse := helse.forward standing_forward
  exact (block_stands.reads h n rfl).mono (by omega)

theorem loopExpression_stands : loopExpression.Yields (standing ts version) i (ts.Frames i) := by
  refine Advances.yields ?_ standing_forward
  intro kw _ hkw _ cond _ hcond _ _ _ _ _ body _ hbody _ closing _ hclosing _
  have hbody := block_stands.reads hbody
  exact Node.conditionLoop_stands (token_stands hkw) (fun n hn => (hbody n hn).mono (by omega))
    (token_stands hclosing) (Node.Stands.mono hcond (by omega))

theorem loopVariables_stands : loopVariables.Yields (standing ts version) i (ts.Frames i) :=
  ⟨targets_stands, target_stands⟩

theorem forExpression_stands : forExpression.Yields (standing ts version) i (ts.Frames i) := by
  refine Advances.yields ?_ standing_forward
  intro kw _ hkw _ var _ hvar _ _ _ _ _ elements _ helements _ _ _ _ _ body _ hbody _
    closing _ hclosing _
  have hvar := loopVariables_stands.reads hvar
  have hbody := block_stands.reads hbody
  exact Node.forLoop_stands (token_stands hkw) (fun n hn => (hbody n hn).mono (by omega))
    (token_stands hclosing) (hvar.mono (by omega)) (Node.Stands.mono helements (by omega))

theorem elseClause_stands {otherwise : Option Node.ElseClause}
    (h : (opt elseClause).Reads (standing ts version) i otherwise j) :
    ∀ clause ∈ otherwise, Node.ElseStands ts.list (ts.reached i) (ts.reached j) clause := by
  intro clause hclause
  obtain ⟨k, g, ⟨kw, hkw, rfl⟩, body, hbody, rfl⟩ := h.opt_some clause hclause
  have hkw := token_stands hkw
  have hkw' := hkw.bounds
  have hbody' := hbody.forward standing_forward
  exact ⟨hkw.mono (by omega), fun n hn => (block_stands.reads hbody n hn).mono (by omega)⟩

theorem whenClause_stands : whenClause.Yields (standing ts version) i (ts.Frames i) := by
  refine Advances.yields ?_ standing_forward
  intro kw _ hkw _ values _ hvalues _ _ _ _ _ body _ hbody _
  have hvalues := splatsOrArguments_stand hvalues
  have hbody := block_stands.reads hbody
  exact Node.whenClause_stands ((token_stands hkw).mono (by omega))
    (fun n hn => (hvalues n hn).mono (by omega))
    fun n hn => (hbody n hn).mono (by omega)

theorem patternGuard_stands : patternGuard.Yields (standing ts version) i (ts.Frames i) := by
  refine Advances.yields ?_ standing_forward
  intro kw _ hkw _ cond _ hcond _
  exact Node.marked_stands ((token_stands hkw).mono (by omega)) (Node.Stands.mono hcond (by omega))

theorem inClause_stands : inClause.Yields (standing ts version) i (ts.Frames i) := by
  refine Advances.yields ?_ standing_forward
  intro kw _ hkw _ pattern _ hpattern _ guard _ hguard _ _ _ _ _ body _ hbody _
  have hguard := opt_stands hguard fun _ _ _ h => patternGuard_stands.reads h
  have hbody := block_stands.reads hbody
  exact Node.inPattern_stands ((token_stands hkw).mono (by omega))
    (Node.Stands.mono hpattern (by omega))
    (fun n hn => (hguard n hn).mono (by omega)) fun n hn => (hbody n hn).mono (by omega)

theorem caseExpression_stands : caseExpression.Yields (standing ts version) i (ts.Frames i) := by
  refine Advances.yields ⟨?_, ?_⟩ standing_forward
  · intro kw _ hkw _ subject _ hsubject _ _ _ _ _ clauses _ hclauses _ otherwise _ hotherwise _
      closing _ hclosing _
    have hsubject := opt_stands hsubject fun _ _ _ h => h
    have hclauses := plus_stand hclauses fun _ _ _ h => whenClause_stands.reads h
    have hotherwise := elseClause_stands hotherwise
    exact Node.caseWhen_stands (token_stands hkw) (fun n hn => (hclauses n hn).mono (by omega))
      (fun clause h => (hotherwise clause h).mono (by omega)) (token_stands hclosing) (by omega)
      fun n hn => (hsubject n hn).mono (by omega)
  · intro kw _ hkw _ subject _ hsubject _ _ _ _ _ clauses _ hclauses _ otherwise _ hotherwise _
      closing _ hclosing _ _
    have hclauses := plus_stand hclauses fun _ _ _ h => inClause_stands.reads h
    have hotherwise := elseClause_stands hotherwise
    exact Node.caseMatch_stands (token_stands hkw) (fun n hn => (hclauses n hn).mono (by omega))
      (fun clause h => (hotherwise clause h).mono (by omega)) (token_stands hclosing)
      (Node.Stands.mono hsubject (by omega))

/-! ## §11. Bodies and definitions. -/

theorem rescueVariable_stands : rescueVariable.Yields (standing ts version) i (ts.Frames i) := by
  refine Advances.yields ?_ standing_forward
  intro _ _ _ _ t _ ht _
  exact (target_stands.reads ht).mono (by omega)

theorem rescueClause_stands : rescueClause.Yields (standing ts version) i (ts.Frames i) := by
  refine Advances.yields ?_ standing_forward
  intro kw _ hkw _ classes _ hclasses _ var _ hvar _ _ _ _ _ body _ hbody _
  have hvar := opt_stands hvar fun _ _ _ h => rescueVariable_stands.reads h
  have hbody := block_stands.reads hbody
  refine Node.rescueClause_stands ((token_stands hkw).mono (by omega)) (fun ns hns => ?_)
    (fun n hn => (hvar n hn).mono (by omega)) fun n hn => (hbody n hn).mono (by omega)
  have hns := hclasses.opt_some ns hns
  exact ⟨ne_nil_of_sepBy1 hns, fun n hn => (splatsOrArguments_stand hns n hn).mono (by omega)⟩

theorem bodyRule_stands :
    bodyRule.Yields (standing ts version) i fun ns j =>
      ts.reached i ≤ ts.reached j ∧ ∀ n ∈ ns, ts.Frames i n j := by
  refine Advances.yields ?_ standing_forward
  intro ns _ hns _ rescues _ hrescues _ otherwise k hotherwise _ ensure _ hensure _
  have hrescues := hrescues.star_within (P := Node.Stands ts.list) standing_forward
    (fun h hlo hhi => h.mono ⟨hlo, hhi⟩) fun _ _ _ h => rescueClause_stands.reads h
  refine ⟨by omega, Node.bodyStatements_stand (b := ts.reached k) (statements_stand hns)
    (fun n hn => (hrescues n hn).mono (by omega)) (fun more hmore n hn => ?_) (by omega) (by omega)
    (fun e he => ?_)⟩
  · obtain ⟨k, _, helse, h⟩ := (hotherwise.opt_some more hmore).seqRight
    have helse := helse.forward standing_forward
    exact ((statements_stand h).stands n hn).mono (by omega)
  · obtain ⟨k, g, ⟨kw, hkw, rfl⟩, last, hlast, rfl⟩ := hensure.opt_some e he
    have hkw := token_stands hkw
    have hkw' := hkw.bounds
    have hlast := statements_stand hlast
    have hlast' := hlast.bounds
    exact ⟨hkw.mono (by omega), fun n hn => (hlast.stands n hn).mono (by omega)⟩

theorem beginExpression_stands :
    beginExpression.Yields (standing ts version) i (ts.Frames i) := by
  intro kw _ hkw ns _ hns closing _ hclosing
  exact Node.between_stands (token_stands hkw) hns.2 hns.1 (token_stands hclosing)

theorem parenExpression_stands :
    parenExpression.Yields (standing ts version) i (ts.Frames i) := by
  intro opening _ hopening ns _ hns closing _ hclosing
  have hns := statements_stand hns
  exact Node.between_stands (token_stands hopening) hns.stands hns.bounds (token_stands hclosing)

theorem methodHead_stands :
    methodHead.Yields (standing ts version) i fun head j =>
      head.Stands ts.list (ts.reached i) (ts.reached j) := by
  refine Advances.yields ⟨?_, ?_⟩ standing_forward
  · intro object _ hobject _ _ _ _ _ name _ hname _
    have hobject := Node.methodReceiver_stands (token_stands hobject)
    exact ⟨Node.forall_mem_some (hobject.mono (by omega)), token_mem hname,
      (token_stands hname).mono (by omega)⟩
  · intro name _ hname _
    exact ⟨by simp, token_mem hname, token_stands hname⟩

theorem getD_noParams_lies {params : Option Node} {after : Token} {lo hi : Nat}
    (h : ∀ n ∈ params, n.Stands ts.list lo hi) (hmem : after ∈ ts.list)
    (hafter : after.span.Stands ts.list lo hi) :
    (params.getD (Node.noParams after)).Lies ts.list lo hi := by
  cases params with
  | none => exact Node.missing_lies hmem hafter
  | some n => exact (h n rfl).lies

theorem methodDefinition_stands :
    methodDefinition.Yields (standing ts version) i (ts.Frames i) := by
  refine Advances.yields ⟨?_, ?_⟩ standing_forward
  · intro kw _ hkw _ head _ hhead _ params _ hparams _ _ _ _ _ value _ hvalue _ _
    have hhead := methodHead_stands.reads hhead
    have hparams := opt_stands hparams fun _ _ _ h => parenParams_stands.reads h
    have hspan := Node.Stands.span hvalue
    have hstop := Nat.le_trans hspan.lo_le hspan.le
    exact Node.methodDef_stands (token_stands hkw)
      (Node.forall_mem_some (Node.Stands.narrow hvalue (Nat.le_trans (by omega) hspan.lo_le)
        (Nat.le_refl _)))
      (hhead.mono (by omega))
      (getD_noParams_lies (fun n hn => (hparams n hn).mono (by omega)) hhead.name_mem
        (hhead.name.mono (by omega)))
      (hspan.mono (by omega)) (Nat.le_refl _)
  · intro kw _ hkw _ head _ hhead _ params _ hparams _ body _ hbody _ closing _ hclosing _
    have hhead := methodHead_stands.reads hhead
    have hparams := opt_stands hparams fun _ _ _ h => methodParams_stands.reads h
    have hbody := fullBlock_stands.reads hbody
    have hclosing := token_stands hclosing
    exact Node.methodDef_stands (token_stands hkw) (fun n hn => (hbody n hn).mono (by omega))
      (hhead.mono (by omega))
      (getD_noParams_lies (fun n hn => (hparams n hn).mono (by omega)) hhead.name_mem
        (hhead.name.mono (by omega)))
      (hclosing.mono (by omega)) (Nat.le_trans hclosing.lo_le hclosing.le)

theorem constantPath_stands : constantPath.Yields (standing ts version) i (ts.Frames i) := by
  intro c _ hc n hn
  dsimp only at hn
  split at hn
  · cases hn
    exact hc
  · cases hn

theorem classDefinition_stands :
    classDefinition.Yields (standing ts version) i (ts.Frames i) := by
  refine Advances.yields ⟨?_, ?_⟩ standing_forward
  · intro kw _ hkw _ _ _ _ _ object _ hobject _ body _ hbody _ closing _ hclosing _
    have hbody := fullBlock_stands.reads hbody
    exact Node.singletonClass_stands (token_stands hkw) (fun n hn => (hbody n hn).mono (by omega))
      (by omega)
      (token_stands hclosing) (Node.Stands.mono hobject (by omega))
  · intro kw _ hkw _ name _ hname _ parent _ hparent _ body _ hbody _ closing _ hclosing _
    have hname := constantPath_stands.reads hname
    have hbody := fullBlock_stands.reads hbody
    refine Node.classDef_stands (token_stands hkw) (fun n hn => (hbody n hn).mono (by omega))
      (by omega) (token_stands hclosing) (hname.mono (by omega)) fun n hn => ?_
    obtain ⟨k, _, hlt, h⟩ := (hparent.opt_some n hn).seqRight
    have hlt := hlt.forward standing_forward
    exact Node.Stands.mono h (by omega)

theorem moduleDefinition_stands :
    moduleDefinition.Yields (standing ts version) i (ts.Frames i) := by
  refine Advances.yields ?_ standing_forward
  intro kw _ hkw _ name _ hname _ body _ hbody _ closing _ hclosing _
  have hname := constantPath_stands.reads hname
  have hbody := fullBlock_stands.reads hbody
  exact Node.moduleDef_stands (token_stands hkw) (fun n hn => (hbody n hn).mono (by omega))
    (by omega)
    (token_stands hclosing) (hname.mono (by omega))

theorem compoundRule_stands : compoundRule.Yields (standing ts version) i (ts.Frames i) :=
  ⟨ifExpression_stands, unlessExpression_stands, loopExpression_stands, forExpression_stands,
    caseExpression_stands, beginExpression_stands, methodDefinition_stands,
    classDefinition_stands, moduleDefinition_stands, parenExpression_stands⟩

/-! ## §12. Patterns. -/

theorem patternRest_stands : patternRest.Yields (standing ts version) i (ts.Frames i) := by
  refine Advances.yields ?_ standing_forward
  intro star _ hstar _ name _ hname _
  exact Node.matchRest_stands ((token_stands hstar).mono (by omega))
    fun t ht => (optToken_stands hname t ht).mono (by omega)

theorem patternItem_stands : patternItem.Yields (standing ts version) i (ts.Frames i) := by
  refine ⟨patternRest_stands, ?_⟩
  intro n _ hn
  exact hn

theorem keyPatternRule_stands :
    keyPatternRule.Yields (standing ts version) i (ts.Frames i) := by
  refine Advances.yields ⟨?_, ?_, ?_, ?_⟩ standing_forward
  · -- `key: pattern`
    intro label _ hlabel _ pattern _ hpattern _
    exact Node.labelled_stands ((token_stands hlabel).mono (by omega))
      (Node.Stands.mono hpattern (by omega))
  · -- `key:`
    intro label _ hlabel _
    exact Node.named_stands (token_stands hlabel)
  · -- `**nil`
    intro star _ hstar _ nil_ _ hnil _
    exact Node.matchNoRest_stands ((token_stands hstar).mono (by omega))
      ((token_stands hnil).mono (by omega))
  · -- `**name`, `**`
    intro star _ hstar _ name _ hname _
    exact Node.matchRest_stands ((token_stands hstar).mono (by omega))
      fun t ht => (optToken_stands hname t ht).mono (by omega)

theorem constants_stand {head : Node} {k : Nat} {names : List Token}
    (hhead : ts.Frames i head k)
    (h : (Expr.star (tok .tCOLON2 *> tok .tCONSTANT)).Reads (standing ts version) k names j) :
    ts.Frames i (names.foldl (fun scope n => Node.constant (some scope) n) head) j := by
  have hk := hhead.bounds
  have hj := h.forward standing_forward
  have hnames := h.star_within (P := fun lo hi t => t.span.Stands ts.list lo hi)
    standing_forward (fun h hlo hhi => h.mono ⟨hlo, hhi⟩) fun i t j h => by
      obtain ⟨k, _, hcolons, h⟩ := h.seqRight
      have hcolons := hcolons.forward standing_forward
      exact (token_stands h).mono (by omega)
  clear h
  -- each name makes what was read so far its scope, all within the same bounds
  replace hhead : ts.Frames i head j := hhead.mono (by omega)
  induction names generalizing head with
  | nil => exact hhead
  | cons name names ih =>
      obtain ⟨hname, hnames⟩ := List.forall_mem_cons.mp hnames
      exact ih hnames (Node.constant_stands (hname.mono (by omega)) (Node.forall_mem_some hhead))

theorem patternConstant_stands :
    patternConstant.Yields (standing ts version) i (ts.Frames i) := by
  constructor
  · intro colons _ hcolons name _ hname names _ hnames
    have hcolons := token_stands hcolons
    have hname := token_stands hname
    have hcolons' := hcolons.bounds
    have hname' := hname.bounds
    exact constants_stand
      (Node.topConstant_stands (hname.mono (by omega)) (hcolons.mono (by omega))) hnames
  · intro name _ hname names _ hnames
    exact constants_stand (Node.constant_stands (token_stands hname) (by simp)) hnames

theorem patternScalar_stands : patternScalar.Yields (standing ts version) i (ts.Frames i) := by
  refine Advances.yields ?_ standing_forward
  intro _ _ _ _ n _ hn _
  exact (primaryNode_stands.reads hn).mono (by omega)

theorem patternValue_stands : patternValue.Yields (standing ts version) i (ts.Frames i) := by
  refine ⟨Advances.yields ?_ standing_forward, Advances.yields ?_ standing_forward,
    Advances.yields ?_ standing_forward, patternScalar_stands⟩
  · -- `a..b`
    intro _ _ _ _ lhs _ hlhs _ op _ hop _ rhs _ hrhs _
    have hlhs := primaryNode_stands.reads hlhs
    have hrhs := patternScalar_stands.reads hrhs
    exact Node.range_stands ((token_stands hop).mono (by omega))
      (Node.forall_mem_some (hlhs.mono (by omega)))
      (Node.forall_mem_some (hrhs.mono (by omega)))
  · -- `a..`
    intro _ _ _ _ lhs _ hlhs _ op _ hop _
    have hlhs := primaryNode_stands.reads hlhs
    exact Node.range_stands ((token_stands hop).mono (by omega))
      (Node.forall_mem_some (hlhs.mono (by omega))) (by simp)
  · -- `..b`
    intro op _ hop _ rhs _ hrhs _
    have hrhs := patternScalar_stands.reads hrhs
    exact Node.range_stands ((token_stands hop).mono (by omega)) (by simp)
      (Node.forall_mem_some (hrhs.mono (by omega)))

theorem pinTarget_stands : pinTarget.Yields (standing ts version) i (ts.Frames i) := by
  refine ⟨?_, ?_, ?_⟩
  · intro opening _ hopening value _ hvalue closing _ hclosing
    exact Node.between_stands (token_stands hopening) (List.forall_mem_singleton.mpr hvalue)
      (Node.Stands.bounds hvalue) (token_stands hclosing)
  · intro t _ ht
    exact Node.named_stands (token_stands ht)
  · intro t _ ht
    exact Node.markedVariable_stands (token_stands ht)

/-- The parts of an object between brackets, after its class. -/
theorem parts_stand {scope : Node} {opening closing : Token} {items : List Node} {kind : Node.Kind}
    {lo hi a b c : Nat} (hscope : scope.Stands ts.list lo a)
    (hopening : opening.span.Stands ts.list a b) (hitems : ∀ n ∈ items, n.Stands ts.list b c)
    (hbc : b ≤ c) (hclosing : closing.span.Stands ts.list c hi) :
    (Node.constPattern scope (.mk kind (Node.slots items) (opening.span.join closing.span))
      closing).Stands ts.list lo hi := by
  have hinner : (Node.mk kind (Node.slots items) (opening.span.join closing.span)).Stands
      ts.list a hi := Node.between_stands hopening hitems hbc hclosing
  have hab := hopening.bounds
  apply Node.constPattern_stands hscope hinner (hclosing.mono (by omega))
  obtain ⟨-, -, hopening', -⟩ := hopening
  obtain ⟨hclosing', hproper, -, -⟩ := hclosing
  show (opening.span.join closing.span).stop ≤ _
  rw [Span.join_stop]
  omega

theorem patternPrimary_stands :
    patternPrimary.Yields (standing ts version) i (ts.Frames i) := by
  refine ⟨Advances.yields ?_ standing_forward, Advances.yields ?_ standing_forward, .of_reads ?_,
    .of_reads ?_, Advances.yields ?_ standing_forward, patternValue_stands, ?_⟩
  · -- `[...]`
    intro opening _ hopening _ items _ hitems _ trailing _ _ _ closing _ hclosing _
    have hitems := sepBy_stand hitems fun _ _ _ h => patternItem_stands.reads h
    exact Node.between_stands (token_stands hopening) (fun n hn => (hitems n hn).mono (by omega))
      (by omega)
      (token_stands hclosing)
  · -- `{...}`
    intro opening _ hopening _ _ _ _ _ items _ hitems _ _ _ _ _ _ _ _ _ closing _ hclosing _
    have hitems := sepBy_stand hitems fun _ _ _ h => h
    exact Node.between_stands (token_stands hopening) (fun n hn => (hitems n hn).mono (by omega))
      (by omega)
      (token_stands hclosing)
  · -- `Name(key: ...)`
    rintro n j ⟨_, _, ⟨_, _, ⟨_, _, ⟨scope, hscope, rfl⟩, opening, hopening, rfl⟩, items, hitems,
      rfl⟩, closing, hclosing, rfl⟩
    exact parts_stand (patternConstant_stands.reads hscope) (token_stands hopening)
      (sepBy1_stand hitems fun _ _ _ h => h) (hitems.forward standing_forward)
      (token_stands hclosing)
  · -- `Name(...)`
    rintro n j ⟨_, _, ⟨_, _, ⟨_, _, ⟨_, _, ⟨scope, hscope, rfl⟩, opening, hopening, rfl⟩, items,
      hitems, rfl⟩, trailing, htrailing, rfl⟩, closing, hclosing, rfl⟩
    have hitems' := sepBy_stand hitems fun _ _ _ h => patternItem_stands.reads h
    have hle := hitems.forward standing_forward
    have htrailing := htrailing.forward standing_forward
    exact parts_stand (patternConstant_stands.reads hscope) (token_stands hopening)
      (fun n hn => (hitems' n hn).mono (by omega)) (by omega) (token_stands hclosing)
  · -- `^x`
    intro caret _ hcaret _ value _ hvalue _
    have hvalue := pinTarget_stands.reads hvalue
    exact Node.marked_stands ((token_stands hcaret).mono (by omega)) (hvalue.mono (by omega))
  · intro t _ ht
    exact Node.named_stands (token_stands ht)

theorem patternAlternatives_stands :
    patternAlternatives.Yields (standing ts version) i (ts.Frames i) := by
  refine patternPrimary_stands.mono fun first k hfirst => ?_
  intro rest j hrest
  have hk := hfirst.bounds
  have hj := hrest.forward standing_forward
  replace hrest := hrest.star_within (P := Node.Stands ts.list) standing_forward
    (fun h hlo hhi => h.mono ⟨hlo, hhi⟩) fun i n j h => by
      obtain ⟨k, _, hpipe, h⟩ := h.seqRight
      have hpipe := hpipe.forward standing_forward
      exact (patternPrimary_stands.reads h).mono (by omega)
  -- the alternatives are joined one after the other, all within the same bounds
  replace hfirst : ts.Frames i first j := hfirst.mono (by omega)
  induction rest generalizing first with
  | nil => exact hfirst
  | cons n rest ih =>
      obtain ⟨hn, hrest⟩ := List.forall_mem_cons.mp hrest
      exact ih _ hrest (Node.joined_stands hfirst (hn.mono (by omega)))

theorem patternRule_stands : patternRule.Yields (standing ts version) i (ts.Frames i) := by
  refine ⟨.of_reads ?_, patternAlternatives_stands⟩
  rintro n j ⟨_, _, ⟨_, _, ⟨_, ⟨pattern, hpattern, rfl⟩, rfl⟩, _, hassoc, rfl⟩, name, hname, rfl⟩
  have hpattern := patternAlternatives_stands.reads hpattern
  have hpattern' := hpattern.bounds
  have hassoc := hassoc.forward standing_forward
  have hname := token_stands hname
  have hname' := hname.bounds
  exact Node.matchAs_stands (hpattern.mono (by omega)) (hname.mono (by omega))

theorem topPatternRule_stands :
    topPatternRule.Yields (standing ts version) i (ts.Frames i) := by
  refine ⟨.of_reads ?_, Advances.yields ?_ standing_forward⟩
  · rintro n j ⟨items, hitems, rfl⟩
    exact Node.cover_stands (ne_nil_of_sepBy1 hitems) (sepBy1_stand hitems fun _ _ _ h => h)
  · refine .of_reads ?_
    rintro n j ⟨k, g, ⟨items, hitems, rfl⟩, trailing, htrailing, rfl⟩
    have hitems' := sepBy1_stand hitems fun _ _ _ h => patternItem_stands.reads h
    have htrailing := htrailing.forward standing_forward
    exact Node.topPattern_stands (ne_nil_of_sepBy1 hitems)
      (fun n hn => (hitems' n hn).mono (by omega))
      trailing

/-! ## §13. The grammar. -/

/-- **The grammar places nodes where they are read.** -/
theorem language_stands : language.Closed (standing ts version) := by
  intro s i v j h
  cases s with
  | statements => exact statementsRule_stands.reads h
  | statement => exact statementRule_stands.reads h
  | expression level => exact (expressionRule_stands level).reads h
  | expressionAtom => exact expressionAtomRule_stands.reads h
  | commandCall => exact commandCallRule_stands.reads h
  | command => exact commandRule_stands.reads h
  | argument => exact argumentRule_stands.reads h
  | ternary => exact ternaryRule_stands.reads h
  | range => exact rangeRule_stands.reads h
  | operation level => exact (operationRule_stands level).reads h
  | operand => exact operandRule_stands.reads h
  | assigned => exact assignedRule_stands.reads h
  | callArgument => exact callArgumentRule_stands.reads h
  | primary => exact primaryRule_stands.reads h
  | suffix => exact suffixRule_stands.reads h
  | atom => exact atomRule_stands.reads h
  | literal => exact literalRule_stands.reads h
  | compound => exact compoundRule_stands.reads h
  | elseBranch => exact elseBranchRule_stands.reads h
  | body => exact bodyRule_stands.reads h
  | targetItem => exact targetItemRule_stands.reads h
  | param ofBlock => exact (paramRule_stands ofBlock).reads h
  | topPattern => exact topPatternRule_stands.reads h
  | pattern => exact patternRule_stands.reads h
  | keyPattern => exact keyPatternRule_stands.reads h

/-- The tree of a program before its names are resolved is placed. -/
theorem readProgram_placed {root : Option Node} (h : readProgram ts.list version = .ok root) :
    ∀ n ∈ root, Node.Everywhere (Node.Placed ts.list) n := by
  obtain ⟨j, h⟩ := Rules.reads_of_parse (g := language) (c := standing ts version)
    language_stands h
  obtain ⟨_, _, h, -⟩ := h.seqLeft
  exact fun n hn => (block_stands.reads h n hn).placed

end Grammar

end RubySyntax
