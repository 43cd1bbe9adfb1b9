/-
  RubySyntax.Proofs.Tree.Kept.Rules
  ─────────────────────────────────
  **THE RULES OF THE GRAMMAR KEEP WHAT HOLDS OF THE WATCHED NODES.**

  An expression retains a property if all values that it can give have it.  Each rule retains a
  property of watched nodes if the symbols that it refers to do; only the rules of the loops, of
  multiple assignments and of the modifiers have to be looked at for the property itself.

  Main results:
    • `rule_retains` — every rule retains a property of watched nodes, given that the rules that
      make them do.
-/
import RubySyntax.Grammar.Program
import RubySyntax.Proofs.Grammar.Yields
import RubySyntax.Proofs.Tree.Kept

namespace RubySyntax.Grammar

open Token Grammar.Expr
open Node hiding Kind

/-! ## §1. Expressions. -/

/-- Every value that an expression can give has a property. -/
def Expr.Retains {α : Type} [HasNodes α] (c : Context Symbol Symbol.Result) (P : Node → Prop)
    (e : Rule α) : Prop :=
  ∀ i v j, e.Reads c i v j → AllNodes P v

namespace Expr.Retains

variable {c : Context Symbol Symbol.Result} {P : Node → Prop} {α β : Type} [HasNodes α] [HasNodes β]
  {x : Rule α} {y : Rule β}

theorem token {kinds : List Kind} : (.token kinds : Rule Token).Retains c P :=
  fun _ _ _ _ => trivial

theorem seq {f : Rule (α → β)} (hf : f.Retains c P) (hx : x.Retains c P) :
    (f <*> x).Retains c P := by
  rintro i v j ⟨k, g, hg, a, ha, rfl⟩
  exact hf _ _ _ hg a (hx _ _ _ ha)

theorem map {f : α → β} (hx : x.Retains c P) (hf : ∀ a, AllNodes P a → AllNodes P (f a)) :
    (f <$> x).Retains c P := by
  rintro i v j ⟨a, ha, rfl⟩
  exact hf a (hx _ _ _ ha)

theorem check {f : Version → α → Option β} (hx : x.Retains c P)
    (hf : ∀ v a, AllNodes P a → ∀ b ∈ f v a, AllNodes P b) :
    (Expr.check f x : Rule β).Retains c P := by
  rintro i v j ⟨a, ha, hv⟩
  exact hf _ a (hx _ _ _ ha) v hv

theorem since {v : Version} (hx : x.Retains c P) : (Expr.since v x).Retains c P :=
  fun _ _ _ h => hx _ _ _ h.1

theorem orElse {a b : Rule α} (ha : a.Retains c P) (hb : b.Retains c P) :
    (a <|> b).Retains c P :=
  fun _ _ _ h => h.elim (ha _ _ _) (hb _ _ _)

theorem star (hx : x.Retains c P) : (Expr.star x).Retains c P :=
  fun _ _ _ h => h.star_forall hx

theorem opt (hx : x.Retains c P) : (Expr.opt x).Retains c P := fun _ _ _ h => h.opt_forall hx

theorem plus (hx : x.Retains c P) : (Expr.plus x).Retains c P := fun _ _ _ h => h.plus_forall hx

theorem seqLeft {γ : Type} {y : Rule γ} (hx : x.Retains c P) : (x <* y).Retains c P := by
  intro i v j h
  obtain ⟨k, w, hv, -⟩ := h.seqLeft
  exact hx _ _ _ hv

theorem seqRight {γ : Type} {x : Rule γ} (hy : y.Retains c P) : (x *> y).Retains c P := by
  intro i v j h
  obtain ⟨k, w, -, hv⟩ := h.seqRight
  exact hy _ _ _ hv

theorem sepBy1 {γ : Type} {sep : Rule γ} (hx : x.Retains c P) : (Expr.sepBy1 x sep).Retains c P :=
  fun _ _ _ h => h.sepBy1_forall hx

theorem sepBy {γ : Type} {sep : Rule γ} (hx : x.Retains c P) : (Expr.sepBy x sep).Retains c P :=
  fun _ _ _ h => h.sepBy_forall hx

theorem present {γ : Type} {x : Rule γ} : (Expr.present x).Retains c P := fun _ _ _ _ => trivial

end Expr.Retains

/-! ## §2. Symbols. -/

/-- A property holds everywhere in the value of a symbol. -/
def Symbol.AllNodes (P : Node → Prop) : (s : Symbol) → s.Result → Prop
  | .statements, ns | .body, ns => ∀ n ∈ ns, Everywhere P n
  | .elseBranch, branch => ∀ n ∈ branch, Everywhere P n
  | .callArgument, a => Everywhere P a.node
  | .primary, c | .atom, c => Everywhere P c.node
  | .suffix, op => HasNodes.AllNodes P op
  | .param _, n | .statement, n | .expression _, n | .expressionAtom, n | .commandCall, n
  | .command, n | .argument, n | .ternary, n | .range, n | .operation _, n | .operand, n
  | .assigned, n | .literal, n | .compound, n | .targetItem, n | .topPattern, n | .pattern, n
  | .keyPattern, n => Everywhere P n

/-- A property of watched nodes that holds of what all symbols give. -/
structure Retaining (c : Context Symbol Symbol.Result) (P : Node → Prop) : Prop where
  about : AboutWatched P
  call : ∀ s i v j, c.gives s i v j → s.AllNodes P v

variable {c : Context Symbol Symbol.Result} {P : Node → Prop} (h : Retaining c P)
include h

theorem statements_retains : statements.Retains c P := h.call .statements

theorem expression_retains : expression.Retains c P := h.call (.expression 0)

theorem argument_retains : argument.Retains c P := h.call .argument

theorem primary_retains : primary.Retains c P := h.call .primary

theorem body_retains : body.Retains c P := h.call .body

theorem commandCall_retains : commandCall.Retains c P := h.call .commandCall

theorem operation_retains : operation.Retains c P := h.call (.operation 0)

theorem range_retains : (.call Symbol.range : Rule Node).Retains c P := h.call .range

theorem ternary_retains : (.call Symbol.ternary : Rule Node).Retains c P := h.call .ternary

theorem assigned_retains : (.call Symbol.assigned : Rule Node).Retains c P := h.call .assigned

theorem pattern_retains : (.call Symbol.pattern : Rule Node).Retains c P := h.call .pattern

theorem keyPattern_retains : (.call Symbol.keyPattern : Rule Node).Retains c P :=
  h.call .keyPattern

theorem topPattern_retains : (.call Symbol.topPattern : Rule Node).Retains c P :=
  h.call .topPattern

theorem targetItem_retains : (.call Symbol.targetItem : Rule Node).Retains c P :=
  h.call .targetItem

theorem param_retains (ofBlock : Bool) : (.call (Symbol.param ofBlock) : Rule Node).Retains c P :=
  h.call (.param ofBlock)

theorem command_retains : (.call Symbol.command : Rule Node).Retains c P := h.call .command

theorem callArgument_retains : (.call Symbol.callArgument : Rule Node.Argument).Retains c P :=
  h.call .callArgument

theorem elseBranch_retains : (.call Symbol.elseBranch : Rule (Option Node)).Retains c P :=
  h.call .elseBranch

/-! ## §3. Shared expressions. -/

theorem primaryNode_retains : primaryNode.Retains c P := .map (primary_retains h) fun _ hc => hc

theorem target_retains : (primaryTarget Node.target?).Retains c P :=
  .check (primary_retains h) fun _ _ hc => h.about.target? hc

theorem block_retains : block.Retains c P :=
  .map (statements_retains h) fun _ => h.about.ofStatements?

theorem fullBlock_retains : fullBlock.Retains c P :=
  .map (body_retains h) fun _ => h.about.ofStatements?

theorem splatOrArgument_retains : splatOrArgument.Retains c P :=
  .orElse
    (.seq (.map .token fun op _ _ hvalue => h.about.splat op (forall_mem_some hvalue))
      (argument_retains h))
    (argument_retains h)

theorem splatsOrArguments_retains : (sepBy1 splatOrArgument comma).Retains c P :=
  .sepBy1 (splatOrArgument_retains h)

/-! ## §4. Operations. -/

theorem oneLineMatch_retains (op : Kind) (feature : Version.Feature) :
    (oneLineMatch op feature).Retains c P := by
  have hparts : ((fun value op p => (value, op, p)) <$> argument <*> tok op
      <*> .call Symbol.topPattern : Rule (Node × Token × Node)).Retains c P :=
    .seq (.seq (.map (argument_retains h) fun _ hvalue _ _ _ hp => ⟨hvalue, trivial, hp⟩) .token)
      (topPattern_retains h)
  refine .since <| .check hparts ?_
  rintro v ⟨value, op, p⟩ ⟨hvalue, -, hp⟩ n hn
  cases hn
  exact h.about.matchPattern v op hvalue hp

theorem expressionAtomRule_retains : expressionAtomRule.Retains c P :=
  .orElse (oneLineMatch_retains h _ _) <| .orElse (oneLineMatch_retains h _ _) <|
    .orElse (commandCall_retains h) (argument_retains h)

theorem ternaryRule_retains : ternaryRule.Retains c P :=
  .orElse (.seq (.seqLeft (.seqLeft (.seqLeft (.seq (.seqLeft (.seqLeft (.map (range_retains h)
    fun _ hcond _ hyes _ hno => h.about.ternary hcond hyes hno))) (ternary_retains h)))))
    (ternary_retains h)) (range_retains h)

theorem rangeRule_retains : rangeRule.Retains c P := by
  refine .orElse ?_ <| .orElse ?_ <| .orElse ?_ (operation_retains h)
  · -- `a..b`
    exact .seq (.seq (.map (operation_retains h) fun _ hlhs op _ _ hrhs =>
      h.about.range op (forall_mem_some hlhs) (forall_mem_some hrhs)) .token) (operation_retains h)
  · -- `a..`
    exact .since <| .seq (.map (operation_retains h) fun _ hlhs op _ =>
      h.about.range op (forall_mem_some hlhs) (by simp)) .token
  · -- `..b`
    exact .since <| .seq (.map .token fun op _ _ hrhs =>
      h.about.range op (by simp) (forall_mem_some hrhs)) (operation_retains h)

theorem argumentRule_retains : argumentRule.Retains c P :=
  .orElse (.seq (.seqLeft (.map .token fun _ _ _ hvalue => h.about.marked rfl hvalue))
    (argument_retains h)) (ternary_retains h)

theorem assignedRule_retains : assignedRule.Retains c P := by
  have hfallback : (Prod.mk <$> tok .kRESCUE_MOD <*> argument : Rule (Token × Node)).Retains c P :=
    .seq (.map .token fun _ _ _ hvalue => ⟨trivial, hvalue⟩) (argument_retains h)
  refine .seq (.map (.orElse (commandCall_retains h) (argument_retains h))
    fun value hvalue fallback hfallback => ?_) (.opt hfallback)
  cases fallback with
  | none => exact hvalue
  | some fallback => exact h.about.rescueModifier hvalue (hfallback fallback rfl).2 fallback.1

theorem operandRule_retains : operandRule.Retains c P := by
  have hassign : (Prod.mk <$> primary <* tok .tEQL <*> .call Symbol.assigned :
      Rule (Chain × Node)).Retains c P :=
    .seq (.seqLeft (.map (primary_retains h) fun _ ht _ hvalue => ⟨ht, hvalue⟩))
      (assigned_retains h)
  have hoperator : ((fun target op value => (target, op, value)) <$> primary <*> tok .tOP_ASGN
      <*> .call Symbol.assigned : Rule (Chain × Token × Node)).Retains c P :=
    .seq (.seq (.map (primary_retains h) fun _ ht _ _ _ hvalue => ⟨ht, trivial, hvalue⟩) .token)
      (assigned_retains h)
  exact .orElse (.check hassign fun _ _ hp => h.about.assign? hp.1 hp.2) <|
    .orElse (.check hoperator fun _ p hp => h.about.operatorAssign? hp.1 hp.2.2 p.2.1)
    (primaryNode_retains h)

theorem operationRule_retains (level : Nat) : (operationRule level).Retains c P := by
  refine fun _ _ _ hread => climb_reads (P := fun _ n _ => Everywhere P n) ?_ ?_ ?_ ?_ hread
  · exact fun u _ _ op _ _ _ _ hx => h.about.unary op hx u.method
  · intro b hb _ x _ op y _ hx _ _ hy
    simp only [binaryLevels, List.mem_cons, List.not_mem_nil, or_false] at hb
    rcases hb with rfl | rfl | hb
    · exact h.about.joined rfl hx hy
    · exact h.about.joined rfl hx hy
    · have hcombine : b.combine = Node.binary := by
        rcases hb with rfl | rfl | rfl | rfl | rfl | rfl | rfl | rfl <;> rfl
      rw [hcombine]
      exact h.about.binary op hx hy
  · exact h.call .operand
  · exact fun l => h.call (.operation l)

theorem expressionRule_retains (level : Nat) : (expressionRule level).Retains c P := by
  refine fun _ _ _ hread => climb_reads (P := fun _ n _ => Everywhere P n) ?_ ?_ ?_ ?_ hread
  · exact fun u _ _ op _ _ _ _ hx => h.about.unary op hx u.method
  · intro b hb _ x _ op y _ hx _ _ hy
    cases List.mem_singleton.mp hb
    refine h.about.joined ?_ hx hy
    split <;> rfl
  · exact h.call .expressionAtom
  · exact fun l => h.call (.expression l)

/-! ## §5. Parameters and blocks. -/

theorem defaultValue_retains (ofBlock : Bool) : (defaultValue ofBlock).Retains c P := by
  refine .orElse (.check (argument_retains h) fun _ value hvalue n hn => ?_) (primaryNode_retains h)
  cases ofBlock <;> cases hn
  exact hvalue

theorem paramRule_retains (ofBlock : Bool) : (paramRule ofBlock).Retains c P := by
  have hstarred : ∀ {kind : Node.Kind} {kinds : List Kind},
      (∀ op name, (Node.param kind op name none).isWatched = false) →
        ((fun op name => Node.param kind op name none) <$> .token kinds <*> optName :
          Rule Node).Retains c P := fun hkind =>
    .seq (.map .token fun op _ name _ => h.about.param op name (hkind op name) (by simp))
      (.opt .token)
  refine .orElse ?_ <| .orElse ?_ <| .orElse ?_ <| .orElse ?_ <| .orElse ?_ <| .orElse ?_ <|
    .orElse ?_ <| .orElse ?_ <| .orElse ?_ ?_
  · -- `...`
    exact .since <| .map .token fun t _ => h.about.bare t rfl
  · -- `name: value`
    exact .seq (.map .token fun label _ _ hvalue =>
      h.about.param label _ rfl (forall_mem_some hvalue)) (defaultValue_retains h ofBlock)
  · -- `name:`
    exact .map .token fun label _ => h.about.param label _ rfl (by simp)
  · -- `**nil`
    exact .seq (.map .token fun _ _ _ _ => h.about.leaf rfl fun _ hn => nomatch hn) .token
  · exact hstarred fun _ _ => rfl
  · exact hstarred fun _ _ => rfl
  · exact hstarred fun _ _ => rfl
  · -- `name = value`
    exact .seq (.seqLeft (.map .token fun name _ _ hvalue =>
      h.about.param name _ rfl (forall_mem_some hvalue))) (defaultValue_retains h ofBlock)
  · -- `name`
    exact .map .token fun name _ => h.about.param name _ rfl (by simp)
  · -- `(a, b)`
    exact .seq (.seq (.map .token fun _ _ _ hitems _ _ =>
      h.about.mk rfl (slotsAll_slots.mpr hitems)) (.sepBy1 (param_retains h ofBlock))) .token

theorem parenParams_retains : parenParams.Retains c P :=
  .seq (.seq (.map .token fun _ _ _ hparams _ _ => h.about.mk rfl (slotsAll_slots.mpr hparams))
    (.sepBy (param_retains h false))) .token

theorem methodParams_retains : methodParams.Retains c P :=
  .orElse (parenParams_retains h) (.map (.sepBy1 (param_retains h false))
    fun _ hparams => h.about.mk rfl (slotsAll_slots.mpr hparams))

theorem ownNames_retains : ownNames.Retains c P :=
  .seqRight <| .sepBy1 <| .map .token fun n _ => h.about.param n _ rfl (by simp)

theorem blockParams_retains : blockParams.Retains c P := by
  have hnone : ∀ n ∈ ([] : List Node), Everywhere P n := List.forall_mem_nil _
  refine .orElse (.map .token fun bars _ => h.about.blockParams bars hnone false hnone bars) ?_
  refine .seq (.seq (.seq (.seq (.map .token fun opening _ params hparams trailing _ own hown
    closing _ => ?_) (.sepBy (param_retains h true))) .present) (.opt (ownNames_retains h))) .token
  refine h.about.blockParams opening hparams trailing ?_ closing
  cases own with
  | none => exact hnone
  | some own => exact hown own rfl

theorem braceBlock_retains : braceBlock.Retains c P :=
  .seq (.seq (.seq (.map .token fun _ _ _ hparams _ hbody _ _ => ⟨hparams, hbody⟩)
    (.opt (blockParams_retains h))) (block_retains h)) .token

theorem doBlock_retains : doBlock.Retains c P :=
  .seq (.seq (.seq (.map .token fun _ _ _ hparams _ hbody _ _ => ⟨hparams, hbody⟩)
    (.opt (blockParams_retains h))) (fullBlock_retains h)) .token

theorem lambdaBody_retains : lambdaBody.Retains c P :=
  .orElse (.seq (.seq (.map .token fun _ _ _ hbody _ _ => ⟨nofun, hbody⟩) (block_retains h)) .token)
    (.seq (.seq (.map .token fun _ _ _ hbody _ _ => ⟨nofun, hbody⟩) (fullBlock_retains h)) .token)

theorem lambda_retains : lambda.Retains c P := by
  have hparts : ((fun arrow params body => (arrow, params, body)) <$> tok .tLAMBDA
      <*> opt methodParams <*> lambdaBody : Rule (Token × Option Node × BlockParts)).Retains c P :=
    .seq (.seq (.map .token fun _ _ _ hparams _ hbody => ⟨trivial, hparams, hbody⟩)
      (.opt (methodParams_retains h))) (lambdaBody_retains h)
  refine .check hparts ?_
  rintro v ⟨arrow, params, body⟩ ⟨-, hparams, hbody⟩ n hn
  cases hn
  exact h.about.lambda v arrow hparams hbody

/-! ## §6. Arguments and commands. -/

theorem callArgumentRule_retains : callArgumentRule.Retains c P := by
  refine .orElse ?_ <| .orElse ?_ <| .orElse ?_ <| .orElse ?_ <| .orElse ?_ <| .orElse ?_ <|
    .orElse ?_ <| .orElse ?_ <| .orElse ?_ <| .orElse ?_ <| .orElse ?_ ?_
  · -- `...`
    exact .since <| .seqLeft <| .map .token fun dots _ => h.about.bare dots rfl
  · -- `&value`
    exact .seq (.map .token fun op _ _ hvalue => h.about.blockPass op (forall_mem_some hvalue))
      (argument_retains h)
  · -- `&`
    exact .since <| .map .token fun op _ => h.about.blockPass op (by simp)
  · -- `**value`
    exact .seq (.map .token fun _ _ _ hvalue => h.about.marked rfl hvalue) (argument_retains h)
  · -- `**`
    exact .since <| .map .token fun op _ => h.about.bare op rfl
  · -- `*value`
    exact .seq (.map .token fun op _ _ hvalue => h.about.splat op (forall_mem_some hvalue))
      (argument_retains h)
  · -- `*`
    exact .since <| .map .token fun op _ => h.about.bare op rfl
  · -- `label: value`
    exact .seq (.seqLeft (.map .token fun label _ _ hvalue => h.about.labelled label hvalue))
      (argument_retains h)
  · -- `label:`
    exact .since <| .map .token fun label _ => h.about.labelAlone label
  · -- `key => value`
    exact .seq (.seqLeft (.map (argument_retains h) fun _ hkey _ hvalue =>
      h.about.pair hkey hvalue)) (argument_retains h)
  · -- a command
    exact .map (command_retains h) fun _ hn => hn
  · -- any other argument
    exact .map (argument_retains h) fun _ hn => hn

theorem argumentList_retains : argumentList.Retains c P :=
  .seqLeft (.sepBy (callArgument_retains h))

theorem parenArguments_retains : parenArguments.Retains c P :=
  .seq (.map (.seqRight (argumentList_retains h)) fun _ hitems _ _ => ⟨hitems, trivial⟩) .token

theorem commandArguments_retains : commandArguments.Retains c P :=
  .sepBy1 (callArgument_retains h)

theorem commandRule_retains : commandRule.Retains c P := by
  have hopen : (filterMap (fun c => if c.isOpen then some c else none) primary :
      Rule Chain).Retains c P := by
    refine .check (primary_retains h) fun _ chain hchain chain' hmem => ?_
    split at hmem
    · cases hmem
      exact hchain
    · cases hmem
  have hparts : (Prod.mk <$> filterMap (fun c => if c.isOpen then some c else none) primary
      <*> commandArguments : Rule (Chain × List Argument)).Retains c P :=
    .seq (.map hopen fun _ hchain _ hitems => ⟨hchain, hitems⟩) (commandArguments_retains h)
  exact .orElse
    (.seq (.map .token fun kw _ _ hitems => h.about.jump kw hitems) (commandArguments_retains h))
    (.check hparts fun _ _ hp => h.about.command? hp.1 hp.2)

theorem commandCallRule_retains : commandCallRule.Retains c P := by
  have hcommand : (Prod.mk <$> .call Symbol.command <*> opt doBlock :
      Rule (Node × Option BlockParts)).Retains c P :=
    .seq (.map (command_retains h) fun _ hn _ hparts => ⟨hn, hparts⟩) (.opt (doBlock_retains h))
  have hargument : (Prod.mk <$> argument <*> doBlock : Rule (Node × BlockParts)).Retains c P :=
    .seq (.map (argument_retains h) fun _ hn _ hparts => ⟨hn, hparts⟩) (doBlock_retains h)
  refine .orElse (.check hcommand ?_)
    (.check hargument fun v _ hp => h.about.attachBlock? v hp.1 hp.2)
  rintro v ⟨n, parts⟩ ⟨hn, hparts⟩ m hm
  cases parts with
  | none =>
      cases hm
      exact hn
  | some parts => exact h.about.attachBlock? v hn (hparts parts rfl) m hm

/-! ## §7. Primary expressions. -/

theorem suffixRule_retains : suffixRule.Retains c P := by
  have harguments : (opt parenArguments).Retains c P := .opt (parenArguments_retains h)
  refine .orElse ?_ <| .orElse ?_ <| .orElse ?_ <| .orElse ?_ <| .orElse ?_ ?_
  · -- `.name`, `.name(…)`
    exact .seq (.seq (.map .token fun _ _ _ _ _ hargs => hargs) .token) harguments
  · -- `.(…)`
    exact .seq (.map .token fun _ _ _ hargs => hargs) (parenArguments_retains h)
  · -- `::Name`
    exact .seqLeft (.map (.seqRight .token) fun _ _ => trivial)
  · -- `::name`, `::name(…)`
    exact .seq (.seq (.map .token fun _ _ _ _ _ hargs => hargs) .token) harguments
  · -- `[…]`
    exact .seq (.map (.seqRight (argumentList_retains h)) fun _ hargs _ _ => hargs) .token
  · -- `{ … }`
    exact .map (braceBlock_retains h) fun _ hparts => hparts

theorem primaryRule_retains : primaryRule.Retains c P := by
  have hatom : (.call Symbol.atom : Rule Chain).Retains c P := h.call .atom
  have hsuffix : (.call Symbol.suffix : Rule Suffix).Retains c P := h.call .suffix
  have hparts : (Prod.mk <$> .call Symbol.atom <*> .star (.call Symbol.suffix) :
      Rule (Chain × List Suffix)).Retains c P :=
    .seq (.map hatom fun _ hfirst _ hops => ⟨hfirst, hops⟩) (.star hsuffix)
  exact .check hparts fun v _ hp => h.about.applySuffixes? v hp.1 hp.2

theorem atomRule_retains : atomRule.Retains c P := by
  have hliteral : (.call Symbol.literal : Rule Node).Retains c P := h.call .literal
  have hcompound : (.call Symbol.compound : Rule Node).Retains c P := h.call .compound
  refine .orElse ?_ <| .orElse ?_ <| .orElse ?_ <| .orElse ?_ <| .orElse ?_ <| .orElse ?_ <|
    .orElse ?_ <| .orElse ?_ <| .orElse ?_ <| .orElse ?_ <| .orElse ?_ <| .orElse ?_ ?_
  · exact .map hliteral fun _ hn => hn
  · exact .map hcompound fun _ hn => hn
  · -- `defined?(value)`
    exact .seq (.seqLeft (.seq (.seqLeft (.seqLeft (.map .token fun _ _ _ hvalue _ _ =>
      h.about.marked rfl hvalue))) (expression_retains h))) .token
  · exact .seq (.map .token fun kw _ _ hargs => h.about.superChain kw hargs)
      (.opt (parenArguments_retains h))
  · exact .seq (.map .token fun kw _ _ hargs => h.about.yieldChain kw hargs)
      (.opt (parenArguments_retains h))
  · exact .map .token fun kw _ => h.about.jump kw (List.forall_mem_nil _)
  · -- `::Name`
    exact .seq (.map .token fun colons _ name _ => h.about.topConstant colons name) .token
  · -- `name(…)`
    refine .seq (.map .token fun name _ args hargs => ?_) (parenArguments_retains h)
    exact h.about.functionCall name hargs.1 args.2
  · exact .map .token fun x _ => h.about.named x rfl
  · exact .map .token fun x _ => h.about.nameCall x
  · exact .map .token fun x _ => h.about.constant (by simp) x
  · exact .map .token fun x _ => h.about.markedVariable x
  · exact .map (lambda_retains h) fun _ hn => hn

/-! ## §8. Literals. -/

theorem stringPart_retains : stringPart.Retains c P :=
  .orElse (.map .token fun _ _ => trivial)
    (.seq (.seq (.map .token fun _ _ _ hbody _ _ => hbody) (statements_retains h)) .token)

theorem stringParts_retains : (.star stringPart : Rule (List StringPart)).Retains c P :=
  .star (stringPart_retains h)

theorem stringLiteral_retains : stringLiteral.Retains c P :=
  .orElse (.seq (.seq (.map .token fun opening _ _ hparts closing _ =>
    h.about.string hparts opening closing) (stringParts_retains h)) .token)
    (.map .token fun t _ => h.about.character t)

theorem hashItem_retains : hashItem.Retains c P := by
  refine .orElse ?_ <| .orElse ?_ <| .orElse ?_ ?_
  · -- `label: value`
    exact .seq (.seqLeft (.map .token fun label _ _ hvalue => h.about.labelled label hvalue))
      (argument_retains h)
  · -- `label:`
    exact .since <| .map .token fun label _ => h.about.labelAlone label
  · -- `**value`
    exact .seq (.map .token fun _ _ _ hvalue => h.about.marked rfl hvalue) (argument_retains h)
  · -- `key => value`
    exact .seq (.seqLeft (.seqLeft (.map (argument_retains h) fun _ hkey _ hvalue =>
      h.about.pair hkey hvalue))) (argument_retains h)

theorem hashLiteral_retains : hashLiteral.Retains c P :=
  .seq (.seqLeft (.seqLeft (.seq (.seqLeft (.map .token fun _ _ _ hitems _ _ =>
    h.about.mk rfl (slotsAll_slots.mpr hitems))) (.sepBy (hashItem_retains h))))) .token

theorem literalRule_retains : literalRule.Retains c P := by
  have hword : ∀ {kind : Node.Kind} {kinds : List Kind}, (∀ t, (Node.bare kind t).isWatched = false) →
      (Node.bare kind <$> .token kinds : Rule Node).Retains c P :=
    fun hkind => .map .token fun t _ => h.about.bare t (hkind t)
  refine .orElse ?_ <| .orElse ?_ <| .orElse ?_ <| .orElse ?_ <| .orElse ?_ <| .orElse ?_ <|
    .orElse ?_ <| .orElse ?_ <| .orElse ?_ <| .orElse ?_ <| .orElse (hashLiteral_retains h) <|
    .orElse (hword fun _ => rfl) <| .orElse (hword fun _ => rfl) <| .orElse (hword fun _ => rfl) <|
    .orElse (hword fun _ => rfl) <| .orElse (hword fun _ => rfl) <| .orElse (hword fun _ => rfl) <|
    .orElse (hword fun _ => rfl) <| .orElse (hword fun _ => rfl) (hword fun _ => rfl)
  · exact .map .token fun t _ => h.about.integer t
  · exact .map .token fun t _ => h.about.float t
  · exact .map .token fun t _ => h.about.rational t
  · exact .map .token fun t _ => h.about.complex t
  · exact .map (.plus (stringLiteral_retains h)) fun _ hns => h.about.concatenation hns
  · exact .seq (.seq (.map .token fun opening _ _ hparts closing _ =>
      h.about.commandString hparts opening closing) (stringParts_retains h)) .token
  · exact .map .token fun t _ => h.about.named t rfl
  · exact .seq (.seq (.map .token fun opening _ _ hparts closing _ =>
      h.about.quotedSymbol hparts opening closing) (stringParts_retains h)) .token
  · exact .seq (.seq (.seq (.map .token fun opening _ _ hparts closing _ flags _ =>
      h.about.regexp hparts opening closing flags) (stringParts_retains h)) .token) .token
  · exact .seq (.seq (.map .token fun opening _ _ hitems closing _ =>
      h.about.array opening hitems closing) (argumentList_retains h)) .token

/-! ## §9. Statements. -/

theorem parenTargets_retains : parenTargets.Retains c P :=
  .seq (.seqLeft (.seq (.map .token fun _ _ _ hitems _ _ =>
    h.about.mk rfl (slotsAll_slots.mpr hitems)) (.sepBy1 (targetItem_retains h)))) .token

theorem splatTarget_retains : splatTarget.Retains c P :=
  .seq (.map .token fun op _ _ hvalue => h.about.splat op hvalue) (.opt (target_retains h))

theorem targetItemRule_retains : targetItemRule.Retains c P :=
  .orElse (parenTargets_retains h) <| .orElse (splatTarget_retains h) (target_retains h)

theorem targets_retains : targets.Retains c P := by
  refine .orElse ?_ <| .orElse ?_ ?_
  · exact .seqLeft (.seq (.seqLeft (.map (targetItem_retains h) fun _ hfirst _ hrest =>
      h.about.targets (List.forall_mem_cons.mpr ⟨hfirst, hrest⟩))) (.sepBy (targetItem_retains h)))
  · exact .map (splatTarget_retains h) fun _ hn =>
      h.about.targets (List.forall_mem_singleton.mpr hn)
  · exact .map (parenTargets_retains h) fun _ hn =>
      h.about.targets (List.forall_mem_singleton.mpr hn)

theorem loopVariables_retains : loopVariables.Retains c P :=
  .orElse (targets_retains h) (target_retains h)

/-- What several targets are assigned. -/
theorem assignedValues_retains :
    (commandCall <|> Node.multipleValues <$> sepBy1 splatOrArgument comma :
      Rule Node).Retains c P :=
  .orElse (commandCall_retains h)
    (.map (splatsOrArguments_retains h) fun _ hns => h.about.multipleValues hns)

/-- A multiple assignment, if the property does not depend on where its parts were read. -/
theorem multipleAssignment_retains
    (here : ∀ left value, P (Node.multipleAssign left value)) : multipleAssignment.Retains c P :=
  .seq (.seqLeft (.map (targets_retains h) fun _ hleft _ hvalue =>
    AboutWatched.multipleAssign hleft hvalue (here _ _))) (assignedValues_retains h)

theorem severalValues_retains : severalValues.Retains c P := by
  have hparts : (Prod.mk <$> primary <* tok .tEQL <*> sepBy1 splatOrArgument comma :
      Rule (Chain × List Node)).Retains c P :=
    .seq (.seqLeft (.map (primary_retains h) fun _ ht _ hitems => ⟨ht, hitems⟩))
      (splatsOrArguments_retains h)
  exact .check hparts fun _ _ hp => h.about.assignValues? hp.2 hp.1

theorem methodName_retains : methodName.Retains c P := .map .token fun t _ => h.about.named t rfl

theorem globalVariable_retains : globalVariable.Retains c P :=
  .map .token fun t _ => h.about.markedVariable t

theorem plainStatement_retains (hmultiple : multipleAssignment.Retains c P) :
    plainStatement.Retains c P := by
  have halias : ∀ {kw : Token} {new old : Node}, Everywhere P new → Everywhere P old →
      Everywhere P (Node.aliasDef kw new old) :=
    fun hnew hold => h.about.mk rfl (by simpa using ⟨hnew, hold⟩)
  refine .orElse ?_ <| .orElse ?_ <| .orElse ?_ <| .orElse ?_ <|
    .orElse hmultiple <| .orElse (severalValues_retains h) (expression_retains h)
  · exact .seq (.seq (.map .token fun _ _ _ hnew _ hold => halias hnew hold)
      (globalVariable_retains h)) (globalVariable_retains h)
  · exact .seq (.seq (.map .token fun _ _ _ hnew _ hold => halias hnew hold)
      (methodName_retains h)) (methodName_retains h)
  · exact .seq (.map .token fun _ _ _ hnames => h.about.mk rfl (slotsAll_slots.mpr hnames))
      (.sepBy1 (methodName_retains h))
  · exact .seq (.seq (.seqLeft (.map .token fun kw _ _ hns closing _ =>
      h.about.beforeOrAfter kw hns closing)) (statements_retains h)) .token

theorem statementsRule_retains : statementsRule.Retains c P :=
  .seqLeft (.seqRight (.sepBy (h.call .statement)))

/-! ## §10. Conditionals and choices. -/

omit h in
/-- A branch that may be missing, and may be empty. -/
theorem allNodes_join {no : Option (Option Node)} (hno : AllNodes P no) :
    ∀ n ∈ no.join, Everywhere P n := by
  intro n hn
  exact hno _ (Option.join_eq_some_iff.mp hn) n rfl

theorem ifExpression_retains : ifExpression.Retains c P :=
  .seq (.seq (.seq (.seqLeft (.seq (.map .token fun kw _ _ hcond _ hyes _ hno closing _ =>
    h.about.conditional hcond hyes (allNodes_join hno) kw closing.span)
    (expression_retains h))) (block_retains h)) (.opt (elseBranch_retains h))) .token

theorem elseBranchRule_retains : elseBranchRule.Retains c P :=
  .orElse (.seq (.seq (.seqLeft (.seq (.map .token fun kw _ _ hcond _ hyes _ hno =>
    forall_mem_some (h.about.elseIf hcond hyes (allNodes_join hno) kw))
    (expression_retains h))) (block_retains h)) (.opt (elseBranch_retains h)))
    (.seqRight (block_retains h))

theorem unlessExpression_retains : unlessExpression.Retains c P :=
  .seq (.seq (.seq (.seqLeft (.seq (.map .token fun kw _ _ hcond _ hno _ hyes closing _ =>
    h.about.conditional hcond (allNodes_join hyes) hno kw closing.span)
    (expression_retains h))) (block_retains h)) (.opt (.seqRight (block_retains h)))) .token

theorem elseClause_retains : elseClause.Retains c P :=
  .seq (.map .token fun _ _ _ hbody => ⟨trivial, hbody⟩) (block_retains h)

theorem whenClause_retains : whenClause.Retains c P :=
  .seq (.seqLeft (.seq (.map .token fun kw _ _ hvalues _ hbody =>
    h.about.whenClause kw hvalues hbody) (splatsOrArguments_retains h))) (block_retains h)

theorem patternGuard_retains : patternGuard.Retains c P :=
  .seq (.map .token fun kw _ _ hcond => h.about.guard kw hcond) (expression_retains h)

theorem inClause_retains : inClause.Retains c P :=
  .seq (.seqLeft (.seq (.seq (.map .token fun kw _ _ hpattern _ hguard _ hbody =>
    h.about.inPattern kw hpattern hguard hbody) (topPattern_retains h))
    (.opt (patternGuard_retains h)))) (block_retains h)

theorem caseExpression_retains : caseExpression.Retains c P := by
  have helse : (opt elseClause).Retains c P := .opt (elseClause_retains h)
  refine .orElse ?_ (.since ?_)
  · exact .seq (.seq (.seq (.seqLeft (.seq (.map .token
      fun kw _ _ hsubject _ hclauses _ hotherwise closing _ =>
        h.about.caseWhen kw hsubject hclauses (fun clause hmem => (hotherwise clause hmem).2)
          closing) (.opt (expression_retains h)))) (.plus (whenClause_retains h))) helse) .token
  · exact .seq (.seq (.seq (.seqLeft (.seq (.map .token
      fun kw _ _ hsubject _ hclauses _ hotherwise closing _ =>
        h.about.caseMatch kw hsubject hclauses (fun clause hmem => (hotherwise clause hmem).2)
          closing) (expression_retains h))) (.plus (inClause_retains h))) helse) .token

/-! ## §11. Bodies and definitions. -/

theorem rescueVariable_retains : rescueVariable.Retains c P := .seqRight (target_retains h)

theorem rescueClause_retains : rescueClause.Retains c P :=
  .seq (.seqLeft (.seq (.seq (.map .token fun kw _ _ hclasses _ hvar _ hbody =>
    h.about.rescueClause kw hclasses hvar hbody) (.opt (splatsOrArguments_retains h)))
    (.opt (rescueVariable_retains h)))) (block_retains h)

theorem bodyRule_retains : bodyRule.Retains c P := by
  have hensure : (Prod.mk <$> tok .kENSURE <*> statements :
      Rule (Token × List Node)).Retains c P :=
    .seq (.map .token fun _ _ _ hns => ⟨trivial, hns⟩) (statements_retains h)
  exact .seq (.seq (.seq (.map (statements_retains h) fun _ hns _ hrescues _ hotherwise _ hensure =>
    h.about.bodyStatements hns hrescues hotherwise fun clause hmem => (hensure clause hmem).2)
    (.star (rescueClause_retains h))) (.opt (.seqRight (statements_retains h)))) (.opt hensure)

theorem beginExpression_retains : beginExpression.Retains c P :=
  .seq (.seq (.map .token fun _ _ _ hns _ _ => h.about.mk rfl (slotsAll_slots.mpr hns))
    (body_retains h)) .token

theorem parenExpression_retains : parenExpression.Retains c P :=
  .seq (.seq (.map .token fun _ _ _ hns _ _ => h.about.mk rfl (slotsAll_slots.mpr hns))
    (statements_retains h)) .token

theorem methodHead_retains : methodHead.Retains c P :=
  .orElse (.seq (.seqLeft (.map .token fun object _ _ _ =>
    forall_mem_some (h.about.methodReceiver object))) .token) (.map .token fun _ _ => nofun)

/-- A parameter list, or the empty one in its place. -/
theorem params_everywhere {head : MethodHead} {params : Option Node} (hparams : AllNodes P params) :
    Everywhere P (params.getD (Node.noParams head.name)) := by
  cases params with
  | none => exact h.about.noParams head.name
  | some params => exact hparams params rfl

theorem methodDefinition_retains : methodDefinition.Retains c P := by
  refine .orElse (.since ?_) ?_
  · exact .seq (.seqLeft (.seq (.seq (.map .token fun kw _ _ hhead _ hparams value hvalue =>
      h.about.methodDef kw hhead (params_everywhere h hparams) (forall_mem_some hvalue) value.span)
      (methodHead_retains h)) (.opt (parenParams_retains h)))) (assigned_retains h)
  · exact .seq (.seq (.seq (.seq (.map .token fun kw _ _ hhead _ hparams _ hbody closing _ =>
      h.about.methodDef kw hhead (params_everywhere h hparams) hbody closing.span)
      (methodHead_retains h)) (.opt (methodParams_retains h))) (fullBlock_retains h)) .token

theorem constantPath_retains : constantPath.Retains c P := by
  refine .check (primary_retains h) fun _ chain hchain n hn => ?_
  dsimp only at hn
  split at hn
  · cases hn
    exact hchain
  · cases hn

theorem classDefinition_retains : classDefinition.Retains c P := by
  refine .orElse ?_ ?_
  · exact .seq (.seq (.seq (.seqLeft (.map .token fun _ _ _ hobject _ hbody _ _ =>
      h.about.mk rfl (by simpa using ⟨hobject, hbody⟩))) (expression_retains h))
      (fullBlock_retains h)) .token
  · exact .seq (.seq (.seq (.seq (.map .token fun _ _ _ hname _ hparent _ hbody _ _ =>
      h.about.mk rfl (by simpa using ⟨hname, hparent, hbody⟩)) (constantPath_retains h))
      (.opt (.seqRight (expression_retains h)))) (fullBlock_retains h)) .token

theorem moduleDefinition_retains : moduleDefinition.Retains c P :=
  .seq (.seq (.seq (.map .token fun _ _ _ hname _ hbody _ _ =>
    h.about.mk rfl (by simpa using ⟨hname, hbody⟩)) (constantPath_retains h))
    (fullBlock_retains h)) .token

/-! ## §12. Patterns. -/

theorem patternRest_retains : patternRest.Retains c P :=
  .seq (.map .token fun star _ name _ => h.about.matchRest star name) (.opt .token)

theorem patternItem_retains : patternItem.Retains c P :=
  .orElse (patternRest_retains h) (pattern_retains h)

theorem keyPatternRule_retains : keyPatternRule.Retains c P :=
  .orElse (.seq (.map .token fun label _ _ hpattern => h.about.labelled label hpattern)
    (pattern_retains h)) <|
  .orElse (.map .token fun label _ => h.about.named label rfl) <|
  .orElse (.seq (.map .token fun _ _ _ _ => h.about.leaf rfl fun _ hn => nomatch hn) .token)
    (.seq (.map .token fun star _ name _ => h.about.matchRest star name) (.opt .token))

theorem constants_everywhere {head : Node} (hhead : Everywhere P head) (names : List Token) :
    Everywhere P (names.foldl (fun scope n => Node.constant (some scope) n) head) := by
  induction names generalizing head with
  | nil => exact hhead
  | cons name names ih => exact ih (h.about.constant (forall_mem_some hhead) name)

theorem patternConstant_retains : patternConstant.Retains c P :=
  .seq (.map (.orElse (.seq (.map .token fun colons _ name _ => h.about.topConstant colons name)
    .token) (.map .token fun name _ => h.about.constant (by simp) name))
    fun _ hhead names _ => constants_everywhere h hhead names) (.star (.seqRight .token))

theorem patternScalar_retains : patternScalar.Retains c P := .seqRight (primaryNode_retains h)

theorem patternValue_retains : patternValue.Retains c P := by
  refine .orElse ?_ <| .orElse ?_ <| .orElse ?_ (patternScalar_retains h)
  · exact .seq (.seq (.map (patternScalar_retains h) fun _ hlhs op _ _ hrhs =>
      h.about.range op (forall_mem_some hlhs) (forall_mem_some hrhs)) .token)
      (patternScalar_retains h)
  · exact .seq (.map (patternScalar_retains h) fun _ hlhs op _ =>
      h.about.range op (forall_mem_some hlhs) (by simp)) .token
  · exact .seq (.map .token fun op _ _ hrhs =>
      h.about.range op (by simp) (forall_mem_some hrhs)) (patternScalar_retains h)

theorem pinTarget_retains : pinTarget.Retains c P :=
  .orElse (.seq (.seq (.map .token fun _ _ _ hvalue _ _ =>
    h.about.mk rfl (slotsAll_slots.mpr (List.forall_mem_singleton.mpr hvalue)))
    (expression_retains h)) .token) <|
  .orElse (.map .token fun t _ => h.about.named t rfl)
    (.map .token fun t _ => h.about.markedVariable t)

theorem patternPrimary_retains : patternPrimary.Retains c P := by
  have hitems : (sepBy patternItem comma).Retains c P := .sepBy (patternItem_retains h)
  refine .orElse ?_ <| .orElse ?_ <| .orElse ?_ <| .orElse ?_ <| .orElse ?_ <|
    .orElse (patternValue_retains h) (.map .token fun t _ => h.about.named t rfl)
  · -- `[…]`
    exact .seq (.seq (.seq (.map .token fun _ _ _ hitems trailing _ _ _ =>
      h.about.patternList hitems trailing _) hitems) .present) .token
  · -- `{ … }`
    exact .seq (.seqLeft (.seqLeft (.seq (.seqLeft (.map .token fun _ _ _ hitems _ _ =>
      h.about.mk rfl (slotsAll_slots.mpr hitems))) (.sepBy (keyPattern_retains h))))) .token
  · -- `Name(key: …)`
    exact .seq (.seq (.seq (.map (patternConstant_retains h) fun _ hscope _ _ _ hitems closing _ =>
      h.about.constPattern hscope (h.about.mk rfl (slotsAll_slots.mpr hitems)) closing) .token)
      (.sepBy1 (keyPattern_retains h))) .token
  · -- `Name(…)`
    exact .seq (.seq (.seq (.seq (.map (patternConstant_retains h)
      fun _ hscope _ _ _ hitems trailing _ closing _ =>
        h.about.constPattern hscope (h.about.patternList hitems trailing _) closing) .token)
      hitems) .present) .token
  · -- `^value`
    exact .seq (.map .token fun _ _ _ hvalue => h.about.marked rfl hvalue) (pinTarget_retains h)

theorem alternatives_everywhere {first : Node} {rest : List Node} (hfirst : Everywhere P first)
    (hrest : ∀ n ∈ rest, Everywhere P n) : Everywhere P (rest.foldl Node.matchAlt first) := by
  induction rest generalizing first with
  | nil => exact hfirst
  | cons n rest ih =>
      obtain ⟨hn, hrest⟩ := List.forall_mem_cons.mp hrest
      exact ih (h.about.joined rfl hfirst hn) hrest

theorem patternAlternatives_retains : patternAlternatives.Retains c P :=
  .seq (.map (patternPrimary_retains h) fun _ hfirst _ hrest =>
    alternatives_everywhere h hfirst hrest) (.star (.seqRight (patternPrimary_retains h)))

theorem patternRule_retains : patternRule.Retains c P := by
  have hnamed : ∀ {pattern : Node} (name : Token), Everywhere P pattern →
      Everywhere P (Node.matchAs pattern name) := by
    intro pattern name hpattern
    have hvar : Everywhere P (matchVar name) := h.about.named name rfl
    exact h.about.mk rfl (by simpa using ⟨hpattern, hvar⟩)
  exact .orElse (.seq (.seqLeft (.map (patternAlternatives_retains h)
    fun _ hpattern name _ => hnamed name hpattern)) .token) (patternAlternatives_retains h)

theorem topPatternRule_retains : topPatternRule.Retains c P :=
  .orElse (.map (.sepBy1 (keyPattern_retains h)) fun _ hitems =>
    h.about.mk rfl (slotsAll_slots.mpr hitems))
    (.seq (.map (.sepBy1 (patternItem_retains h)) fun _ hitems trailing _ =>
      h.about.topPattern hitems trailing) .present)

/-! ## §13. All rules. -/

/-- **Every rule retains a property of watched nodes**, given that the symbols do, and that the
rules that make them do. -/
theorem rule_retains (hloop : loopExpression.Retains c P) (hfor : forExpression.Retains c P)
    (hmodified : statementRule.Retains c P) {s : Symbol} {i j : Nat} {v : s.Result}
    (hread : (rule s).Reads c i v j) : s.AllNodes P v := by
  have hcompound : compoundRule.Retains c P :=
    .orElse (ifExpression_retains h) <| .orElse (unlessExpression_retains h) <|
      .orElse hloop <| .orElse hfor <| .orElse (caseExpression_retains h) <|
      .orElse (beginExpression_retains h) <| .orElse (methodDefinition_retains h) <|
      .orElse (classDefinition_retains h) <| .orElse (moduleDefinition_retains h)
      (parenExpression_retains h)
  cases s with
  | statements => exact statementsRule_retains h _ _ _ hread
  | statement => exact hmodified _ _ _ hread
  | expression level => exact expressionRule_retains h level _ _ _ hread
  | expressionAtom => exact expressionAtomRule_retains h _ _ _ hread
  | commandCall => exact commandCallRule_retains h _ _ _ hread
  | command => exact commandRule_retains h _ _ _ hread
  | argument => exact argumentRule_retains h _ _ _ hread
  | ternary => exact ternaryRule_retains h _ _ _ hread
  | range => exact rangeRule_retains h _ _ _ hread
  | operation level => exact operationRule_retains h level _ _ _ hread
  | operand => exact operandRule_retains h _ _ _ hread
  | assigned => exact assignedRule_retains h _ _ _ hread
  | callArgument => exact callArgumentRule_retains h _ _ _ hread
  | primary => exact primaryRule_retains h _ _ _ hread
  | suffix => exact suffixRule_retains h _ _ _ hread
  | atom => exact atomRule_retains h _ _ _ hread
  | literal => exact literalRule_retains h _ _ _ hread
  | compound => exact hcompound _ _ _ hread
  | elseBranch => exact elseBranchRule_retains h _ _ _ hread
  | body => exact bodyRule_retains h _ _ _ hread
  | targetItem => exact targetItemRule_retains h _ _ _ hread
  | param ofBlock => exact paramRule_retains h ofBlock _ _ _ hread
  | topPattern => exact topPatternRule_retains h _ _ _ hread
  | pattern => exact patternRule_retains h _ _ _ hread
  | keyPattern => exact keyPatternRule_retains h _ _ _ hread

end RubySyntax.Grammar
