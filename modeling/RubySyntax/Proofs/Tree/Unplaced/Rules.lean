/-
  RubySyntax.Proofs.Tree.Unplaced.Rules
  ─────────────────────────────────────
  **THE RULES OF THE GRAMMAR ARE BLIND.**

  Each rule is blind if the symbols that it refers to are: its tokens are chosen by their kinds,
  and the functions that make its values, or refuse them, do not look at places.

  Main results:
    • `rule_blind` — every rule is blind, given that the symbols are.
-/
import RubySyntax.Grammar.Program
import RubySyntax.Proofs.Grammar.Blind

namespace RubySyntax.Grammar

open Token Grammar.Expr

/-! ## §1. Symbols. -/

/-- The value of a symbol without its places. -/
def Symbol.unplaced : (s : Symbol) → s.Result → s.Result
  | .statements, ns | .body, ns => ns.map Node.unplaced
  | .elseBranch, branch => branch.map Node.unplaced
  | .callArgument, a => a.unplaced
  | .primary, c | .atom, c => c.unplaced
  | .suffix, op => op.unplaced
  | .param _, n | .statement, n | .expression _, n | .expressionAtom, n | .commandCall, n
  | .command, n | .argument, n | .ternary, n | .range, n | .operation _, n | .operand, n
  | .assigned, n | .literal, n | .compound, n | .targetItem, n | .topPattern, n | .pattern, n
  | .keyPattern, n => n.unplaced

/-- Readings of the same tokens with and without their places, in which every symbol is blind. -/
structure BlindSymbols (c c' : Facts Symbol Symbol.Result) : Prop where
  facts : c.Unplaced c'
  call : ∀ s : Symbol, (Expr.call s).Mirrors c c' fun a b => b = s.unplaced a

variable {c c' : Facts Symbol Symbol.Result} (h : BlindSymbols c c')
include h

theorem tok_blind {kind : Kind} : (tok kind : Rule Token).Blind c c' := .token h.facts

theorem token_blind {kinds : List Kind} : (.token kinds : Rule Token).Blind c c' := .token h.facts

theorem statements_blind : statements.Blind c c' := h.call .statements

theorem expression_blind : expression.Blind c c' := h.call (.expression 0)

theorem argument_blind : argument.Blind c c' := h.call .argument

theorem primary_blind : primary.Blind c c' := h.call .primary

theorem body_blind : body.Blind c c' := h.call .body

theorem commandCall_blind : commandCall.Blind c c' := h.call .commandCall

theorem operation_blind : operation.Blind c c' := h.call (.operation 0)

theorem callArgument_blind : (.call Symbol.callArgument : Rule Node.Argument).Blind c c' :=
  h.call .callArgument

theorem elseBranch_blind : (.call Symbol.elseBranch : Rule (Option Node)).Blind c c' :=
  h.call .elseBranch

/-! ## §2. Shared expressions. -/

theorem term_blind : term.Blind c c' := .orElse (tok_blind h) (tok_blind h)

theorem newlines_blind : newlines.Blind c c' := .star (tok_blind h)

theorem thenMark_blind : thenMark.Blind c c' :=
  .orElse (.map (tok_blind h) fun _ => rfl)
    (.seq (.map (.plus (term_blind h)) fun _ _ => rfl) (.opt (tok_blind h)))

theorem doMark_blind : doMark.Blind c c' :=
  .orElse (.map (tok_blind h) fun _ => rfl) (.map (.plus (term_blind h)) fun _ => rfl)

theorem commaLine_blind : commaLine.Blind c c' :=
  .seq (.map (tok_blind h) fun _ _ => rfl) (newlines_blind h)

theorem primaryNode_blind : primaryNode.Blind c c' := .map (primary_blind h) fun _ => rfl

theorem primaryTarget_blind {target? : Node → Option Node}
    (ht : ∀ n, target? n.unplaced = (target? n).map Node.unplaced) :
    (primaryTarget target?).Blind c c' :=
  .check h.facts (primary_blind h) fun _ c => ht c.node

theorem target_blind : (primaryTarget Node.target?).Blind c c' :=
  primaryTarget_blind h Node.target?_unplaced

theorem block_blind : block.Blind c c' :=
  .map (statements_blind h) Node.ofStatements?_unplaced

theorem fullBlock_blind : fullBlock.Blind c c' :=
  .map (body_blind h) Node.ofStatements?_unplaced

theorem splatOrArgument_blind : splatOrArgument.Blind c c' :=
  .orElse
    (.seq (.map (token_blind h) fun op value => Node.splat_unplaced op (some value))
      (argument_blind h))
    (argument_blind h)

theorem splatsOrArguments_blind : (sepBy1 splatOrArgument comma).Blind c c' :=
  .sepBy1 (splatOrArgument_blind h) (tok_blind h)

/-! ## §3. Operations. -/

theorem oneLineMatch_blind (op : Kind) (feature : Version.Feature) :
    (oneLineMatch op feature).Blind c c' :=
  .since h.facts <| .check h.facts
    (.seq (.seq (.map (argument_blind h) fun _ _ _ => rfl) (tok_blind h)) (h.call .topPattern))
    fun v (value, op, p) => congrArg some (Node.matchPattern_unplaced v value op p)

theorem expressionAtomRule_blind : expressionAtomRule.Blind c c' :=
  .orElse (oneLineMatch_blind h _ _) <| .orElse (oneLineMatch_blind h _ _) <|
    .orElse (commandCall_blind h) (argument_blind h)

theorem ternaryRule_blind : ternaryRule.Blind c c' := by
  refine .orElse ?_ (h.call .range)
  refine .seq (.seqLeft (.seqLeft (.seqLeft ?_ (newlines_blind h)) (tok_blind h))
    (newlines_blind h)) (h.call .ternary)
  exact .seq (.seqLeft (.seqLeft (.map (h.call .range) Node.ternary_unplaced) (tok_blind h))
    (newlines_blind h)) (h.call .ternary)

theorem rangeRule_blind : rangeRule.Blind c c' := by
  refine .orElse ?_ <| .orElse ?_ <| .orElse ?_ (operation_blind h)
  · -- `a..b`
    exact .seq (.seq (.map (operation_blind h) fun lhs op rhs =>
      Node.range_unplaced (some lhs) op (some rhs)) (token_blind h)) (operation_blind h)
  · -- `a..`
    exact .since h.facts <| .seq (.map (operation_blind h) fun lhs op =>
      Node.range_unplaced (some lhs) op none) (token_blind h)
  · -- `..b`
    exact .since h.facts <| .seq (.map (token_blind h) fun op rhs =>
      Node.range_unplaced none op (some rhs)) (operation_blind h)

theorem argumentRule_blind : argumentRule.Blind c c' :=
  .orElse
    (.seq (.seqLeft (.map (tok_blind h) fun kw value => Node.defined_unplaced kw value none)
      (.notNext h.facts)) (argument_blind h))
    (h.call .ternary)

theorem assignedRule_blind : assignedRule.Blind c c' := by
  have hfallback : (Prod.mk <$> tok .kRESCUE_MOD <*> argument : Rule (Token × Node)).Blind c c' :=
    .seq (.map (tok_blind h) fun _ _ => rfl) (argument_blind h)
  refine .seq (.map (.orElse (commandCall_blind h) (argument_blind h)) fun value fallback => ?_)
    (.opt hfallback)
  cases fallback with
  | none => rfl
  | some fallback => exact Node.rescueModifier_unplaced value fallback.1 fallback.2

theorem operandRule_blind : operandRule.Blind c c' := by
  refine .orElse ?_ <| .orElse ?_ (primaryNode_blind h)
  · -- `target = value`
    exact .check h.facts (.seq (.seqLeft (.map (primary_blind h) fun _ _ => rfl) (tok_blind h))
      (h.call .assigned)) fun _ (target, value) => Node.assign?_unplaced target.node value
  · -- `target += value`
    exact .check h.facts (.seq (.seq (.map (primary_blind h) fun _ _ _ => rfl) (tok_blind h))
      (h.call .assigned)) fun _ (target, op, value) =>
        Node.operatorAssign?_unplaced target.node op value

theorem operationRule_blind (level : Nat) : (operationRule level).Blind c c' := by
  refine blind_climb h.facts (fun b hb => ?_) (h.call .operand) (fun l => h.call (.operation l)) level
  simp only [binaryLevels, List.mem_cons, List.not_mem_nil, or_false] at hb
  rcases hb with rfl | rfl | hb
  · exact fun x _ y => Node.joined_unplaced .orOp x y
  · exact fun x _ y => Node.joined_unplaced .andOp x y
  · have hcombine : b.combine = Node.binary := by
      rcases hb with rfl | rfl | rfl | rfl | rfl | rfl | rfl | rfl <;> rfl
    rw [hcombine]
    exact Node.binary_unplaced

theorem expressionRule_blind (level : Nat) : (expressionRule level).Blind c c' := by
  refine blind_climb h.facts (fun b hb => ?_) (h.call .expressionAtom)
    (fun l => h.call (.expression l)) level
  cases List.mem_singleton.mp hb
  exact fun x _ y => Node.joined_unplaced _ x y

/-! ## §4. Parameters and blocks. -/

theorem optName_blind : optName.Blind c c' := .opt (tok_blind h)

theorem defaultValue_blind (ofBlock : Bool) : (defaultValue ofBlock).Blind c c' :=
  .orElse (.check h.facts (argument_blind h) fun _ _ => by cases ofBlock <;> rfl)
    (primaryNode_blind h)

theorem paramRule_blind (ofBlock : Bool) : (paramRule ofBlock).Blind c c' := by
  refine .orElse ?_ <| .orElse ?_ <| .orElse ?_ <| .orElse ?_ <| .orElse ?_ <| .orElse ?_ <|
    .orElse ?_ <| .orElse ?_ <| .orElse ?_ ?_
  · -- `...`
    exact .since h.facts <| .map (tok_blind h) (Node.bare_unplaced .forwardArg)
  · -- `name: value`
    exact .seq (.map (tok_blind h) fun label value =>
      Node.param_unplaced .kwoptarg label (some label) (some value)) (defaultValue_blind h ofBlock)
  · -- `name:`
    exact .map (tok_blind h) fun label => Node.param_unplaced .kwarg label (some label) none
  · -- `**nil`
    exact .seq (.map (tok_blind h) Node.noKeywords_unplaced) (tok_blind h)
  · -- `**name`, `**`
    exact .seq (.map (tok_blind h) fun op name => Node.param_unplaced .kwrestarg op name none)
      (optName_blind h)
  · -- `*name`, `*`
    exact .seq (.map (token_blind h) fun op name => Node.param_unplaced .restarg op name none)
      (optName_blind h)
  · -- `&name`, `&`
    exact .seq (.map (token_blind h) fun op name => Node.param_unplaced .blockarg op name none)
      (optName_blind h)
  · -- `name = value`
    exact .seq (.seqLeft (.map (tok_blind h) fun name value =>
      Node.param_unplaced .optarg name (some name) (some value)) (tok_blind h))
        (defaultValue_blind h ofBlock)
  · -- `name`
    exact .map (tok_blind h) fun name => Node.param_unplaced .arg name (some name) none
  · -- `(a, b)`
    exact .seq (.seq (.map (token_blind h) Node.parenTargets_unplaced)
      (.sepBy1 (h.call (.param ofBlock)) (tok_blind h))) (tok_blind h)

theorem parenParams_blind : parenParams.Blind c c' :=
  .seq (.seq (.map (token_blind h) Node.parenParams_unplaced)
    (.sepBy (h.call (.param false)) (tok_blind h))) (tok_blind h)

theorem methodParams_blind : methodParams.Blind c c' :=
  .orElse (parenParams_blind h)
    (.map (.sepBy1 (h.call (.param false)) (tok_blind h)) Node.bareParams_unplaced)

theorem ownNames_blind : ownNames.Blind c c' :=
  .seqRight (tok_blind h) <| .sepBy1
    (.map (tok_blind h) fun n => Node.param_unplaced .shadowarg n (some n) none) (tok_blind h)

theorem blockParams_blind : blockParams.Blind c c' := by
  refine .orElse (.map (tok_blind h) fun bars => Node.blockParams_unplaced bars [] false [] bars) ?_
  refine .seq (.seq (.seq (.seq (.map (tok_blind h) fun opening params trailing own closing => ?_)
    (.sepBy (h.call (.param true)) (tok_blind h))) (.present (tok_blind h)))
    (.opt (ownNames_blind h))) (tok_blind h)
  have hown : (unplaced own).getD [] = (own.getD []).map Node.unplaced := by
    cases own <;> rfl
  show Node.blockParams _ _ _ ((unplaced own).getD []) _ = _
  rw [hown]
  exact Node.blockParams_unplaced opening params trailing (own.getD []) closing

theorem braceBlock_blind : braceBlock.Blind c c' :=
  .seq (.seq (.seq (.map (tok_blind h) fun _ _ _ _ => rfl) (.opt (blockParams_blind h)))
    (block_blind h)) (tok_blind h)

theorem doBlock_blind : doBlock.Blind c c' :=
  .seq (.seq (.seq (.map (tok_blind h) fun _ _ _ _ => rfl) (.opt (blockParams_blind h)))
    (fullBlock_blind h)) (tok_blind h)

theorem lambdaBody_blind : lambdaBody.Blind c c' :=
  .orElse (.seq (.seq (.map (tok_blind h) fun _ _ _ => rfl) (block_blind h)) (tok_blind h))
    (.seq (.seq (.map (tok_blind h) fun _ _ _ => rfl) (fullBlock_blind h)) (tok_blind h))

theorem lambda_blind : lambda.Blind c c' :=
  .check h.facts
    (.seq (.seq (.map (tok_blind h) fun _ _ _ => rfl) (.opt (methodParams_blind h)))
      (lambdaBody_blind h))
    fun v (arrow, params, body) => congrArg some (Node.lambda_unplaced v arrow params body)

/-! ## §5. Arguments and commands. -/

theorem callArgumentRule_blind : callArgumentRule.Blind c c' := by
  refine .orElse ?_ <| .orElse ?_ <| .orElse ?_ <| .orElse ?_ <| .orElse ?_ <| .orElse ?_ <|
    .orElse ?_ <| .orElse ?_ <| .orElse ?_ <| .orElse ?_ <| .orElse ?_ ?_
  · -- `...`
    exact .since h.facts <| .seqLeft (.map (tok_blind h) fun dots =>
      congrArg Node.Argument.positional (Node.bare_unplaced .forwardedArgs dots)) (.next h.facts)
  · -- `&value`
    exact .seq (.map (tok_blind h) fun op value =>
      congrArg Node.Argument.blockPass (Node.blockPass_unplaced op (some value))) (argument_blind h)
  · -- `&`
    exact .since h.facts <| .map (tok_blind h) fun op =>
      congrArg Node.Argument.blockPass (Node.blockPass_unplaced op none)
  · -- `**value`
    exact .seq (.map (tok_blind h) fun op value =>
      congrArg Node.Argument.pair (Node.doubleSplat_unplaced op value)) (argument_blind h)
  · -- `**`
    exact .since h.facts <| .map (tok_blind h) fun op =>
      congrArg Node.Argument.pair (Node.bare_unplaced .forwardedKwrestarg op)
  · -- `*value`
    exact .seq (.map (tok_blind h) fun op value =>
      congrArg Node.Argument.positional (Node.splat_unplaced op (some value))) (argument_blind h)
  · -- `*`
    exact .since h.facts <| .map (tok_blind h) fun op =>
      congrArg Node.Argument.positional (Node.bare_unplaced .forwardedRestarg op)
  · -- `label: value`
    exact .seq (.seqLeft (.map (tok_blind h) fun label value =>
      congrArg Node.Argument.pair (Node.labelled_unplaced label value)) (newlines_blind h))
      (argument_blind h)
  · -- `label:`
    exact .since h.facts <| .map (tok_blind h) fun label =>
      congrArg Node.Argument.pair (Node.labelAlone_unplaced label)
  · -- `key => value`
    exact .seq (.seqLeft (.map (argument_blind h) fun key value =>
      congrArg Node.Argument.pair (Node.pair_unplaced key value)) (tok_blind h)) (argument_blind h)
  · -- a command
    exact .map (h.call .command) fun _ => rfl
  · -- any other argument
    exact .map (argument_blind h) fun _ => rfl

theorem argumentList_blind : argumentList.Blind c c' :=
  .seqLeft (.sepBy (callArgument_blind h) (tok_blind h)) (.opt (tok_blind h))

theorem parenArguments_blind : parenArguments.Blind c c' :=
  .seq (.map (.seqRight (tok_blind h) (argumentList_blind h)) fun _ _ => rfl) (tok_blind h)

theorem commandArguments_blind : commandArguments.Blind c c' :=
  .sepBy1 (callArgument_blind h) (tok_blind h)

theorem commandRule_blind : commandRule.Blind c c' := by
  refine .orElse (.seq (.map (token_blind h) Node.jump_unplaced) (commandArguments_blind h)) ?_
  have hopen : (filterMap (fun c => if c.isOpen then some c else none) primary :
      Rule Node.Chain).Blind c c' := by
    refine .check h.facts (primary_blind h) fun _ c => ?_
    obtain ⟨n, isOpen⟩ := c
    cases isOpen <;> rfl
  exact .check h.facts (.seq (.map hopen fun _ _ => rfl) (commandArguments_blind h))
    fun _ (c, items) => Node.command?_unplaced c items

theorem commandCallRule_blind : commandCallRule.Blind c c' := by
  refine .orElse ?_ ?_
  · refine .check h.facts (.seq (.map (h.call .command) fun _ _ => rfl) (.opt (doBlock_blind h)))
      fun v (n, parts) => ?_
    cases parts with
    | none => rfl
    | some parts => exact Node.attachBlock?_unplaced v n parts
  · exact .check h.facts (.seq (.map (argument_blind h) fun _ _ => rfl) (doBlock_blind h))
      fun v (n, parts) => Node.attachBlock?_unplaced v n parts

/-! ## §6. Primary expressions. -/

theorem suffixRule_blind : suffixRule.Blind c c' := by
  have harguments : (opt parenArguments).Blind c c' := .opt (parenArguments_blind h)
  refine .orElse ?_ <| .orElse ?_ <| .orElse ?_ <| .orElse ?_ <| .orElse ?_ ?_
  · -- `.name`, `.name(…)`
    exact .seq (.seq (.map (token_blind h) fun _ _ _ => rfl) (token_blind h)) harguments
  · -- `.(…)`
    exact .seq (.map (token_blind h) fun _ _ => rfl) (parenArguments_blind h)
  · -- `::Name`
    exact .seqLeft (.map (.seqRight (tok_blind h) (tok_blind h)) fun _ => rfl) (.notNext h.facts)
  · -- `::name`, `::name(…)`
    exact .seq (.seq (.map (tok_blind h) fun _ _ _ => rfl) (token_blind h)) harguments
  · -- `[…]`
    exact .seq (.map (.seqRight (tok_blind h) (argumentList_blind h)) fun _ _ => rfl) (tok_blind h)
  · -- `{ … }`
    exact .map (braceBlock_blind h) fun _ => rfl

theorem primaryRule_blind : primaryRule.Blind c c' :=
  .check h.facts (.seq (.map (h.call .atom) fun _ _ => rfl) (.star (h.call .suffix)))
    fun v (first, ops) => Node.applySuffixes?_unplaced v first ops

theorem atomRule_blind : atomRule.Blind c c' := by
  refine .orElse ?_ <| .orElse ?_ <| .orElse ?_ <| .orElse ?_ <| .orElse ?_ <| .orElse ?_ <|
    .orElse ?_ <| .orElse ?_ <| .orElse ?_ <| .orElse ?_ <| .orElse ?_ <| .orElse ?_ ?_
  · exact .map (h.call .literal) fun _ => rfl
  · exact .map (h.call .compound) fun _ => rfl
  · -- `defined?(value)`
    exact .seq (.seqLeft (.seq (.seqLeft (.seqLeft (.map (tok_blind h) fun kw value closing =>
      congrArg Node.Chain.closed (Node.defined_unplaced kw value (some closing))) (token_blind h))
      (newlines_blind h)) (expression_blind h)) (newlines_blind h)) (tok_blind h)
  · exact .seq (.map (tok_blind h) Node.superChain_unplaced) (.opt (parenArguments_blind h))
  · exact .seq (.map (tok_blind h) Node.yieldChain_unplaced) (.opt (parenArguments_blind h))
  · exact .map (token_blind h) fun kw => congrArg Node.Chain.closed (Node.jump_unplaced kw [])
  · -- `::Name`
    exact .seq (.map (tok_blind h) fun colons name =>
      congrArg Node.Chain.opened (Node.topConstant_unplaced colons name)) (tok_blind h)
  · -- `name(…)`
    exact .seq (.map (token_blind h) fun name (items, closing) =>
      congrArg Node.Chain.closed (Node.functionCall_unplaced name items closing))
      (parenArguments_blind h)
  · exact .map (tok_blind h) fun x => congrArg Node.Chain.opened (Node.identifier_unplaced x)
  · exact .map (tok_blind h) fun x => congrArg Node.Chain.opened (Node.nameCall_unplaced x)
  · exact .map (tok_blind h) fun x => congrArg Node.Chain.opened (Node.constant_unplaced none x)
  · exact .map (token_blind h) fun x => congrArg Node.Chain.closed (Node.markedVariable_unplaced x)
  · exact .map (lambda_blind h) fun _ => rfl

/-! ## §7. Literals. -/

theorem stringPart_blind : stringPart.Blind c c' :=
  .orElse (.map (tok_blind h) fun _ => rfl)
    (.seq (.seq (.map (tok_blind h) fun _ _ _ => rfl) (statements_blind h)) (tok_blind h))

theorem stringLiteral_blind : stringLiteral.Blind c c' :=
  .orElse (.seq (.seq (.map (tok_blind h) Node.string_unplaced) (.star (stringPart_blind h)))
    (tok_blind h)) (.map (tok_blind h) Node.character_unplaced)

theorem hashItem_blind : hashItem.Blind c c' := by
  refine .orElse ?_ <| .orElse ?_ <| .orElse ?_ ?_
  · -- `label: value`
    exact .seq (.seqLeft (.map (tok_blind h) Node.labelled_unplaced) (newlines_blind h))
      (argument_blind h)
  · -- `label:`
    exact .since h.facts <| .map (tok_blind h) Node.labelAlone_unplaced
  · -- `**value`
    exact .seq (.map (tok_blind h) Node.doubleSplat_unplaced) (argument_blind h)
  · -- `key => value`
    exact .seq (.seqLeft (.seqLeft (.map (argument_blind h) Node.pair_unplaced) (tok_blind h))
      (newlines_blind h)) (argument_blind h)

theorem hashLiteral_blind : hashLiteral.Blind c c' :=
  .seq (.seqLeft (.seqLeft (.seq (.seqLeft (.map (tok_blind h) Node.hash_unplaced)
    (newlines_blind h)) (.sepBy (hashItem_blind h) (commaLine_blind h)))
    (.opt (commaLine_blind h))) (newlines_blind h)) (tok_blind h)

theorem literalRule_blind : literalRule.Blind c c' := by
  have hparts : (.star stringPart : Rule (List Node.StringPart)).Blind c c' :=
    .star (stringPart_blind h)
  have hword (kind : Node.Kind) {word : Kind} : (Node.bare kind <$> tok word : Rule Node).Blind c c' :=
    .map (tok_blind h) (Node.bare_unplaced kind)
  refine .orElse ?_ <| .orElse ?_ <| .orElse ?_ <| .orElse ?_ <| .orElse ?_ <| .orElse ?_ <|
    .orElse ?_ <| .orElse ?_ <| .orElse ?_ <| .orElse ?_ <| .orElse (hashLiteral_blind h) <|
    .orElse (hword _) <| .orElse (hword _) <| .orElse (hword _) <| .orElse (hword _) <|
    .orElse (hword _) <| .orElse (hword _) <| .orElse (hword _) <| .orElse (hword _) (hword _)
  · exact .map (tok_blind h) Node.integer_unplaced
  · exact .map (tok_blind h) Node.float_unplaced
  · exact .map (tok_blind h) Node.rational_unplaced
  · exact .map (tok_blind h) Node.complex_unplaced
  · exact .map (.plus (stringLiteral_blind h)) Node.concatenation_unplaced
  · exact .seq (.seq (.map (tok_blind h) Node.commandString_unplaced) hparts) (tok_blind h)
  · exact .map (tok_blind h) Node.symbol_unplaced
  · exact .seq (.seq (.map (tok_blind h) Node.quotedSymbol_unplaced) hparts) (tok_blind h)
  · exact .seq (.seq (.seq (.map (tok_blind h) Node.regexp_unplaced) hparts) (tok_blind h))
      (tok_blind h)
  · exact .seq (.seq (.map (tok_blind h) Node.array_unplaced) (argumentList_blind h)) (tok_blind h)

/-! ## §8. Statements. -/

theorem parenTargets_blind : parenTargets.Blind c c' :=
  .seq (.seqLeft (.seq (.map (token_blind h) Node.parenTargets_unplaced)
    (.sepBy1 (h.call .targetItem) (tok_blind h))) (.opt (tok_blind h))) (tok_blind h)

theorem splatTarget_blind : splatTarget.Blind c c' :=
  .seq (.map (token_blind h) Node.splat_unplaced) (.opt (target_blind h))

theorem targetItemRule_blind : targetItemRule.Blind c c' :=
  .orElse (parenTargets_blind h) <| .orElse (splatTarget_blind h) (target_blind h)

theorem targets_blind : targets.Blind c c' := by
  refine .orElse ?_ <| .orElse ?_ ?_
  · exact .seqLeft (.seq (.seqLeft (.map (h.call .targetItem) fun first rest =>
      Node.targets_unplaced (first :: rest)) (tok_blind h))
      (.sepBy (h.call .targetItem) (tok_blind h))) (.opt (tok_blind h))
  · exact .map (splatTarget_blind h) fun s => Node.targets_unplaced [s]
  · exact .map (parenTargets_blind h) fun p => Node.targets_unplaced [p]

theorem multipleAssignment_blind : multipleAssignment.Blind c c' :=
  .seq (.seqLeft (.map (targets_blind h) Node.multipleAssign_unplaced) (tok_blind h)) <|
    .orElse (commandCall_blind h)
      (.map (splatsOrArguments_blind h) Node.multipleValues_unplaced)

theorem severalValues_blind : severalValues.Blind c c' :=
  .check h.facts (.seq (.seqLeft (.map (primary_blind h) fun _ _ => rfl) (tok_blind h))
    (splatsOrArguments_blind h)) fun _ (target, items) =>
      Node.assignValues?_unplaced target.node items

theorem methodName_blind : methodName.Blind c c' := .map (token_blind h) Node.symbol_unplaced

theorem globalVariable_blind : globalVariable.Blind c c' :=
  .map (token_blind h) Node.markedVariable_unplaced

theorem plainStatement_blind : plainStatement.Blind c c' := by
  refine .orElse ?_ <| .orElse ?_ <| .orElse ?_ <| .orElse ?_ <|
    .orElse (multipleAssignment_blind h) <| .orElse (severalValues_blind h) (expression_blind h)
  · exact .seq (.seq (.map (tok_blind h) Node.aliasDef_unplaced) (globalVariable_blind h))
      (globalVariable_blind h)
  · exact .seq (.seq (.map (tok_blind h) Node.aliasDef_unplaced) (methodName_blind h))
      (methodName_blind h)
  · exact .seq (.map (tok_blind h) Node.undefNames_unplaced)
      (.sepBy1 (methodName_blind h) (tok_blind h))
  · exact .seq (.seq (.seqLeft (.map (token_blind h) Node.beforeOrAfter_unplaced) (token_blind h))
      (statements_blind h)) (tok_blind h)

theorem modifier_blind : modifier.Blind c c' :=
  .seq (.map (token_blind h) fun _ _ => rfl) (expression_blind h)

omit h in
/-- Modifiers of a statement, one after another. -/
theorem modifiers_unplaced (s : Node) (mods : List (Token × Node)) :
    (mods.map unplaced).foldl (fun body m => Node.modified body m.1 m.2) s.unplaced =
      (mods.foldl (fun body m => Node.modified body m.1 m.2) s).unplaced := by
  induction mods generalizing s with
  | nil => rfl
  | cons m mods ih =>
      have hs : Node.modified s.unplaced (unplaced m).1 (unplaced m).2 =
          (Node.modified s m.1 m.2).unplaced := Node.modified_unplaced s m.1 m.2
      rw [List.map_cons, List.foldl_cons, List.foldl_cons, ← ih, hs]

theorem statementRule_blind : statementRule.Blind c c' :=
  .seq (.map (plainStatement_blind h) modifiers_unplaced) (.star (modifier_blind h))

theorem statementsRule_blind : statementsRule.Blind c c' :=
  .seqLeft (.seqRight (.star (term_blind h))
    (.sepBy (h.call .statement) (.plus (term_blind h)))) (.star (term_blind h))

/-! ## §9. Conditionals, loops and choices. -/

omit h in
/-- A branch that may be missing, and may be empty. -/
theorem join_unplaced (no : Option (Option Node)) :
    (unplaced no).join = no.join.map Node.unplaced := by
  match no with
  | none | some none | some (some _) => rfl

theorem ifExpression_blind : ifExpression.Blind c c' := by
  refine .seq (.seq (.seq (.seqLeft (.seq (.map (tok_blind h) fun kw cond yes no closing => ?_)
    (expression_blind h)) (thenMark_blind h)) (block_blind h)) (.opt (elseBranch_blind h)))
    (tok_blind h)
  have hconditional := Node.conditional_unplaced kw cond yes no.join closing.span
  rw [← join_unplaced] at hconditional
  exact hconditional

theorem elseBranchRule_blind : elseBranchRule.Blind c c' := by
  refine .orElse ?_ (.seqRight (tok_blind h) (block_blind h))
  refine .seq (.seq (.seqLeft (.seq (.map (tok_blind h) fun kw cond yes no => ?_)
    (expression_blind h)) (thenMark_blind h)) (block_blind h)) (.opt (elseBranch_blind h))
  have helse := Node.elseIf_unplaced kw cond yes no.join
  rw [← join_unplaced] at helse
  exact congrArg some helse

theorem unlessExpression_blind : unlessExpression.Blind c c' := by
  refine .seq (.seq (.seq (.seqLeft (.seq (.map (tok_blind h) fun kw cond no yes closing => ?_)
    (expression_blind h)) (thenMark_blind h)) (block_blind h))
    (.opt (.seqRight (tok_blind h) (block_blind h)))) (tok_blind h)
  have hconditional := Node.conditional_unplaced kw cond yes.join no closing.span
  rw [← join_unplaced] at hconditional
  exact hconditional

theorem loopExpression_blind : loopExpression.Blind c c' :=
  .seq (.seq (.seqLeft (.seq (.map (token_blind h) Node.conditionLoop_unplaced)
    (expression_blind h)) (doMark_blind h)) (block_blind h)) (tok_blind h)

theorem forExpression_blind : forExpression.Blind c c' :=
  .seq (.seq (.seqLeft (.seq (.seqLeft (.seq (.map (tok_blind h) Node.forLoop_unplaced)
    (.orElse (targets_blind h) (target_blind h))) (tok_blind h)) (expression_blind h))
    (doMark_blind h)) (block_blind h)) (tok_blind h)

theorem elseClause_blind : elseClause.Blind c c' :=
  .seq (.map (tok_blind h) fun _ _ => rfl) (block_blind h)

theorem whenClause_blind : whenClause.Blind c c' :=
  .seq (.seqLeft (.seq (.map (tok_blind h) Node.whenClause_unplaced) (splatsOrArguments_blind h))
    (thenMark_blind h)) (block_blind h)

theorem patternGuard_blind : patternGuard.Blind c c' :=
  .seq (.map (token_blind h) Node.guard_unplaced) (expression_blind h)

theorem inClause_blind : inClause.Blind c c' :=
  .seq (.seqLeft (.seq (.seq (.map (tok_blind h) Node.inPattern_unplaced) (h.call .topPattern))
    (.opt (patternGuard_blind h))) (thenMark_blind h)) (block_blind h)

theorem caseExpression_blind : caseExpression.Blind c c' := by
  have helse : (opt elseClause).Blind c c' := .opt (elseClause_blind h)
  refine .orElse ?_ (.since h.facts ?_)
  · exact .seq (.seq (.seq (.seqLeft (.seq (.map (tok_blind h) Node.caseWhen_unplaced)
      (.opt (expression_blind h))) (.star (term_blind h))) (.plus (whenClause_blind h))) helse)
      (tok_blind h)
  · exact .seq (.seq (.seq (.seqLeft (.seq (.map (tok_blind h) Node.caseMatch_unplaced)
      (expression_blind h)) (.star (term_blind h))) (.plus (inClause_blind h))) helse)
      (tok_blind h)

/-! ## §10. Bodies and definitions. -/

theorem rescueVariable_blind : rescueVariable.Blind c c' :=
  .seqRight (tok_blind h) (target_blind h)

theorem rescueClause_blind : rescueClause.Blind c c' :=
  .seq (.seqLeft (.seq (.seq (.map (tok_blind h) Node.rescueClause_unplaced)
    (.opt (splatsOrArguments_blind h))) (.opt (rescueVariable_blind h))) (thenMark_blind h))
    (block_blind h)

theorem bodyRule_blind : bodyRule.Blind c c' := by
  have hensure : (Prod.mk <$> tok .kENSURE <*> statements :
      Rule (Token × List Node)).Blind c c' :=
    .seq (.map (tok_blind h) fun _ _ => rfl) (statements_blind h)
  exact .seq (.seq (.seq (.map (statements_blind h) Node.bodyStatements_unplaced)
    (.star (rescueClause_blind h))) (.opt (.seqRight (tok_blind h) (statements_blind h))))
    (.opt hensure)

theorem beginExpression_blind : beginExpression.Blind c c' :=
  .seq (.seq (.map (tok_blind h) Node.keywordBegin_unplaced) (body_blind h)) (tok_blind h)

theorem parenExpression_blind : parenExpression.Blind c c' :=
  .seq (.seq (.map (token_blind h) Node.parenthesized_unplaced) (statements_blind h)) (tok_blind h)

theorem methodHead_blind : methodHead.Blind c c' := by
  refine .orElse ?_ (.map (token_blind h) fun _ => rfl)
  refine .seq (.seqLeft (.map (token_blind h) fun object name => ?_) (tok_blind h)) (token_blind h)
  exact congrArg (fun n => Node.MethodHead.mk (some n) name.unplaced)
    (Node.methodReceiver_unplaced object)

omit h in
/-- A parameter list, or the empty one in its place. -/
theorem params_unplaced (head : Node.MethodHead) (params : Option Node) :
    (unplaced params).getD (Node.noParams head.unplaced.name) =
      (params.getD (Node.noParams head.name)).unplaced := by
  cases params with
  | none => exact Node.noParams_unplaced head.name
  | some params => rfl

theorem methodDefinition_blind : methodDefinition.Blind c c' := by
  refine .orElse (.since h.facts ?_) ?_
  · refine .seq (.seqLeft (.seq (.seq (.map (tok_blind h) fun kw head params value => ?_)
      (methodHead_blind h)) (.opt (parenParams_blind h))) (tok_blind h)) (h.call .assigned)
    have hdef := Node.methodDef_unplaced kw head (params.getD (Node.noParams head.name))
      (some value) value.span
    rw [← params_unplaced, ← Node.span_unplaced value] at hdef
    exact hdef
  · refine .seq (.seq (.seq (.seq (.map (tok_blind h) fun kw head params body closing => ?_)
      (methodHead_blind h)) (.opt (methodParams_blind h))) (fullBlock_blind h)) (tok_blind h)
    have hdef := Node.methodDef_unplaced kw head (params.getD (Node.noParams head.name)) body
      closing.span
    rw [← params_unplaced] at hdef
    exact hdef

theorem constantPath_blind : constantPath.Blind c c' := by
  refine primaryTarget_blind h fun n => ?_
  rw [Node.kind_unplaced]
  split <;> rfl

theorem classDefinition_blind : classDefinition.Blind c c' := by
  refine .orElse ?_ ?_
  · exact .seq (.seq (.seq (.seqLeft (.map (tok_blind h) Node.singletonClass_unplaced)
      (tok_blind h)) (expression_blind h)) (fullBlock_blind h)) (tok_blind h)
  · exact .seq (.seq (.seq (.seq (.map (tok_blind h) Node.classDef_unplaced)
      (constantPath_blind h)) (.opt (.seqRight (tok_blind h) (expression_blind h))))
      (fullBlock_blind h)) (tok_blind h)

theorem moduleDefinition_blind : moduleDefinition.Blind c c' :=
  .seq (.seq (.seq (.map (tok_blind h) Node.moduleDef_unplaced) (constantPath_blind h))
    (fullBlock_blind h)) (tok_blind h)

theorem compoundRule_blind : compoundRule.Blind c c' :=
  .orElse (ifExpression_blind h) <| .orElse (unlessExpression_blind h) <|
    .orElse (loopExpression_blind h) <| .orElse (forExpression_blind h) <|
    .orElse (caseExpression_blind h) <| .orElse (beginExpression_blind h) <|
    .orElse (methodDefinition_blind h) <| .orElse (classDefinition_blind h) <|
    .orElse (moduleDefinition_blind h) (parenExpression_blind h)

/-! ## §11. Patterns. -/

theorem patternRest_blind : patternRest.Blind c c' :=
  .seq (.map (token_blind h) Node.matchRest_unplaced) (.opt (tok_blind h))

theorem patternItem_blind : patternItem.Blind c c' :=
  .orElse (patternRest_blind h) (h.call .pattern)

theorem keyPatternRule_blind : keyPatternRule.Blind c c' :=
  .orElse (.seq (.map (tok_blind h) Node.labelled_unplaced) (h.call .pattern)) <|
    .orElse (.map (tok_blind h) Node.matchVar_unplaced) <|
    .orElse (.seq (.map (tok_blind h) Node.matchNoRest_unplaced) (tok_blind h))
      (.seq (.map (tok_blind h) Node.matchRest_unplaced) (.opt (tok_blind h)))

omit h in
/-- Constants in a scope, one after another. -/
theorem constants_unplaced (head : Node) (names : List Token) :
    (names.map Token.unplaced).foldl (fun scope n => Node.constant (some scope) n) head.unplaced =
      (names.foldl (fun scope n => Node.constant (some scope) n) head).unplaced := by
  induction names generalizing head with
  | nil => rfl
  | cons name names ih =>
      have hhead : Node.constant (some head.unplaced) name.unplaced =
          (Node.constant (some head) name).unplaced := Node.constant_unplaced (some head) name
      rw [List.map_cons, List.foldl_cons, List.foldl_cons, ← ih, hhead]

theorem patternConstant_blind : patternConstant.Blind c c' :=
  .seq (.map (.orElse (.seq (.map (tok_blind h) Node.topConstant_unplaced) (tok_blind h))
    (.map (tok_blind h) fun name => Node.constant_unplaced none name)) constants_unplaced)
    (.star (.seqRight (tok_blind h) (tok_blind h)))

theorem patternScalar_blind : patternScalar.Blind c c' :=
  .seqRight (.notNext h.facts) (primaryNode_blind h)

theorem patternValue_blind : patternValue.Blind c c' := by
  refine .orElse ?_ <| .orElse ?_ <| .orElse ?_ (patternScalar_blind h)
  · exact .seq (.seq (.map (patternScalar_blind h) fun lhs op rhs =>
      Node.range_unplaced (some lhs) op (some rhs)) (token_blind h)) (patternScalar_blind h)
  · exact .seq (.map (patternScalar_blind h) fun lhs op =>
      Node.range_unplaced (some lhs) op none) (token_blind h)
  · exact .seq (.map (token_blind h) fun op rhs => Node.range_unplaced none op (some rhs))
      (patternScalar_blind h)

theorem pinTarget_blind : pinTarget.Blind c c' :=
  .orElse (.seq (.seq (.map (token_blind h) fun opening value closing =>
    Node.parenthesized_unplaced opening [value] closing) (expression_blind h)) (tok_blind h)) <|
    .orElse (.map (tok_blind h) Node.identifier_unplaced)
      (.map (token_blind h) Node.markedVariable_unplaced)

theorem patternPrimary_blind : patternPrimary.Blind c c' := by
  have hitems : (sepBy patternItem comma).Blind c c' := .sepBy (patternItem_blind h) (tok_blind h)
  have htrailing : (present comma : Rule Bool).Blind c c' := .present (tok_blind h)
  refine .orElse ?_ <| .orElse ?_ <| .orElse ?_ <| .orElse ?_ <| .orElse ?_ <|
    .orElse (patternValue_blind h) (.map (tok_blind h) Node.matchVar_unplaced)
  · -- `[…]`
    exact .seq (.seq (.seq (.map (token_blind h) Node.listPattern_unplaced) hitems) htrailing)
      (tok_blind h)
  · -- `{ … }`
    exact .seq (.seqLeft (.seqLeft (.seq (.seqLeft (.map (token_blind h) Node.hashPattern_unplaced)
      (newlines_blind h)) (.sepBy (h.call .keyPattern) (tok_blind h))) (.opt (tok_blind h)))
      (newlines_blind h)) (tok_blind h)
  · -- `Name(key: …)`
    refine .seq (.seq (.seq (.map (patternConstant_blind h) fun n opening items closing => ?_)
      (token_blind h)) (.sepBy1 (h.call .keyPattern) (tok_blind h))) (token_blind h)
    have hconst := Node.constPattern_unplaced n (Node.hashPattern opening items closing) closing
    rw [← Node.hashPattern_unplaced] at hconst
    exact hconst
  · -- `Name(…)`
    refine .seq (.seq (.seq (.seq (.map (patternConstant_blind h)
      fun n opening items trailing closing => ?_) (token_blind h)) hitems) htrailing)
      (token_blind h)
    have hconst := Node.constPattern_unplaced n (Node.listPattern opening items trailing closing)
      closing
    rw [← Node.listPattern_unplaced] at hconst
    exact hconst
  · -- `^value`
    exact .seq (.map (tok_blind h) Node.pin_unplaced) (pinTarget_blind h)

omit h in
/-- Alternatives, one after another. -/
theorem alternatives_unplaced (first : Node) (rest : List Node) :
    (rest.map Node.unplaced).foldl Node.matchAlt first.unplaced =
      (rest.foldl Node.matchAlt first).unplaced := by
  induction rest generalizing first with
  | nil => rfl
  | cons n rest ih =>
      rw [List.map_cons, List.foldl_cons, List.foldl_cons, ← ih, Node.matchAlt_unplaced]

theorem patternAlternatives_blind : patternAlternatives.Blind c c' :=
  .seq (.map (patternPrimary_blind h) alternatives_unplaced)
    (.star (.seqRight (tok_blind h) (patternPrimary_blind h)))

theorem patternRule_blind : patternRule.Blind c c' :=
  .orElse (.seq (.seqLeft (.map (patternAlternatives_blind h) Node.matchAs_unplaced)
    (tok_blind h)) (tok_blind h)) (patternAlternatives_blind h)

theorem topPatternRule_blind : topPatternRule.Blind c c' :=
  .orElse (.map (.sepBy1 (h.call .keyPattern) (tok_blind h)) Node.bareHashPattern_unplaced)
    (.seq (.map (.sepBy1 (patternItem_blind h) (tok_blind h)) Node.topPattern_unplaced)
      (.present (tok_blind h)))

/-! ## §12. All rules. -/

/-- **Every rule is blind**, given that the symbols are. -/
theorem rule_blind (s : Symbol) : (rule s).Mirrors c c' fun a b => b = s.unplaced a := by
  cases s with
  | statements => exact statementsRule_blind h
  | statement => exact statementRule_blind h
  | expression level => exact expressionRule_blind h level
  | expressionAtom => exact expressionAtomRule_blind h
  | commandCall => exact commandCallRule_blind h
  | command => exact commandRule_blind h
  | argument => exact argumentRule_blind h
  | ternary => exact ternaryRule_blind h
  | range => exact rangeRule_blind h
  | operation level => exact operationRule_blind h level
  | operand => exact operandRule_blind h
  | assigned => exact assignedRule_blind h
  | callArgument => exact callArgumentRule_blind h
  | primary => exact primaryRule_blind h
  | suffix => exact suffixRule_blind h
  | atom => exact atomRule_blind h
  | literal => exact literalRule_blind h
  | compound => exact compoundRule_blind h
  | elseBranch => exact elseBranchRule_blind h
  | body => exact bodyRule_blind h
  | targetItem => exact targetItemRule_blind h
  | param ofBlock => exact paramRule_blind h ofBlock
  | topPattern => exact topPatternRule_blind h
  | pattern => exact patternRule_blind h
  | keyPattern => exact keyPatternRule_blind h

end RubySyntax.Grammar
