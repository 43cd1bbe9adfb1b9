/-
  RubySyntax.Proofs.Tree.Layout.Rules
  ───────────────────────────────────
  **THE RULES OF THE GRAMMAR KEEP TREES WELL FORMED.**

  For each symbol `Symbol.WellFormed` says what the grammar promises of its values: most are
  well-formed nodes, a parameter is one that can stand in a parameter list, an argument or a
  suffix has well-formed parts.  Each rule keeps the promise of its symbol if the symbols that it
  refers to keep theirs.

  Main results:
    • `language_wellFormed` — the promises are closed under the rules of the language.
-/
import RubySyntax.Grammar.Program
import RubySyntax.Proofs.Grammar.Yields
import RubySyntax.Proofs.Tree.Layout.Control

namespace RubySyntax.Grammar

open Token Grammar.Expr

/-! ## §1. What symbols promise. -/

/-- What the grammar promises of the values of a symbol. -/
def Symbol.WellFormed : (s : Symbol) → s.Result → Prop
  | .statements, ns | .body, ns => ∀ n ∈ ns, Node.WellFormed n
  | .elseBranch, branch => ∀ n ∈ branch, Node.WellFormed n
  | .callArgument, a => Node.WellFormed a.node
  | .primary, c | .atom, c => Node.WellFormed c.node
  | .suffix, op => Node.Suffix.WellFormed op
  | .param _, n => Node.IsParameter n
  | .statement, n | .expression _, n | .expressionAtom, n | .commandCall, n | .command, n
  | .argument, n | .ternary, n | .range, n | .operation _, n | .operand, n | .assigned, n
  | .literal, n | .compound, n | .targetItem, n | .topPattern, n | .pattern, n
  | .keyPattern, n => Node.WellFormed n

/-- Readings in which every symbol gives what it promises. -/
def promised (tokens : Array Token) (version : Version) : Context Symbol Symbol.Result :=
  ⟨tokens, version, fun s _ v _ => s.WellFormed v⟩

variable {tokens : Array Token} {version : Version} {i j : Nat}

/-! ## §2. Shared expressions. -/

theorem block_wellFormed :
    block.Yields (promised tokens version) i fun o _ => ∀ n ∈ o, n.WellFormed := by
  intro ns _ hns
  exact Node.ofStatements?_wellFormed hns

theorem fullBlock_wellFormed :
    fullBlock.Yields (promised tokens version) i fun o _ => ∀ n ∈ o, n.WellFormed := by
  intro ns _ hns
  exact Node.ofStatements?_wellFormed hns

theorem primaryNode_wellFormed :
    primaryNode.Yields (promised tokens version) i fun n _ => n.WellFormed := by
  intro c _ hc
  exact hc

theorem target_wellFormed :
    (primaryTarget Node.target?).Yields (promised tokens version) i fun n _ => n.WellFormed := by
  intro c _ hc t ht
  exact (Node.target?_isTarget hc t ht).wellFormed

theorem splatOrArgument_wellFormed :
    splatOrArgument.Yields (promised tokens version) i fun n _ => n.WellFormed := by
  constructor
  · intro op _ _ value _ hvalue
    exact Node.splat_wellFormed (Node.forall_mem_some hvalue)
  · intro n _ hn
    exact hn

theorem splatsOrArguments_wellFormed {ns : List Node}
    (h : (sepBy1 splatOrArgument comma).Reads (promised tokens version) i ns j) :
    ∀ n ∈ ns, n.WellFormed :=
  h.sepBy1_forall fun _ _ _ hn => splatOrArgument_wellFormed.reads hn

/-! ## §3. Operations. -/

theorem oneLineMatch_wellFormed {op : Kind} {feature : Version.Feature} :
    (oneLineMatch op feature).Yields (promised tokens version) i fun n _ => n.WellFormed := by
  intro value _ hvalue op _ _ p _ hp n hn _
  cases hn
  exact Node.matchPattern_wellFormed _ hvalue hp

theorem expressionAtomRule_wellFormed :
    expressionAtomRule.Yields (promised tokens version) i fun n _ => n.WellFormed := by
  refine ⟨oneLineMatch_wellFormed, oneLineMatch_wellFormed, ?_, ?_⟩
  · intro n _ hn
    exact hn
  · intro n _ hn
    exact hn

theorem ternaryRule_wellFormed :
    ternaryRule.Yields (promised tokens version) i fun n _ => n.WellFormed := by
  constructor
  · intro cond _ hcond _ _ _ _ _ _ yes _ hyes _ _ _ _ _ _ _ _ _ no _ hno
    exact Node.ternary_wellFormed hcond hyes hno
  · intro n _ hn
    exact hn

theorem rangeRule_wellFormed :
    rangeRule.Yields (promised tokens version) i fun n _ => n.WellFormed := by
  refine ⟨?_, ?_, ?_, ?_⟩
  · -- `a..b`
    intro lhs _ hlhs op _ _ rhs _ hrhs
    exact Node.range_wellFormed (Node.forall_mem_some hlhs) (Node.forall_mem_some hrhs)
  · -- `a..`
    intro lhs _ hlhs op _ _ _
    exact Node.range_wellFormed (Node.forall_mem_some hlhs) (by simp)
  · -- `..b`
    intro op _ _ rhs _ hrhs _
    exact Node.range_wellFormed (by simp) (Node.forall_mem_some hrhs)
  · -- an operation
    intro n _ hn
    exact hn

theorem argumentRule_wellFormed :
    argumentRule.Yields (promised tokens version) i fun n _ => n.WellFormed := by
  constructor
  · intro kw _ _ _ _ _ value _ hvalue
    exact Node.defined_wellFormed hvalue
  · intro n _ hn
    exact hn

theorem assignedRule_wellFormed :
    assignedRule.Yields (promised tokens version) i fun n _ => n.WellFormed := by
  have hrescued : ∀ value : Node, value.WellFormed → ∀ k kw fallback j,
      (Prod.mk <$> tok .kRESCUE_MOD <*> argument).Reads (promised tokens version) k (kw, fallback) j →
        (Node.rescueModifier value kw fallback).WellFormed := by
    intro value hvalue k kw fallback j h
    obtain ⟨k', g, ⟨t, -, rfl⟩, n, hn, hg⟩ := h
    cases hg
    exact Node.rescueModifier_wellFormed hvalue hn
  constructor
  · intro value k hvalue fallback j h
    obtain ⟨rfl, -⟩ | ⟨⟨kw, other⟩, rfl, hread⟩ := h.opt
    · exact hvalue
    · exact hrescued value hvalue k kw other j hread
  · intro value k hvalue fallback j h
    obtain ⟨rfl, -⟩ | ⟨⟨kw, other⟩, rfl, hread⟩ := h.opt
    · exact hvalue
    · exact hrescued value hvalue k kw other j hread

theorem operandRule_wellFormed :
    operandRule.Yields (promised tokens version) i fun n _ => n.WellFormed := by
  refine ⟨?_, ?_, primaryNode_wellFormed⟩
  · intro target _ htarget _ _ _ value _ hvalue n hn
    exact Node.assign?_wellFormed htarget hvalue n hn
  · intro target _ htarget op _ _ value _ hvalue n hn
    exact Node.operatorAssign?_wellFormed htarget hvalue n hn

theorem operationRule_wellFormed (level : Nat) :
    (operationRule level).Yields (promised tokens version) i fun n _ => n.WellFormed := by
  refine .of_reads fun n j h => climb_reads (P := fun _ n _ => n.WellFormed) ?_ ?_ ?_ ?_ h
  · exact fun u _ i op x j _ _ hx => Node.unary_wellFormed hx
  · intro b hb i x k op y j hx _ _ hy
    simp only [binaryLevels, List.mem_cons, List.not_mem_nil, or_false] at hb
    rcases hb with rfl | rfl | hb
    · exact Node.joined_wellFormed hx hy rfl
    · exact Node.joined_wellFormed hx hy rfl
    · have hcombine : b.combine = Node.binary := by
        rcases hb with rfl | rfl | rfl | rfl | rfl | rfl | rfl | rfl <;> rfl
      rw [hcombine]
      exact Node.binary_wellFormed hx hy op
  · exact fun i n j h => h
  · exact fun l i n j h => h

theorem expressionRule_wellFormed (level : Nat) :
    (expressionRule level).Yields (promised tokens version) i fun n _ => n.WellFormed := by
  refine .of_reads fun n j h => climb_reads (P := fun _ n _ => n.WellFormed) ?_ ?_ ?_ ?_ h
  · exact fun u _ i op x j _ _ hx => Node.unary_wellFormed hx
  · intro b hb i x k op y j hx _ _ hy
    cases List.mem_singleton.mp hb
    apply Node.joined_wellFormed hx hy
    split <;> rfl
  · exact fun i n j h => h
  · exact fun l i n j h => h

/-! ## §4. Parameters and blocks. -/

theorem defaultValue_wellFormed (ofBlock : Bool) :
    (defaultValue ofBlock).Yields (promised tokens version) i fun n _ => n.WellFormed := by
  refine ⟨?_, primaryNode_wellFormed⟩
  intro value _ hvalue n hn
  split at hn
  · cases hn
  · cases hn
    exact hvalue

theorem paramRule_isParameter (ofBlock : Bool) :
    (paramRule ofBlock).Yields (promised tokens version) i fun n _ => n.IsParameter := by
  refine ⟨?_, ?_, ?_, ?_, ?_, ?_, ?_, ?_, ?_, ?_⟩
  · -- `...`
    intro dots _ _ _
    exact .of_wellFormed (Node.bare_wellFormed rfl) rfl
  · -- `name: value`
    intro label _ _ value _ hvalue
    have hvalue := (defaultValue_wellFormed ofBlock).reads hvalue
    exact .of_wellFormed (Node.param_wellFormed (Node.forall_mem_some hvalue) (by simp)) rfl
  · -- `name:`
    intro label _ _
    exact .of_wellFormed (Node.param_wellFormed (by simp) (by simp)) rfl
  · -- `**nil`
    intro star _ _ nil_ _ _
    exact .of_wellFormed (Node.wellFormed_mk (by simp) (by simp)) rfl
  · -- `**name`, `**`
    intro op _ _ name _ _
    exact .of_wellFormed (Node.param_wellFormed (by simp) (by cases name <;> simp)) rfl
  · -- `*name`, `*`
    intro op _ _ name _ _
    exact .of_wellFormed (Node.param_wellFormed (by simp) (by cases name <;> simp)) rfl
  · -- `&name`, `&`
    intro op _ _ name _ _
    exact .of_wellFormed (Node.param_wellFormed (by simp) (by cases name <;> simp)) rfl
  · -- `name = value`
    intro name _ _ _ _ _ value _ hvalue
    have hvalue := (defaultValue_wellFormed ofBlock).reads hvalue
    exact .of_wellFormed (Node.param_wellFormed (Node.forall_mem_some hvalue) (by simp)) rfl
  · -- `name`
    intro name _ _
    exact .of_wellFormed (Node.param_wellFormed (by simp) (by simp)) rfl
  · -- `(a, b)`, which is taken apart
    intro opening _ _ items _ hitems closing _ _
    obtain ⟨first, rest, _, rfl, -⟩ := hitems.sepBy1
    exact Node.parenTargets_isParameter (hitems.sepBy1_forall fun _ _ _ h => h)

theorem parenParams_isParameterList :
    parenParams.Yields (promised tokens version) i fun n _ => n.IsParameterList := by
  intro opening _ _ params _ hparams closing _ _
  refine Node.slots_isParameterList (hparams.sepBy_forall fun _ n _ hn => ?_)
  exact Node.IsParameter.wellFormed hn

theorem methodParams_isParameterList :
    methodParams.Yields (promised tokens version) i fun n _ => n.IsParameterList := by
  refine ⟨parenParams_isParameterList, .of_reads ?_⟩
  rintro n j ⟨params, hparams, rfl⟩
  refine Node.slots_isParameterList (hparams.sepBy1_forall fun _ n _ hn => ?_)
  exact Node.IsParameter.wellFormed hn

theorem ownNames_wellFormed :
    ownNames.Yields (promised tokens version) i fun ns _ => ∀ n ∈ ns, n.WellFormed := by
  intro _ _ _ ns _ hns
  refine hns.sepBy1_forall ?_
  rintro i n j ⟨t, -, rfl⟩
  exact Node.param_wellFormed (by simp) (by simp)

theorem blockParams_isParameterList :
    blockParams.Yields (promised tokens version) i fun n _ => n.IsParameterList := by
  constructor
  · intro bars _ _
    exact Node.blockParams_isParameterList (by simp) (by simp)
  · intro opening _ _ params _ hparams trailing _ _ own _ hown closing _ _
    refine Node.blockParams_isParameterList (hparams.sepBy_forall fun _ _ _ h => h) ?_
    have hown := hown.opt_forall fun _ _ _ h => ownNames_wellFormed.reads h
    cases own with
    | none => exact fun n hn => absurd hn List.not_mem_nil
    | some ns => exact hown ns rfl

theorem braceBlock_wellFormed :
    braceBlock.Yields (promised tokens version) i fun parts _ => parts.WellFormed := by
  intro opening _ _ params _ hparams body _ hbody closing _ _
  exact ⟨hparams.opt_forall fun _ _ _ h => blockParams_isParameterList.reads h,
    block_wellFormed.reads hbody⟩

theorem doBlock_wellFormed :
    doBlock.Yields (promised tokens version) i fun parts _ => parts.WellFormed := by
  intro opening _ _ params _ hparams body _ hbody closing _ _
  exact ⟨hparams.opt_forall fun _ _ _ h => blockParams_isParameterList.reads h,
    fullBlock_wellFormed.reads hbody⟩

theorem lambdaBody_wellFormed :
    lambdaBody.Yields (promised tokens version) i fun parts _ => parts.WellFormed := by
  constructor
  · intro opening _ _ body _ hbody closing _ _
    exact ⟨by simp, block_wellFormed.reads hbody⟩
  · intro opening _ _ body _ hbody closing _ _
    exact ⟨by simp, fullBlock_wellFormed.reads hbody⟩

theorem lambda_wellFormed :
    lambda.Yields (promised tokens version) i fun n _ => n.WellFormed := by
  intro arrow _ _ params _ hparams parts _ hparts n hn
  cases hn
  exact Node.lambda_wellFormed _
    (hparams.opt_forall fun _ _ _ h => methodParams_isParameterList.reads h)
    (lambdaBody_wellFormed.reads hparts)

/-! ## §5. Arguments and commands. -/

theorem callArgumentRule_wellFormed :
    callArgumentRule.Yields (promised tokens version) i fun a _ => a.node.WellFormed := by
  refine ⟨?_, ?_, ?_, ?_, ?_, ?_, ?_, ?_, ?_, ?_, ?_, ?_⟩
  · -- `...`
    intro dots _ _ _ _ _ _
    exact Node.bare_wellFormed rfl
  · -- `&block`
    intro op _ _ value _ hvalue
    exact Node.blockPass_wellFormed (Node.forall_mem_some hvalue)
  · -- `&`
    intro op _ _ _
    exact Node.blockPass_wellFormed (by simp)
  · -- `**options`
    intro op _ _ value _ hvalue
    exact Node.doubleSplat_wellFormed hvalue
  · -- `**`
    intro op _ _ _
    exact Node.bare_wellFormed rfl
  · -- `*values`
    intro op _ _ value _ hvalue
    exact Node.splat_wellFormed (Node.forall_mem_some hvalue)
  · -- `*`
    intro op _ _ _
    exact Node.bare_wellFormed rfl
  · -- `key: value`
    intro label _ _ _ _ _ value _ hvalue
    exact Node.labelled_wellFormed hvalue
  · -- `key:`
    intro label _ _ _
    exact Node.labelAlone_wellFormed label
  · -- `key => value`
    intro key _ hkey _ _ _ value _ hvalue
    exact Node.pair_wellFormed hkey hvalue
  · -- a command
    intro n _ hn
    exact hn
  · -- a value
    intro n _ hn
    exact hn

theorem argumentList_wellFormed {items : List Node.Argument}
    (h : argumentList.Reads (promised tokens version) i items j) :
    Node.ArgumentsWellFormed items := by
  obtain ⟨_, _, h, -⟩ := h.seqLeft
  exact h.sepBy_forall fun _ _ _ h => h

theorem parenArguments_wellFormed :
    parenArguments.Yields (promised tokens version) i
      fun args _ => Node.ArgumentsWellFormed args.1 := by
  intro _ _ _ items _ hitems closing _ _
  exact argumentList_wellFormed hitems

theorem optParenArguments_wellFormed {args : Option Node.ParenArguments}
    (h : (opt parenArguments).Reads (promised tokens version) i args j) :
    ∀ a ∈ args, Node.ArgumentsWellFormed a.1 :=
  h.opt_forall fun _ _ _ h => parenArguments_wellFormed.reads h

theorem commandArguments_wellFormed {items : List Node.Argument}
    (h : commandArguments.Reads (promised tokens version) i items j) :
    Node.ArgumentsWellFormed items :=
  h.sepBy1_forall fun _ _ _ h => h

theorem commandRule_wellFormed :
    commandRule.Yields (promised tokens version) i fun n _ => n.WellFormed := by
  constructor
  · intro kw _ _ items _ hitems
    exact Node.jump_wellFormed (commandArguments_wellFormed hitems)
  · intro c _ hc c' hc' items _ hitems n hn
    dsimp only at hc'
    split at hc'
    · cases hc'
      exact Node.command?_wellFormed hc (commandArguments_wellFormed hitems) n hn
    · cases hc'

theorem commandCallRule_wellFormed :
    commandCallRule.Yields (promised tokens version) i fun n _ => n.WellFormed := by
  constructor
  · intro c _ hc parts _ hparts n hn
    have hparts := hparts.opt_forall fun _ _ _ h => doBlock_wellFormed.reads h
    cases parts with
    | none =>
        cases hn
        exact hc
    | some parts => exact Node.attachBlock?_wellFormed _ hc (hparts parts rfl) n hn
  · intro a _ ha parts _ hparts n hn
    exact Node.attachBlock?_wellFormed _ ha (doBlock_wellFormed.reads hparts) n hn

/-! ## §6. Primary expressions. -/

theorem suffixRule_wellFormed :
    suffixRule.Yields (promised tokens version) i fun op _ => op.WellFormed := by
  refine ⟨?_, ?_, ?_, ?_, ?_, ?_⟩
  · -- `.name`, with arguments or without
    intro dot _ _ name _ _ args _ hargs
    exact optParenArguments_wellFormed hargs
  · -- `.()`
    intro dot _ _ args _ hargs
    exact parenArguments_wellFormed.reads hargs
  · -- `::Name`
    intro _ _ _ name _ _ _ _ _
    trivial
  · -- `::name`, with arguments or without
    intro dot _ _ name _ _ args _ hargs
    exact optParenArguments_wellFormed hargs
  · -- `[...]`
    intro _ _ _ items _ hitems closing _ _
    exact argumentList_wellFormed hitems
  · exact braceBlock_wellFormed

theorem primaryRule_wellFormed :
    primaryRule.Yields (promised tokens version) i fun c _ => c.node.WellFormed := by
  intro first _ hfirst ops _ hops c hc
  exact Node.applySuffixes?_wellFormed _ (hops.star_forall fun _ _ _ h => h) hfirst c hc

theorem atomRule_wellFormed :
    atomRule.Yields (promised tokens version) i fun c _ => c.node.WellFormed := by
  refine ⟨?_, ?_, ?_, ?_, ?_, ?_, ?_, ?_, ?_, ?_, ?_, ?_, ?_⟩
  · -- a literal
    intro n _ hn
    exact hn
  · -- a construct with an end of its own
    intro n _ hn
    exact hn
  · -- `defined?(x)`
    intro kw _ _ _ _ _ _ _ _ value _ hvalue _ _ _ closing _ _
    show (Node.defined kw value (some closing)).WellFormed
    exact Node.defined_wellFormed hvalue
  · -- `super`
    intro kw _ _ args _ hargs
    exact Node.superChain_wellFormed kw (optParenArguments_wellFormed hargs)
  · -- `yield`
    intro kw _ _ args _ hargs
    exact Node.yieldChain_wellFormed kw (optParenArguments_wellFormed hargs)
  · -- a jump that carries nothing
    intro kw _ _
    show (Node.jump kw []).WellFormed
    exact Node.jump_wellFormed (List.forall_mem_nil _)
  · -- `::Name`
    intro colons _ _ name _ _
    exact Node.topConstant_wellFormed colons name
  · -- `name(...)`
    intro name _ _ args _ hargs
    exact Node.functionCall_wellFormed (parenArguments_wellFormed.reads hargs)
  · -- `name`
    intro t _ _
    exact Node.identifier_wellFormed t
  · -- `name?`, `name!`
    intro t _ _
    exact Node.nameCall_wellFormed t
  · -- `Name`
    intro t _ _
    exact Node.constant_wellFormed (by simp)
  · -- `@name`, `$name`
    intro t _ _
    exact Node.markedVariable_wellFormed t
  · -- `->`
    exact lambda_wellFormed

/-! ## §7. Literals. -/

theorem stringPart_wellFormed :
    stringPart.Yields (promised tokens version) i fun part _ => part.WellFormed := by
  constructor
  · intro t _ _
    trivial
  · intro opening _ _ body _ hbody closing _ _
    exact hbody

theorem stringParts_wellFormed {parts : List Node.StringPart}
    (h : (Expr.star stringPart).Reads (promised tokens version) i parts j) :
    ∀ part ∈ parts, part.WellFormed :=
  h.star_forall fun _ _ _ h => stringPart_wellFormed.reads h

theorem stringLiteral_wellFormed :
    stringLiteral.Yields (promised tokens version) i fun n _ => n.WellFormed := by
  constructor
  · intro opening _ _ parts _ hparts closing _ _
    exact Node.string_wellFormed (stringParts_wellFormed hparts)
  · intro t _ _
    exact Node.character_wellFormed t

theorem hashItem_wellFormed :
    hashItem.Yields (promised tokens version) i fun n _ => n.WellFormed := by
  refine ⟨?_, ?_, ?_, ?_⟩
  · -- `key: value`
    intro label _ _ _ _ _ value _ hvalue
    exact Node.labelled_wellFormed hvalue
  · -- `key:`
    intro label _ _ _
    exact Node.labelAlone_wellFormed label
  · -- `**options`
    intro op _ _ value _ hvalue
    exact Node.doubleSplat_wellFormed hvalue
  · -- `key => value`
    intro key _ hkey _ _ _ _ _ _ value _ hvalue
    exact Node.pair_wellFormed hkey hvalue

theorem hashLiteral_wellFormed :
    hashLiteral.Yields (promised tokens version) i fun n _ => n.WellFormed := by
  intro opening _ _ _ _ _ pairs _ hpairs _ _ _ _ _ _ closing _ _
  exact Node.hash_wellFormed (hpairs.sepBy_forall fun _ _ _ h => hashItem_wellFormed.reads h)

theorem literalRule_wellFormed :
    literalRule.Yields (promised tokens version) i fun n _ => n.WellFormed := by
  refine ⟨?_, ?_, ?_, ?_, ?_, ?_, ?_, ?_, ?_, ?_, hashLiteral_wellFormed, ?_⟩
  · -- an integer
    intro t _ _
    exact Node.integer_wellFormed t
  · -- a float
    intro t _ _
    exact Node.float_wellFormed t
  · -- a rational number
    intro t _ _
    exact Node.rational_wellFormed t
  · -- an imaginary number
    intro t _ _
    exact Node.complex_wellFormed t
  · -- strings one after the other
    refine .of_reads ?_
    rintro n j ⟨ns, hns, rfl⟩
    exact Node.concatenation_wellFormed (hns.plus_forall fun _ _ _ h =>
      stringLiteral_wellFormed.reads h)
  · -- a command string
    intro opening _ _ parts _ hparts closing _ _
    exact Node.commandString_wellFormed (stringParts_wellFormed hparts)
  · -- `:name`
    intro t _ _
    exact Node.symbol_wellFormed t
  · -- a symbol between quotes
    intro opening _ _ parts _ hparts closing _ _
    exact Node.quotedSymbol_wellFormed (stringParts_wellFormed hparts)
  · -- `/pattern/`
    intro opening _ _ parts _ hparts closing _ _ flags _ _
    exact Node.regexp_wellFormed (stringParts_wellFormed hparts)
  · -- `[...]`
    intro opening _ _ items _ hitems closing _ _
    exact Node.array_wellFormed (argumentList_wellFormed hitems)
  · -- the words that stand for a value
    refine ⟨?_, ?_, ?_, ?_, ?_, ?_, ?_, ?_, ?_⟩ <;>
    · intro t _ _
      exact Node.bare_wellFormed rfl

/-! ## §8. Statements. -/

theorem parenTargets_wellFormed :
    parenTargets.Yields (promised tokens version) i fun n _ => n.WellFormed := by
  intro opening _ _ items _ hitems _ _ _ closing _ _
  exact Node.parenTargets_wellFormed (hitems.sepBy1_forall fun _ _ _ h => h)

theorem splatTarget_wellFormed :
    splatTarget.Yields (promised tokens version) i fun n _ => n.WellFormed := by
  intro op _ _ target _ htarget
  exact Node.splat_wellFormed (htarget.opt_forall fun _ _ _ h => target_wellFormed.reads h)

theorem targetItemRule_wellFormed :
    targetItemRule.Yields (promised tokens version) i fun n _ => n.WellFormed :=
  ⟨parenTargets_wellFormed, splatTarget_wellFormed, target_wellFormed⟩

theorem targets_isTargetList :
    targets.Yields (promised tokens version) i fun n _ => n.IsTargetList := by
  refine ⟨?_, ?_, ?_⟩
  · intro first _ hfirst _ _ _ rest _ hrest _ _ _
    refine Node.targets_isTargetList (List.forall_mem_cons.mpr ⟨hfirst, ?_⟩)
    exact hrest.sepBy_forall fun _ _ _ h => h
  · exact splatTarget_wellFormed.mono fun n _ hn =>
      Node.targets_isTargetList (List.forall_mem_singleton.mpr hn)
  · exact parenTargets_wellFormed.mono fun n _ hn =>
      Node.targets_isTargetList (List.forall_mem_singleton.mpr hn)

theorem multipleAssignment_wellFormed :
    multipleAssignment.Yields (promised tokens version) i fun n _ => n.WellFormed := by
  refine targets_isTargetList.mono fun left _ hleft => ?_
  intro _ _ _ value _ hvalue
  apply Node.multipleAssign_wellFormed hleft
  rcases hvalue with hvalue | ⟨ns, hns, rfl⟩
  · exact hvalue
  · exact Node.multipleValues_wellFormed (splatsOrArguments_wellFormed hns)

theorem severalValues_wellFormed :
    severalValues.Yields (promised tokens version) i fun n _ => n.WellFormed := by
  intro target _ htarget _ _ _ items _ hitems n hn
  exact Node.assignValues?_wellFormed htarget (splatsOrArguments_wellFormed hitems) n hn

theorem methodName_wellFormed :
    methodName.Yields (promised tokens version) i fun n _ => n.WellFormed := by
  intro t _ _
  exact Node.symbol_wellFormed t

theorem globalVariable_wellFormed :
    globalVariable.Yields (promised tokens version) i fun n _ => n.WellFormed := by
  intro t _ _
  exact Node.markedVariable_wellFormed t

theorem plainStatement_wellFormed :
    plainStatement.Yields (promised tokens version) i fun n _ => n.WellFormed := by
  refine ⟨?_, ?_, ?_, ?_, multipleAssignment_wellFormed, severalValues_wellFormed, ?_⟩
  · -- `alias $new $old`
    intro kw _ _ new _ hnew old _ hold
    exact Node.aliasDef_wellFormed (globalVariable_wellFormed.reads hnew)
      (globalVariable_wellFormed.reads hold)
  · -- `alias new old`
    intro kw _ _ new _ hnew old _ hold
    exact Node.aliasDef_wellFormed (methodName_wellFormed.reads hnew)
      (methodName_wellFormed.reads hold)
  · -- `undef a, b`
    intro kw _ _ names _ hnames
    obtain ⟨first, rest, _, rfl, -⟩ := hnames.sepBy1
    exact Node.undefNames_wellFormed (hnames.sepBy1_forall fun _ _ _ h =>
      methodName_wellFormed.reads h)
  · -- a block before or after the program
    intro kw _ _ _ _ _ ns _ hns closing _ _
    exact Node.beforeOrAfter_wellFormed hns
  · -- an expression
    intro n _ hn
    exact hn

theorem statementRule_wellFormed :
    statementRule.Yields (promised tokens version) i fun n _ => n.WellFormed := by
  refine plainStatement_wellFormed.mono fun s _ hs => ?_
  intro mods _ hmods
  replace hmods : ∀ m ∈ mods, Node.WellFormed m.2 := by
    refine hmods.star_forall ?_
    rintro i m j ⟨k, g, ⟨kw, -, rfl⟩, value, hvalue, rfl⟩
    exact hvalue
  induction mods generalizing s with
  | nil => exact hs
  | cons m mods ih =>
      obtain ⟨hm, hmods⟩ := List.forall_mem_cons.mp hmods
      exact ih _ (Node.modified_wellFormed hs hm) hmods

theorem statementsRule_wellFormed :
    statementsRule.Yields (promised tokens version) i fun ns _ => ∀ n ∈ ns, n.WellFormed := by
  intro _ _ _ ns _ hns _ _ _
  exact hns.sepBy_forall fun _ _ _ h => h

/-! ## §9. Conditionals, loops and choices. -/

theorem elseBranch_wellFormed {no : Option (Option Node)}
    (h : (opt (.call Symbol.elseBranch)).Reads (promised tokens version) i no j) :
    ∀ n ∈ no.join, n.WellFormed := by
  intro n hn
  obtain rfl := Option.join_eq_some_iff.mp hn
  rcases h.opt with ⟨hnone, -⟩ | ⟨o, ho, h⟩
  · cases hnone
  · cases ho
    exact h n rfl

theorem ifExpression_wellFormed :
    ifExpression.Yields (promised tokens version) i fun n _ => n.WellFormed := by
  intro kw _ _ cond _ hcond _ _ _ yes _ hyes no _ hno closing _ _
  exact Node.conditional_wellFormed hcond (block_wellFormed.reads hyes) (elseBranch_wellFormed hno)

theorem elseBranchRule_wellFormed :
    elseBranchRule.Yields (promised tokens version) i fun o _ => ∀ n ∈ o, n.WellFormed := by
  constructor
  · intro kw _ _ cond _ hcond _ _ _ yes _ hyes no _ hno
    refine Node.forall_mem_some (Node.elseIf_wellFormed hcond (block_wellFormed.reads hyes) ?_)
    exact elseBranch_wellFormed hno
  · intro _ _ _ no _ hno
    exact block_wellFormed.reads hno

theorem unlessExpression_wellFormed :
    unlessExpression.Yields (promised tokens version) i fun n _ => n.WellFormed := by
  intro kw _ _ cond _ hcond _ _ _ no _ hno yes _ hyes closing _ _
  refine Node.conditional_wellFormed hcond ?_ (block_wellFormed.reads hno)
  intro n hn
  obtain rfl := Option.join_eq_some_iff.mp hn
  rcases hyes.opt with ⟨hnone, -⟩ | ⟨o, ho, h⟩
  · cases hnone
  · cases ho
    obtain ⟨_, _, -, h⟩ := h.seqRight
    exact block_wellFormed.reads h n rfl

theorem loopExpression_wellFormed :
    loopExpression.Yields (promised tokens version) i fun n _ => n.WellFormed := by
  intro kw _ _ cond _ hcond _ _ _ body _ hbody closing _ _
  exact Node.conditionLoop_wellFormed (block_wellFormed.reads hbody) hcond

theorem loopVariables_wellFormed :
    loopVariables.Yields (promised tokens version) i fun n _ => n.WellFormed :=
  ⟨targets_isTargetList.mono fun _ _ h => h.wellFormed, target_wellFormed⟩

theorem forExpression_wellFormed :
    forExpression.Yields (promised tokens version) i fun n _ => n.WellFormed := by
  intro kw _ _ var _ hvar _ _ _ elements _ helements _ _ _ body _ hbody closing _ _
  exact Node.forLoop_wellFormed (block_wellFormed.reads hbody)
    (loopVariables_wellFormed.reads hvar) helements

theorem elseClause_wellFormed {clause : Option Node.ElseClause}
    (h : (opt elseClause).Reads (promised tokens version) i clause j) :
    Node.ElseWellFormed clause := by
  refine h.opt_forall ?_
  rintro i o j ⟨k, g, ⟨kw, -, rfl⟩, body, hbody, rfl⟩
  exact block_wellFormed.reads hbody

theorem whenClause_isBranch :
    whenClause.Yields (promised tokens version) i fun n _ => n.IsBranch .whenClause := by
  intro kw _ _ values _ hvalues _ _ _ body _ hbody
  obtain ⟨value, rest, _, rfl, -⟩ := hvalues.sepBy1
  exact Node.whenClause_isBranch (splatsOrArguments_wellFormed hvalues)
    (block_wellFormed.reads hbody)

theorem patternGuard_wellFormed :
    patternGuard.Yields (promised tokens version) i fun n _ => n.WellFormed := by
  intro kw _ _ cond _ hcond
  exact Node.guard_wellFormed hcond

theorem inClause_isBranch :
    inClause.Yields (promised tokens version) i fun n _ => n.IsBranch .inPattern := by
  intro kw _ _ pattern _ hpattern guard _ hguard _ _ _ body _ hbody
  exact Node.inPattern_isBranch hpattern
    (hguard.opt_forall fun _ _ _ h => patternGuard_wellFormed.reads h)
    (block_wellFormed.reads hbody)

theorem caseExpression_wellFormed :
    caseExpression.Yields (promised tokens version) i fun n _ => n.WellFormed := by
  constructor
  · intro kw _ _ subject _ hsubject _ _ _ clauses _ hclauses otherwise _ hotherwise closing _ _
    obtain ⟨clause, rest, _, rfl, -⟩ := hclauses.plus
    exact Node.caseWhen_wellFormed (elseClause_wellFormed hotherwise)
      (hsubject.opt_forall fun _ _ _ h => h)
      (hclauses.plus_forall fun _ _ _ h => whenClause_isBranch.reads h)
  · intro kw _ _ subject _ hsubject _ _ _ clauses _ hclauses otherwise _ hotherwise closing _ _ _
    obtain ⟨clause, rest, _, rfl, -⟩ := hclauses.plus
    exact Node.caseMatch_wellFormed (elseClause_wellFormed hotherwise) hsubject
      (hclauses.plus_forall fun _ _ _ h => inClause_isBranch.reads h)

/-! ## §10. Bodies and definitions. -/

theorem rescueVariable_wellFormed :
    rescueVariable.Yields (promised tokens version) i fun n _ => n.WellFormed := by
  intro _ _ _ t _ ht
  exact target_wellFormed.reads ht

theorem rescueClause_isBranch :
    rescueClause.Yields (promised tokens version) i fun n _ => n.IsBranch .resbody := by
  intro kw _ _ classes _ hclasses var _ hvar _ _ _ body _ hbody
  exact Node.rescueClause_isBranch
    (hclasses.opt_forall fun _ _ _ h => splatsOrArguments_wellFormed h)
    (hvar.opt_forall fun _ _ _ h => rescueVariable_wellFormed.reads h)
    (block_wellFormed.reads hbody)

theorem bodyRule_wellFormed :
    bodyRule.Yields (promised tokens version) i fun ns _ => ∀ n ∈ ns, n.WellFormed := by
  intro ns _ hns rescues _ hrescues otherwise _ hotherwise ensure _ hensure
  refine Node.bodyStatements_wellFormed hns
    (hrescues.star_forall fun _ _ _ h => rescueClause_isBranch.reads h)
    (hotherwise.opt_forall ?_) (hensure.opt_forall ?_)
  · intro i ns j h
    obtain ⟨_, _, -, h⟩ := h.seqRight
    exact h
  · rintro i e j ⟨k, g, ⟨kw, -, rfl⟩, ns, hns, rfl⟩
    exact hns

theorem beginExpression_wellFormed :
    beginExpression.Yields (promised tokens version) i fun n _ => n.WellFormed := by
  intro kw _ _ ns _ hns closing _ _
  exact Node.keywordBegin_wellFormed hns

theorem parenExpression_wellFormed :
    parenExpression.Yields (promised tokens version) i fun n _ => n.WellFormed := by
  intro opening _ _ ns _ hns closing _ _
  exact Node.parenthesized_wellFormed hns

theorem methodHead_wellFormed :
    methodHead.Yields (promised tokens version) i fun head _ => head.WellFormed := by
  constructor
  · intro object _ _ _ _ _ name _ _
    exact Node.forall_mem_some (Node.methodReceiver_wellFormed object)
  · intro name _ _
    exact fun n hn => nomatch hn

theorem getD_noParams_isParameterList {params : Option Node} {after : Token}
    (h : ∀ n ∈ params, n.IsParameterList) :
    (params.getD (Node.noParams after)).IsParameterList := by
  cases params with
  | none => exact Node.slots_isParameterList (List.forall_mem_nil _)
  | some n => exact h n rfl

theorem methodDefinition_wellFormed :
    methodDefinition.Yields (promised tokens version) i fun n _ => n.WellFormed := by
  constructor
  · intro kw _ _ head _ hhead params _ hparams _ _ _ value _ hvalue _
    have hparams := hparams.opt_forall fun _ _ _ h => parenParams_isParameterList.reads h
    exact Node.methodDef_wellFormed (methodHead_wellFormed.reads hhead)
      (getD_noParams_isParameterList hparams) (Node.forall_mem_some hvalue)
  · intro kw _ _ head _ hhead params _ hparams body _ hbody closing _ _
    have hparams := hparams.opt_forall fun _ _ _ h => methodParams_isParameterList.reads h
    exact Node.methodDef_wellFormed (methodHead_wellFormed.reads hhead)
      (getD_noParams_isParameterList hparams) (fullBlock_wellFormed.reads hbody)

theorem constantPath_wellFormed :
    constantPath.Yields (promised tokens version) i
      fun n _ => n.WellFormed ∧ n.kind = .constant := by
  intro c _ hc n hn
  dsimp only at hn
  split at hn
  next hkind =>
    cases hn
    exact ⟨hc, by simpa using hkind⟩
  next => cases hn

theorem classDefinition_wellFormed :
    classDefinition.Yields (promised tokens version) i fun n _ => n.WellFormed := by
  constructor
  · intro kw _ _ _ _ _ object _ hobject body _ hbody closing _ _
    exact Node.singletonClass_wellFormed hobject (fullBlock_wellFormed.reads hbody)
  · intro kw _ _ name _ hname parent _ hparent body _ hbody closing _ _
    obtain ⟨hname, hkind⟩ := constantPath_wellFormed.reads hname
    refine Node.classDef_wellFormed hname hkind (hparent.opt_forall fun _ _ _ h => ?_)
      (fullBlock_wellFormed.reads hbody)
    obtain ⟨_, _, -, h⟩ := h.seqRight
    exact h

theorem moduleDefinition_wellFormed :
    moduleDefinition.Yields (promised tokens version) i fun n _ => n.WellFormed := by
  intro kw _ _ name _ hname body _ hbody closing _ _
  obtain ⟨hname, hkind⟩ := constantPath_wellFormed.reads hname
  exact Node.moduleDef_wellFormed hname hkind (fullBlock_wellFormed.reads hbody)

theorem compoundRule_wellFormed :
    compoundRule.Yields (promised tokens version) i fun n _ => n.WellFormed :=
  ⟨ifExpression_wellFormed, unlessExpression_wellFormed, loopExpression_wellFormed,
    forExpression_wellFormed, caseExpression_wellFormed, beginExpression_wellFormed,
    methodDefinition_wellFormed, classDefinition_wellFormed, moduleDefinition_wellFormed,
    parenExpression_wellFormed⟩

/-! ## §11. Patterns. -/

theorem patternRest_wellFormed :
    patternRest.Yields (promised tokens version) i fun n _ => n.WellFormed := by
  intro star _ _ name _ _
  exact Node.matchRest_wellFormed star name

theorem patternItem_wellFormed :
    patternItem.Yields (promised tokens version) i fun n _ => n.WellFormed := by
  refine ⟨patternRest_wellFormed, ?_⟩
  intro n _ hn
  exact hn

theorem keyPatternRule_wellFormed :
    keyPatternRule.Yields (promised tokens version) i fun n _ => n.WellFormed := by
  refine ⟨?_, ?_, ?_, ?_⟩
  · -- `key: pattern`
    intro label _ _ pattern _ hpattern
    exact Node.labelled_wellFormed hpattern
  · -- `key:`
    intro label _ _
    exact (Node.matchVar_isBranch label).wellFormed
  · -- `**nil`
    intro star _ _ nil_ _ _
    exact Node.matchNoRest_wellFormed star nil_
  · -- `**name`, `**`
    intro star _ _ name _ _
    exact Node.matchRest_wellFormed star name

theorem constants_wellFormed {head : Node} (hhead : head.WellFormed) (names : List Token) :
    (names.foldl (fun scope n => Node.constant (some scope) n) head).WellFormed := by
  induction names generalizing head with
  | nil => exact hhead
  | cons name names ih => exact ih (Node.constant_wellFormed (Node.forall_mem_some hhead))

theorem patternConstant_wellFormed :
    patternConstant.Yields (promised tokens version) i fun n _ => n.WellFormed := by
  constructor
  · intro colons _ _ name _ _ names _ _
    exact constants_wellFormed (Node.topConstant_wellFormed colons name) names
  · intro name _ _ names _ _
    exact constants_wellFormed (Node.constant_wellFormed (by simp)) names

theorem patternScalar_wellFormed :
    patternScalar.Yields (promised tokens version) i fun n _ => n.WellFormed := by
  intro _ _ _ n _ hn
  exact primaryNode_wellFormed.reads hn

theorem patternValue_wellFormed :
    patternValue.Yields (promised tokens version) i fun n _ => n.WellFormed := by
  refine ⟨.of_reads ?_, .of_reads ?_, ?_, patternScalar_wellFormed⟩
  · -- `a..b`
    rintro n j ⟨_, _, ⟨_, _, ⟨lhs, hlhs, rfl⟩, op, -, rfl⟩, rhs, hrhs, rfl⟩
    exact Node.range_wellFormed (Node.forall_mem_some (patternScalar_wellFormed.reads hlhs))
      (Node.forall_mem_some (patternScalar_wellFormed.reads hrhs))
  · -- `a..`
    rintro n j ⟨_, _, ⟨lhs, hlhs, rfl⟩, op, -, rfl⟩
    exact Node.range_wellFormed (Node.forall_mem_some (patternScalar_wellFormed.reads hlhs))
      (by simp)
  · -- `..b`
    intro op _ _ rhs _ hrhs
    exact Node.range_wellFormed (by simp)
      (Node.forall_mem_some (patternScalar_wellFormed.reads hrhs))

theorem pinTarget_wellFormed :
    pinTarget.Yields (promised tokens version) i fun n _ => n.WellFormed := by
  refine ⟨?_, ?_, ?_⟩
  · intro opening _ _ value _ hvalue closing _ _
    exact Node.parenthesized_wellFormed (List.forall_mem_singleton.mpr hvalue)
  · intro t _ _
    exact Node.identifier_wellFormed t
  · intro t _ _
    exact Node.markedVariable_wellFormed t

theorem keyPatterns_wellFormed {ns : List Node}
    (h : (sepBy1 (.call Symbol.keyPattern) comma).Reads (promised tokens version) i ns j) :
    ∀ n ∈ ns, n.WellFormed :=
  h.sepBy1_forall fun _ _ _ h => h

theorem patternPrimary_wellFormed :
    patternPrimary.Yields (promised tokens version) i fun n _ => n.WellFormed := by
  refine ⟨?_, ?_, .of_reads ?_, .of_reads ?_, ?_, patternValue_wellFormed, ?_⟩
  · -- `[...]`
    intro opening _ _ items _ hitems trailing _ _ closing _ _
    exact Node.listPattern_wellFormed
      (hitems.sepBy_forall fun _ _ _ h => patternItem_wellFormed.reads h) trailing
  · -- `{...}`
    intro opening _ _ _ _ _ items _ hitems _ _ _ _ _ _ closing _ _
    exact Node.hashPattern_wellFormed (hitems.sepBy_forall fun _ _ _ h => h)
  · -- `Name(key: ...)`
    rintro n j ⟨_, _, ⟨_, _, ⟨_, _, ⟨scope, hscope, rfl⟩, opening, -, rfl⟩, items, hitems, rfl⟩,
      closing, -, rfl⟩
    exact Node.constPattern_wellFormed (patternConstant_wellFormed.reads hscope)
      (Node.hashPattern_wellFormed (keyPatterns_wellFormed hitems))
  · -- `Name(...)`
    rintro n j ⟨_, _, ⟨_, _, ⟨_, _, ⟨_, _, ⟨scope, hscope, rfl⟩, opening, -, rfl⟩, items, hitems,
      rfl⟩, trailing, -, rfl⟩, closing, -, rfl⟩
    exact Node.constPattern_wellFormed (patternConstant_wellFormed.reads hscope)
      (Node.listPattern_wellFormed
      (hitems.sepBy_forall fun _ _ _ h => patternItem_wellFormed.reads h) trailing)
  · -- `^x`
    intro caret _ _ value _ hvalue
    exact Node.pin_wellFormed (pinTarget_wellFormed.reads hvalue)
  · intro t _ _
    exact (Node.matchVar_isBranch t).wellFormed

theorem patternAlternatives_wellFormed :
    patternAlternatives.Yields (promised tokens version) i fun n _ => n.WellFormed := by
  refine patternPrimary_wellFormed.mono fun first _ hfirst => ?_
  intro rest _ hrest
  replace hrest : ∀ n ∈ rest, n.WellFormed := by
    refine hrest.star_forall fun i n j h => ?_
    obtain ⟨_, _, -, h⟩ := h.seqRight
    exact patternPrimary_wellFormed.reads h
  induction rest generalizing first with
  | nil => exact hfirst
  | cons n rest ih =>
      obtain ⟨hn, hrest⟩ := List.forall_mem_cons.mp hrest
      exact ih _ (Node.joined_wellFormed hfirst hn rfl) hrest

theorem patternRule_wellFormed :
    patternRule.Yields (promised tokens version) i fun n _ => n.WellFormed := by
  refine ⟨.of_reads ?_, patternAlternatives_wellFormed⟩
  rintro n j ⟨_, _, ⟨_, _, ⟨_, ⟨pattern, hpattern, rfl⟩, rfl⟩, _, -, rfl⟩, name, -, rfl⟩
  exact Node.matchAs_wellFormed (patternAlternatives_wellFormed.reads hpattern)

theorem topPatternRule_wellFormed :
    topPatternRule.Yields (promised tokens version) i fun n _ => n.WellFormed := by
  refine ⟨.of_reads ?_, .of_reads ?_⟩
  · rintro n j ⟨items, hitems, rfl⟩
    exact Node.bareHashPattern_wellFormed (keyPatterns_wellFormed hitems)
  · rintro n j ⟨k, g, ⟨items, hitems, rfl⟩, trailing, -, rfl⟩
    exact Node.topPattern_wellFormed
      (hitems.sepBy1_forall fun _ _ _ h => patternItem_wellFormed.reads h) trailing

/-! ## §12. The grammar. -/

/-- **The grammar gives what its symbols promise.** -/
theorem language_wellFormed : language.Closed (promised tokens version) := by
  intro s i v j h
  cases s with
  | statements => exact statementsRule_wellFormed.reads h
  | statement => exact statementRule_wellFormed.reads h
  | expression level => exact (expressionRule_wellFormed level).reads h
  | expressionAtom => exact expressionAtomRule_wellFormed.reads h
  | commandCall => exact commandCallRule_wellFormed.reads h
  | command => exact commandRule_wellFormed.reads h
  | argument => exact argumentRule_wellFormed.reads h
  | ternary => exact ternaryRule_wellFormed.reads h
  | range => exact rangeRule_wellFormed.reads h
  | operation level => exact (operationRule_wellFormed level).reads h
  | operand => exact operandRule_wellFormed.reads h
  | assigned => exact assignedRule_wellFormed.reads h
  | callArgument => exact callArgumentRule_wellFormed.reads h
  | primary => exact primaryRule_wellFormed.reads h
  | suffix => exact suffixRule_wellFormed.reads h
  | atom => exact atomRule_wellFormed.reads h
  | literal => exact literalRule_wellFormed.reads h
  | compound => exact compoundRule_wellFormed.reads h
  | elseBranch => exact elseBranchRule_wellFormed.reads h
  | body => exact bodyRule_wellFormed.reads h
  | targetItem => exact targetItemRule_wellFormed.reads h
  | param ofBlock => exact (paramRule_isParameter ofBlock).reads h
  | topPattern => exact topPatternRule_wellFormed.reads h
  | pattern => exact patternRule_wellFormed.reads h
  | keyPattern => exact keyPatternRule_wellFormed.reads h

/-- The tree of a program before its names are resolved is well formed. -/
theorem readProgram_wellFormed {tokens : List Token} {version : Version} {root : Option Node}
    (h : readProgram tokens version = .ok root) : ∀ n ∈ root, n.WellFormed := by
  obtain ⟨j, h⟩ := Rules.reads_of_parse (g := language) (c := promised tokens.toArray version)
    language_wellFormed h
  obtain ⟨_, _, h, -⟩ := h.seqLeft
  exact block_wellFormed.reads h

end RubySyntax.Grammar
