/-
  RubySyntax.Proofs.Grammar.Upgrade
  ─────────────────────────────────
  **A PROGRAM STAYS VALID IN LATER VERSIONS.**

  A version accepts what an earlier one accepts, with the same tokens and comments, and from
  version 3.0 on with the same tree.  But for one case: an alternative that the earlier version
  refuses hides the tokens that it has read, and what is read in its place may not be there any
  more once the alternative is accepted.  A star by itself is an argument since version 3.2;
  before that, the parentheses are no argument list, and are read as a statement.

      foo(x => y, *), 2

  Two things in a tree depend on the version: a block with numbered parameters, and the question
  whether a value matches a pattern.  Neither is asked for while a program is read, so two
  versions read nodes of one look.

  Main results:
    • `language_later` — all symbols read nodes of one look in a later version,
    • `language_same` — from version 3.0 on they read the same nodes,
    • `Program.read_later` — a program stays valid where nothing is refused that the later version
      has.
-/
import RubySyntax.Proofs.Grammar.Derivation
import RubySyntax.Proofs.Grammar.Later
import RubySyntax.Proofs.Grammar.Refusal
import RubySyntax.Proofs.Grammar.Yields
import RubySyntax.Proofs.Program
import RubySyntax.Proofs.Tree.Look

namespace RubySyntax.Grammar

open Token Grammar.Expr

/-! ## §1. Tests in rules. -/

/-- The tests of values in rules whose values are not asked about. -/
structure TestsHold
    (Q : ∀ {α β : Type}, (Version → α → Option β) → Rule α → Prop) : Prop where
  default : ∀ ofBlock : Bool,
    Q (fun _ value => if ofBlock then none else some value) argument
  lambda : Q (fun v a => some (Node.lambda v a.1 a.2.1 a.2.2))
    ((fun arrow params body => (arrow, params, body)) <$> tok .tLAMBDA <*> opt methodParams
      <*> lambdaBody)
  target : Q (fun _ c => Node.target? c.node) primary
  constantPath : Q (fun _ c => if c.node.kind == .constant then some c.node else none) primary
  severalValues : Q (fun _ a => Node.assignValues? a.1.node a.2)
    (Prod.mk <$> primary <* tok .tEQL <*> sepBy1 splatOrArgument comma)
  oneLineMatch : ∀ op, Q (fun v a => some (Node.matchPattern v a.1 a.2.1 a.2.2))
    ((fun value op p => (value, op, p)) <$> argument <*> tok op <*> .call Symbol.topPattern)

section Tests

variable {Q : ∀ {α β : Type}, (Version → α → Option β) → Rule α → Prop}

theorem tests_param (h : TestsHold Q) (ofBlock : Bool) : (paramRule ofBlock).Tests Q := by
  have hdefault : (defaultValue ofBlock).Tests Q := ⟨⟨h.default ofBlock, trivial⟩, trivial⟩
  exact ⟨tests_of_testless rfl, ⟨trivial, hdefault⟩, tests_of_testless rfl, tests_of_testless rfl,
    tests_of_testless rfl, tests_of_testless rfl, tests_of_testless rfl,
    ⟨tests_of_testless rfl, hdefault⟩, tests_of_testless rfl, tests_of_testless rfl⟩

theorem tests_lambda (h : TestsHold Q) : lambda.Tests Q := ⟨h.lambda, tests_of_testless rfl⟩

theorem tests_targetItem (h : TestsHold Q) : targetItemRule.Tests Q :=
  ⟨tests_of_testless rfl, ⟨trivial, ⟨⟨h.target, trivial⟩, trivial⟩⟩, ⟨h.target, trivial⟩⟩

theorem tests_oneLineMatch (h : TestsHold Q) (op : Kind) (feature : Version.Feature) :
    (oneLineMatch op feature).Tests Q :=
  ⟨h.oneLineMatch op, tests_of_testless rfl⟩

theorem tests_expressionAtom (h : TestsHold Q) : expressionAtomRule.Tests Q :=
  ⟨tests_oneLineMatch h _ _, tests_oneLineMatch h _ _, tests_of_testless rfl⟩

theorem tests_targets (h : TestsHold Q) : targets.Tests Q :=
  ⟨tests_of_testless rfl, ⟨trivial, ⟨⟨h.target, trivial⟩, trivial⟩⟩, tests_of_testless rfl⟩

theorem tests_statement (h : TestsHold Q) : statementRule.Tests Q := by
  have hmultiple : multipleAssignment.Tests Q :=
    ⟨⟨tests_targets h, trivial⟩, tests_of_testless rfl⟩
  have hseveral : severalValues.Tests Q := ⟨h.severalValues, tests_of_testless rfl⟩
  exact ⟨⟨tests_of_testless rfl, tests_of_testless rfl, tests_of_testless rfl,
    tests_of_testless rfl, hmultiple, hseveral, trivial⟩, tests_of_testless rfl⟩

theorem tests_body (h : TestsHold Q) : bodyRule.Tests Q := by
  have hvariable : rescueVariable.Tests Q := ⟨trivial, h.target, trivial⟩
  have hclause : rescueClause.Tests Q :=
    ⟨⟨⟨⟨trivial, tests_of_testless rfl⟩, ⟨hvariable, trivial⟩⟩, tests_of_testless rfl⟩, trivial⟩
  exact ⟨⟨⟨trivial, hclause⟩, tests_of_testless rfl⟩, tests_of_testless rfl⟩

theorem tests_compound (h : TestsHold Q) : compoundRule.Tests Q := by
  have hvariables : loopVariables.Tests Q := ⟨tests_targets h, h.target, trivial⟩
  have hfor : forExpression.Tests Q :=
    ⟨⟨⟨⟨⟨⟨trivial, hvariables⟩, trivial⟩, trivial⟩, tests_of_testless rfl⟩, trivial⟩, trivial⟩
  have hpath : constantPath.Tests Q := ⟨h.constantPath, trivial⟩
  have hclass : classDefinition.Tests Q :=
    ⟨tests_of_testless rfl, ⟨⟨⟨⟨trivial, hpath⟩, tests_of_testless rfl⟩, trivial⟩, trivial⟩⟩
  have hmodule : moduleDefinition.Tests Q := ⟨⟨⟨trivial, hpath⟩, trivial⟩, trivial⟩
  exact ⟨tests_of_testless rfl, tests_of_testless rfl, tests_of_testless rfl, hfor,
    tests_of_testless rfl, tests_of_testless rfl, tests_of_testless rfl, hclass, hmodule,
    tests_of_testless rfl⟩

theorem tests_atom (h : TestsHold Q) : atomRule.Tests Q :=
  ⟨trivial, trivial, tests_of_testless rfl, tests_of_testless rfl, tests_of_testless rfl,
    tests_of_testless rfl, tests_of_testless rfl, tests_of_testless rfl, trivial, trivial, trivial,
    trivial, tests_lambda h⟩

end Tests

/-! ## §2. The same nodes. -/

section Same

variable {c c' : Facts Grammar.Symbol Symbol.Result}

/-- Both versions make the same nodes of the same parts. -/
structure SameNodes (v w : Version) : Prop where
  numbered : v.supports .numberedParameters = w.supports .numberedParameters
  matching : v.supports .rightwardAssignment = w.supports .rightwardAssignment

/-- From version 3.0 on all versions make the same nodes. -/
theorem sameNodes_of_atLeast {v w : Version} (hv : v.atLeast ⟨3, 0⟩ = true)
    (hw : w.atLeast ⟨3, 0⟩ = true) : SameNodes v w := by
  have hnumbered : ∀ {v : Version}, v.atLeast ⟨3, 0⟩ = true →
      v.supports .numberedParameters = true := fun h => Version.atLeast_trans h (by decide)
  exact ⟨(hnumbered hv).trans (hnumbered hw).symm, hv.trans hw.symm⟩

theorem withBlock_eq {v w : Version} (h : SameNodes v w) : Node.withBlock v = Node.withBlock w := by
  funext callee parts
  rw [Node.withBlock, Node.withBlock, h.numbered]

theorem attachBlock?_eq {v w : Version} (h : SameNodes v w) :
    Node.attachBlock? v = Node.attachBlock? w := by
  funext n parts
  rw [Node.attachBlock?, Node.attachBlock?, withBlock_eq h]

theorem applySuffix?_eq {v w : Version} (h : SameNodes v w) :
    Node.applySuffix? v = Node.applySuffix? w := by
  funext receiver s
  unfold Node.applySuffix?
  rw [attachBlock?_eq h]

/-- A test decides alike in both versions. -/
abbrev SameTest (v w : Version) : ∀ {α β : Type}, (Version → α → Option β) → Rule α → Prop :=
  fun f _ => f v = f w

theorem testsHold_same {v w : Version} (h : SameNodes v w) : TestsHold (SameTest v w) where
  default _ := rfl
  lambda := by
    funext a
    simp only [Node.lambda, withBlock_eq h]
  target := rfl
  constantPath := rfl
  severalValues := rfl
  oneLineMatch op := by
    funext a
    simp only [Node.matchPattern, h.matching]

theorem rule_tests_same {v w : Version} (h : SameNodes v w) (s : Grammar.Symbol) :
    (rule s).Tests (SameTest v w) := by
  have hloose := testsHold_same h
  -- only these rules have tests at all
  cases s with
  | expressionAtom => exact tests_expressionAtom hloose
  | commandCall =>
      refine ⟨⟨?_, tests_of_testless rfl⟩, ?_, tests_of_testless rfl⟩
      · funext a
        obtain ⟨n, parts⟩ := a
        cases parts with
        | none => rfl
        | some parts => exact congrFun (congrFun (attachBlock?_eq h) n) parts
      · funext a
        exact congrFun (congrFun (attachBlock?_eq h) a.1) a.2
  | command => exact ⟨tests_of_testless rfl, rfl, ⟨rfl, trivial⟩, tests_of_testless rfl⟩
  | operand =>
      exact ⟨⟨rfl, tests_of_testless rfl⟩, ⟨rfl, tests_of_testless rfl⟩, trivial⟩
  | primary =>
      refine ⟨?_, tests_of_testless rfl⟩
      funext a
      simp only [Node.applySuffixes?, applySuffix?_eq h]
  | statement => exact tests_statement hloose
  | targetItem => exact tests_targetItem hloose
  | body => exact tests_body hloose
  | compound => exact tests_compound hloose
  | param ofBlock => exact tests_param hloose ofBlock
  | atom => exact tests_atom hloose
  | operation level =>
      exact tests_of_testless <|
        forall_operationRule (P := fun e => e.testless = true) (by decide) level
  | expression level =>
      exact tests_of_testless <|
        forall_expressionRule (P := fun e => e.testless = true) (by decide) level
  | _ => exact tests_of_testless rfl

/-- **From version 3.0 on, all symbols read the same nodes in a later version.** -/
theorem language_same {tokens : Array Token} {v w : Version} (hvw : w.atLeast v = true)
    (hv : v.atLeast ⟨3, 0⟩ = true) :
    Later (fun _ => Eq) (language.derived tokens v) (language.derived tokens w) := by
  refine Rules.derived_later hvw fun c c' h hc hc' s => keeps_eq h ?_
  rw [hc, hc']
  exact rule_tests_same (sameNodes_of_atLeast hv (Version.atLeast_trans hvw hv)) s

end Same

/-! ## §3. Nodes of one look. -/

/-- What two versions keep of the value of a symbol: what is asked about it. -/
def Symbol.Alike : (s : Grammar.Symbol) → s.Result → s.Result → Prop
  | .commandCall | .command | .argument | .ternary | .range | .operation _ | .operand
  | .assigned => Node.Alike
  | .literal | .compound => Node.PrimaryAlike
  | .callArgument => fun a b => a.look = b.look
  | .primary | .atom => Node.Chain.Alike
  | .suffix => Node.Suffix.Alike
  | _ => fun _ _ => True

section Alike

variable {c c' : Facts Grammar.Symbol Symbol.Result}

/-- Related values are refused by both versions, or by none of them. -/
abbrev AlikeTest (c c' : Facts Grammar.Symbol Symbol.Result) :
    ∀ {α β : Type}, (Version → α → Option β) → Rule α → Prop :=
  fun f x => ∃ S, x.Keeps c c' S ∧
    ∀ a a', S a a' → (f c.version a).isSome = (f c'.version a').isSome

/-- Whatever two versions read of a rule without tests, they read it up to one position. -/
theorem keeps_testless (h : Later Symbol.Alike c c') {α : Type} {e : Rule α}
    (he : e.testless = true) : e.Keeps c c' fun _ _ => True :=
  keeps_any h (tests_of_testless he)

/-- A list of arguments that are spliced or not. -/
theorem keeps_splatOrArgument (h : Later Symbol.Alike c c') :
    splatOrArgument.Keeps c c' Node.Alike :=
  .orElse (.seq (.map (.token h stars) fun _ _ _ _ _ _ => rfl) (h.call .argument))
    (h.call .argument)

theorem testsHold_alike (h : Later Symbol.Alike c c') : TestsHold (AlikeTest c c') where
  default ofBlock := by
    refine ⟨_, h.call .argument, fun _ _ _ => ?_⟩
    cases ofBlock <;> rfl
  lambda := ⟨_, keeps_testless h rfl, fun _ _ _ => rfl⟩
  target := ⟨_, h.call .primary, fun _ _ hc => Node.target?_alike hc.node⟩
  constantPath := by
    refine ⟨_, h.call .primary, fun a a' (hc : a.Alike a') => ?_⟩
    have hkind := congrArg Node.PrimaryLook.isConstant hc.node
    simp only [Node.primaryLook] at hkind
    dsimp only
    rw [hkind]
    split <;> rfl
  severalValues := by
    refine ⟨fun a a' => a.1.Alike a'.1 ∧ List.Forall₂ Node.Alike a.2 a'.2, ?_, ?_⟩
    · exact .seq (.seqLeft (.map (h.call .primary) fun _ _ hc _ _ hs => ⟨hc, hs⟩) (.token h _))
        ((Keeps.sepBy1 (keeps_splatOrArgument h) (.token h _)).imp fun _ _ hs => hs.1)
    · exact fun a a' ha => Node.assignValues?_alike ha.1.node ha.2
  oneLineMatch op := ⟨_, keeps_testless h rfl, fun _ _ _ => rfl⟩

/-- Two versions read plain nodes where all nodes that can be read are plain. -/
theorem keeps_plain (h : Later Symbol.Alike c c') {e : Rule Node}
    (he : e.Tests (AlikeTest c c')) (hplain : e.Makes fun n => n.kind.isPlainPrimary = true) :
    e.Keeps c c' Node.PrimaryAlike := by
  intro i o t hx ht
  obtain ⟨o', t', hx', ho⟩ := keeps_any h he i o t hx ht
  refine ⟨o', t', hx', ?_⟩
  cases ho with
  | fails => exact .fails
  | finds =>
      have hn := hplain.reads hx.reads
      have hn' := hplain.reads hx'.reads
      exact .finds ((Node.primaryLook_eq_plain hn).trans (Node.primaryLook_eq_plain hn').symm)

theorem keeps_plainNode (h : Later Symbol.Alike c c') {e : Rule Node} (he : e.testless = true)
    (hplain : e.Makes fun n => n.kind.isPlainPrimary = true) : e.Keeps c c' Node.Alike :=
  (keeps_plain h (tests_of_testless he) hplain).imp fun _ _ hn => hn.alike

end Alike

/-! ## §4. Primary expressions. -/

theorem compound_plain : compoundRule.Makes fun n => n.kind.isPlainPrimary = true := by
  refine ⟨?_, ?_, ?_, ?_, ?_, ?_, ?_, ?_, ?_, ?_⟩
  · -- `if`
    exact fun _ _ _ _ _ _ => rfl
  · -- `unless`
    exact fun _ _ _ _ _ _ => rfl
  · -- `while` and `until`
    intro kw cond _ body closing
    unfold Node.conditionLoop
    split <;> rfl
  · -- `for`
    exact fun _ _ _ _ _ _ _ => rfl
  · -- `case`
    exact ⟨fun _ _ _ _ _ _ => rfl, fun _ _ _ _ _ _ => rfl⟩
  · -- `begin`
    exact fun _ _ _ => rfl
  · -- `def`
    have hdef : ∀ kw head params body stop,
        (Node.methodDef kw head params body stop).kind.isPlainPrimary = true := by
      intro kw head params body stop
      unfold Node.methodDef
      split <;> rfl
    exact ⟨fun _ _ _ _ _ => hdef _ _ _ _ _, fun _ _ _ _ _ => hdef _ _ _ _ _⟩
  · -- `class`
    exact ⟨fun _ _ _ _ _ => rfl, fun _ _ _ _ _ => rfl⟩
  · -- `module`
    exact fun _ _ _ _ => rfl
  · -- parentheses
    exact fun _ _ _ => rfl

section Alike

variable {c c' : Facts Grammar.Symbol Symbol.Result}

theorem keeps_compound (h : Later Symbol.Alike c c') :
    compoundRule.Keeps c c' Node.PrimaryAlike :=
  keeps_plain h (tests_compound (testsHold_alike h)) compound_plain

theorem isPlain_string (opening : Token) (parts : List Node.StringPart) (closing : Token) :
    (Node.string opening parts closing).kind.isPlainPrimary = true := by
  unfold Node.string
  dsimp only
  split <;> rfl

theorem isPlain_quotedSymbol (opening : Token) (parts : List Node.StringPart) (closing : Token) :
    (Node.quotedSymbol opening parts closing).kind.isPlainPrimary = true := by
  unfold Node.quotedSymbol
  dsimp only
  split <;> rfl

/-- Strings side by side are plain: one string alone is, and several make a string with parts. -/
theorem concatenation_plain :
    (Node.concatenation <$> plus stringLiteral : Rule Node).Makes
      fun n => n.kind.isPlainPrimary = true := by
  refine ⟨?_, ?_⟩
  · intro opening parts closing rest
    cases rest with
    | nil => exact isPlain_string _ _ _
    | cons => rfl
  · intro t rest
    cases rest <;> rfl

theorem keeps_stringPart (h : Later Symbol.Alike c c') :
    stringPart.Keeps c c' Node.StringPart.Alike := by
  refine .orElse (.map (.token h _) ?_)
    (.seq (.seq (.map (.token h _) ?_) (h.call .statements)) (.token h _))
  · rintro t _ rfl
    exact .plain t
  · rintro opening _ rfl body body' _ closing _ rfl
    exact .interpolation opening body body' closing

theorem keeps_regexp (h : Later Symbol.Alike c c') :
    (Node.regexp <$> tok .tREGEXP_BEG <*> .star stringPart <*> tok .tSTRING_END
      <*> tok .tREGEXP_OPT : Rule Node).Keeps c c' Node.PrimaryAlike := by
  refine .seq (.seq (.seq (.map (.token h _) ?_) (.star (keeps_stringPart h))) (.token h _))
    (.token h _)
  rintro opening _ rfl parts parts' hparts closing _ rfl flags _ rfl
  exact Node.regexp_alike hparts

theorem keeps_literal (h : Later Symbol.Alike c c') : literalRule.Keeps c c' Node.PrimaryAlike := by
  have hplain : ∀ {e : Rule Node}, e.testless = true →
      (e.Makes fun n => n.kind.isPlainPrimary = true) → e.Keeps c c' Node.PrimaryAlike :=
    fun he hmakes => keeps_plain h (tests_of_testless he) hmakes
  refine .orElse ?_ <| .orElse ?_ <| .orElse ?_ <| .orElse ?_ <| .orElse ?_ <| .orElse ?_ <|
    .orElse ?_ <| .orElse ?_ <| .orElse (keeps_regexp h) ?_
  · exact hplain rfl fun _ => rfl
  · exact hplain rfl fun _ => rfl
  · exact hplain rfl fun _ => rfl
  · exact hplain rfl fun _ => rfl
  · exact hplain rfl concatenation_plain
  · exact hplain rfl fun _ _ _ => rfl
  · exact hplain rfl fun _ => rfl
  · exact hplain rfl isPlain_quotedSymbol
  · exact hplain rfl ⟨fun _ _ _ => rfl, fun _ _ _ _ _ _ => rfl, fun _ => rfl, fun _ => rfl,
      fun _ => rfl, fun _ => rfl, fun _ => rfl, fun _ => rfl, fun _ => rfl, fun _ => rfl,
      fun _ => rfl⟩

theorem keeps_argumentList (h : Later Symbol.Alike c c') :
    argumentList.Keeps c c' fun as as' =>
      as.map Node.Argument.look = as'.map Node.Argument.look :=
  .seqLeft ((Keeps.sepBy (h.call .callArgument) (.token h _)).imp fun _ _ has =>
    Node.map_eq_of_forall₂ has) (.opt (.token h _))

theorem keeps_parenArguments (h : Later Symbol.Alike c c') :
    parenArguments.Keeps c c' Node.ParenArguments.Alike :=
  .seq (.map (.seqRight (.token h _) (keeps_argumentList h)) fun _ _ has _ _ ht => ⟨has, ht⟩)
    (.token h _)

theorem keeps_suffix (h : Later Symbol.Alike c c') : suffixRule.Keeps c c' Node.Suffix.Alike := by
  have harguments := keeps_parenArguments h
  have hmethod : ∀ dot dot', dot = dot' → ∀ name name', name = name' → ∀ args args',
      Option.Rel Node.ParenArguments.Alike args args' →
      (Node.Suffix.method dot name args).Alike (.method dot' name' args') := by
    rintro dot _ rfl name _ rfl args args' hargs
    exact .method dot name hargs
  -- one alternative for each way to go on, and their values are alike if their parts are
  refine .orElse ?_ <| .orElse ?_ <| .orElse ?_ <| .orElse ?_ <| .orElse ?_ ?_
  · exact .seq (.seq (.map (.token h _) hmethod) (.token h _)) (.opt harguments)
  · refine .seq (.map (.token h _) ?_) harguments
    rintro dot _ rfl args args' hargs
    exact .unnamed dot hargs
  · refine .seqLeft (.map (.seqRight (.token h _) (.token h _)) ?_)
      (.notNext h _ fun _ _ => trivial)
    rintro name _ rfl
    exact .constant name
  · exact .seq (.seq (.map (.token h _) hmethod) (.token h _)) (.opt harguments)
  · refine .seq (.map (.seqRight (.token h _) (keeps_argumentList h)) ?_) (.token h _)
    rintro args args' _ closing _ rfl
    exact .index args args' closing
  · exact .map (keeps_testless h (e := braceBlock) rfl) fun parts parts' _ => .block parts parts'

theorem lambda_plain : lambda.Makes fun n => n.kind.isPlainPrimary = true := by
  intro arrow params body v n hn
  cases hn
  exact Node.isPlain_withBlock

/-- One token makes one node. -/
theorem keeps_ofToken (h : Later Symbol.Alike c c') (kinds : List Kind) (f : Token → Node.Chain) :
    (f <$> .token kinds : Rule Node.Chain).Keeps c c' Node.Chain.Alike := by
  refine .map (.token h kinds) ?_
  rintro t _ rfl
  exact .refl _

theorem keeps_atom (h : Later Symbol.Alike c c') : atomRule.Keeps c c' Node.Chain.Alike := by
  have harguments := keeps_parenArguments h
  refine .orElse ?_ <| .orElse ?_ <| .orElse ?_ <| .orElse ?_ <| .orElse ?_ <|
    .orElse (keeps_ofToken h _ _) <| .orElse ?_ <| .orElse ?_ <| .orElse (keeps_ofToken h _ _) <|
    .orElse (keeps_ofToken h _ _) <| .orElse (keeps_ofToken h _ _) <|
    .orElse (keeps_ofToken h _ _) ?_
  · exact .map (h.call .literal) fun _ _ => .closed
  · exact .map (h.call .compound) fun _ _ => .closed
  · refine .seq (.seqLeft (.seq (.seqLeft (.seqLeft (.map (.token h _) ?_) (.token h _))
      (.star (.token h _))) (h.call (.expression 0))) (.star (.token h _))) (.token h _)
    exact fun _ _ _ _ _ _ _ _ _ => .closed rfl
  · refine .seq (.map (.token h _) ?_) (.opt harguments)
    rintro kw _ rfl args args' hargs
    exact Node.superChain_alike hargs
  · refine .seq (.map (.token h _) ?_) (.opt harguments)
    rintro kw _ rfl args args' hargs
    exact Node.yieldChain_alike hargs
  · refine .seq (.map (.token h _) ?_) (.token h _)
    rintro colons _ rfl name _ rfl
    exact .refl _
  · refine .seq (.map (.token h _) ?_) harguments
    rintro name _ rfl ⟨items, closing⟩ ⟨items', closing'⟩ ⟨hitems, hclosing⟩
    cases hclosing
    exact .closed (Node.call_alike rfl (Node.arguments_look hitems))
  · exact .map (keeps_plain h (tests_lambda (testsHold_alike h)) lambda_plain) fun _ _ => .closed

theorem keeps_primary (h : Later Symbol.Alike c c') :
    primaryRule.Keeps c c' Node.Chain.Alike :=
  .check (S := fun a a' => a.1.Alike a'.1 ∧ List.Forall₂ Node.Suffix.Alike a.2 a'.2)
    (.seq (.map (h.call .atom) fun _ _ hc _ _ hs => ⟨hc, hs⟩) (.star (h.call .suffix)))
    fun _ _ ha => Node.applySuffixes?_alike ha.1 ha.2

/-! ## §5. Arguments and commands. -/

theorem keeps_callArgument (h : Later Symbol.Alike c c') :
    callArgumentRule.Keeps c c' fun a b => a.look = b.look := by
  have hargument : ∀ {kind : Kind} {f : Token → Node → Node.Argument},
      (∀ op n m, n.Alike m → (f op n).look = (f op m).look) →
      (f <$> tok kind <*> argument : Rule Node.Argument).Keeps c c' fun a b => a.look = b.look := by
    intro kind f hf
    refine .seq (.map (.token h _) ?_) (h.call .argument)
    rintro op _ rfl n m hn
    exact hf op n m hn
  have hmark : ∀ {kind : Kind} {f : Token → Node.Argument},
      (f <$> tok kind : Rule Node.Argument).Keeps c c' fun a b => a.look = b.look := by
    intro kind f
    refine .map (.token h _) ?_
    rintro op _ rfl
    rfl
  have hpositional : ∀ n m : Node, n.Alike m →
      (Node.Argument.positional n).look = (Node.Argument.positional m).look :=
    fun _ _ hn => congrArg Node.ArgumentLook.positional hn
  -- arguments without a value of their own are those of later versions
  refine .orElse (.since h _ (.seqLeft hmark (.next h _ fun _ _ => trivial))) <|
    .orElse (hargument fun _ _ _ _ => rfl) <| .orElse (.since h _ hmark) <|
    .orElse (hargument fun _ _ _ _ => rfl) <| .orElse (.since h _ hmark) <|
    .orElse (hargument fun _ _ _ _ => rfl) <| .orElse (.since h _ hmark) <|
    .orElse ?_ <| .orElse (.since h _ hmark) <| .orElse ?_ <| .orElse ?_ ?_
  · exact .seq (.seqLeft (.map (.token h _) fun _ _ _ _ _ _ => rfl) (.star (.token h _)))
      (h.call .argument)
  · exact .seq (.seqLeft (.map (h.call .argument) fun _ _ _ _ _ _ => rfl) (.token h _))
      (h.call .argument)
  · exact .map (h.call .command) hpositional
  · exact .map (h.call .argument) hpositional

theorem keeps_command (h : Later Symbol.Alike c c') : commandRule.Keeps c c' Node.Alike := by
  have hjump : ∀ kw items, (Node.jump kw items).kind.isPlainPrimary = true := by
    intro kw items
    unfold Node.jump
    dsimp only
    split <;> rfl
  refine .orElse (keeps_plainNode h rfl fun _ _ => hjump _ _) <| .check
    (S := fun a a' => a.1.Alike a'.1 ∧
      a.2.map Node.Argument.look = a'.2.map Node.Argument.look ∧ a.2 ≠ [])
    (.seq (.map (.check (h.call .primary) ?_) fun _ _ hc as as'
      (has : as.map Node.Argument.look = as'.map Node.Argument.look ∧ as ≠ []) => ⟨hc, has⟩) ?_)
    fun _ _ ha => Node.command?_alike ha.1 ha.2.1 ha.2.2
  · intro a a' ha
    rw [ha.isOpen]
    split
    · exact .some ha
    · exact .none
  · exact (Keeps.sepBy1 (h.call .callArgument) (.token h _)).imp fun _ _ has =>
      ⟨Node.map_eq_of_forall₂ has.1, has.2⟩

theorem keeps_commandCall (h : Later Symbol.Alike c c') :
    commandCallRule.Keeps c c' Node.Alike := by
  have hblock : doBlock.Keeps c c' fun _ _ => True := keeps_testless h rfl
  refine .orElse (.check (S := fun a a' => a.1.Alike a'.1 ∧ Option.Rel (fun _ _ => True) a.2 a'.2)
      (.seq (.map (h.call .command) fun _ _ hc _ _ hs => ⟨hc, hs⟩) (.opt hblock)) ?_) <|
    .check (S := fun a a' => a.1.Alike a'.1)
      (.seq (.map (h.call .argument) fun _ _ ha _ _ _ => ha) hblock) ?_
  · rintro ⟨n, parts⟩ ⟨n', parts'⟩ ⟨hn, hparts⟩
    cases hparts with
    | none => exact .some hn
    | some => exact Node.rel_alike (Node.attachBlock?_alike hn)
  · intro a a' ha
    exact Node.rel_alike (Node.attachBlock?_alike ha)

/-! ## §6. Operations. -/

theorem keeps_argument (h : Later Symbol.Alike c c') : argumentRule.Keeps c c' Node.Alike :=
  .orElse (keeps_plainNode h rfl fun _ _ _ => rfl) (h.call .ternary)

theorem keeps_ternary (h : Later Symbol.Alike c c') : ternaryRule.Keeps c c' Node.Alike :=
  .orElse (keeps_plainNode h rfl fun _ _ _ _ _ _ _ _ => rfl) (h.call .range)

theorem keeps_range (h : Later Symbol.Alike c c') : rangeRule.Keeps c c' Node.Alike := by
  have hrange : ∀ lhs op rhs, (Node.range lhs op rhs).kind.isPlainPrimary = true := by
    intro lhs op rhs
    unfold Node.range
    dsimp only
    split <;> rfl
  exact .orElse (keeps_plainNode h rfl fun _ _ _ => hrange _ _ _) <|
    .orElse (keeps_plainNode h rfl fun _ _ => hrange _ _ _) <|
    .orElse (keeps_plainNode h rfl fun _ _ => hrange _ _ _) (h.call (.operation 0))

theorem keeps_assigned (h : Later Symbol.Alike c c') : assignedRule.Keeps c c' Node.Alike := by
  refine .seq (.map (.orElse (h.call .commandCall) (h.call .argument)) ?_)
    (.opt (keeps_testless h rfl))
  intro n m hn fallback fallback' hfallback
  cases hfallback with
  | none => exact hn
  | some => rfl

theorem keeps_operand (h : Later Symbol.Alike c c') : operandRule.Keeps c c' Node.Alike := by
  refine .orElse (.check (S := fun a a' => a.1.Alike a'.1 ∧ a.2.Alike a'.2)
      (.seq (.seqLeft (.map (h.call .primary) fun _ _ hc _ _ hs => ⟨hc, hs⟩) (.token h _))
        (h.call .assigned)) ?_) <|
    .orElse (.check (S := fun a a' => a.1.Alike a'.1 ∧ a.2.1 = a'.2.1)
      (.seq (.seq (.map (h.call .primary) fun _ _ hc _ _ hs _ _ _ => ⟨hc, hs⟩) (.token h _))
        (h.call .assigned)) ?_) <|
    .map (h.call .primary) fun _ _ hc => hc.node.alike
  · exact fun _ _ ha => Node.assign?_alike ha.1.node ha.2
  · rintro ⟨target, op, value⟩ ⟨target', op', value'⟩ ⟨htarget, hop⟩
    cases hop
    exact Node.operatorAssign?_alike htarget.node

theorem keeps_climb {S : Node → Node → Prop} {unary : List UnaryLevel}
    {binary : List BinaryLevel} {atom : Rule Node} {operand : Nat → Rule Node}
    (h : Later Symbol.Alike c c')
    (hunary : ∀ u ∈ unary, ∀ op n m, S n m →
      S (Node.unary op n u.method) (Node.unary op m u.method))
    (hbinary : ∀ b ∈ binary, ∀ op n m n' m', S n m → S n' m' →
      S (b.combine n op n') (b.combine m op m'))
    (hatom : atom.Keeps c c' S) (hoperand : ∀ l, (operand l).Keeps c c' S) (level : Nat) :
    (climb unary binary atom operand level).Keeps c c' S := by
  have hfirst : (Expr.firstOf (unary.map (·.head operand)) atom).Keeps c c' S := by
    refine .firstOf (List.forall_mem_map.mpr fun u hu => ?_) hatom
    refine .seq (.map (.token h _) ?_) (hoperand _)
    rintro op _ rfl n m hn
    exact hunary u hu op n m hn
  have htails : ∀ t ∈ (binary.filter (level ≤ ·.level)).map (·.tail operand),
      t.Keeps c c' fun f f' => ∀ n m, S n m → S (f n) (f' m) := by
    refine List.forall_mem_map.mpr fun b hb => ?_
    refine .seq (.map (.token h _) ?_) (hoperand _)
    rintro op _ rfl n' m' hn' n m hn
    exact hbinary b (List.mem_filter.mp hb).1 op n m n' m' hn hn'
  simp only [climb]
  split
  next => exact hfirst
  next tail tails heq =>
    rw [heq] at htails
    have htail := Keeps.foldl_orElse (htails tail List.mem_cons_self) fun t ht =>
      htails t (List.mem_cons_of_mem _ ht)
    refine .seq (.map hfirst fun n m hn fs fs' hfs => ?_) (.star htail)
    -- the operators to the right are applied one after the other to what has been read so far
    induction hfs generalizing n m with
    | nil => exact hn
    | cons hf _ ih => exact ih _ _ (hf _ _ hn)

theorem keeps_operation (h : Later Symbol.Alike c c') (level : Nat) :
    (operationRule level).Keeps c c' Node.Alike := by
  refine keeps_climb h (fun _ _ _ _ _ _ => rfl) ?_ (h.call .operand)
    (fun l => h.call (.operation l)) level
  intro b hb op n m n' m' hn hn'
  simp only [binaryLevels, List.mem_cons, List.not_mem_nil, or_false] at hb
  rcases hb with rfl | rfl | rfl | rfl | rfl | rfl | rfl | rfl | rfl | rfl
  · exact Node.joined_alike rfl _ _ _ _
  · exact Node.joined_alike rfl _ _ _ _
  all_goals exact Node.binary_alike hn hn'

/-! ## §7. All symbols. -/

/-- **All symbols read nodes of one look in a later version.** -/
theorem language_later {tokens : Array Token} {v w : Version} (hvw : w.atLeast v = true) :
    Later Symbol.Alike (language.derived tokens v) (language.derived tokens w) := by
  refine Rules.derived_later (g := language) (R := Symbol.Alike) hvw fun c c' h _ _ s => ?_
  have hloose := testsHold_alike h
  -- the rules whose values can differ have a lemma each; the others give equal values
  cases s with
  | expressionAtom => exact keeps_any h (tests_expressionAtom hloose)
  | commandCall => exact keeps_commandCall h
  | command => exact keeps_command h
  | argument => exact keeps_argument h
  | ternary => exact keeps_ternary h
  | range => exact keeps_range h
  | operation level => exact keeps_operation h level
  | operand => exact keeps_operand h
  | assigned => exact keeps_assigned h
  | callArgument => exact keeps_callArgument h
  | primary => exact keeps_primary h
  | suffix => exact keeps_suffix h
  | atom => exact keeps_atom h
  | literal => exact keeps_literal h
  | compound => exact keeps_compound h
  | statement => exact keeps_any h (tests_statement hloose)
  | targetItem => exact keeps_any h (tests_targetItem hloose)
  | body => exact keeps_any h (tests_body hloose)
  | param ofBlock => exact keeps_any h (tests_param hloose ofBlock)
  | expression level =>
      exact keeps_testless h <|
        forall_expressionRule (P := fun e => e.testless = true) (by decide) level
  | _ => exact keeps_testless h rfl

end Alike

end RubySyntax.Grammar

namespace RubySyntax.Program

open Token Grammar Grammar.Expr

/-! ## §8. Programs. -/

variable {v w : Version} {tokens : List Token} {root : Option Node}

/-- What a version reads of some tokens, a later one reads too, where nothing is refused that it
has. -/
theorem readProgram_later (hvw : w.atLeast v = true) (h : readProgram tokens v = .ok root)
    (hrefused : ∀ g, Refuses v tokens g → w.atLeast g = false) :
    ∃ root', readProgram tokens w = .ok root' ∧ (v.atLeast ⟨3, 0⟩ = true → root' = root) := by
  obtain ⟨j, t, hfound⟩ := finds_of_readProgram_ok h
  have ht : t.Spares w := fun g hg => hrefused g ⟨_, t, hfound, hg⟩
  have hread : ∀ {S : Option Node → Option Node → Prop},
      program.Keeps (language.derived tokens.toArray v) (language.derived tokens.toArray w) S →
      ∃ root', readProgram tokens w = .ok root' ∧ S root root' := by
    intro S hkeeps
    obtain ⟨_, t', hfound', ho⟩ := hkeeps 0 _ t hfound ht
    cases ho with
    | finds hroot => exact ⟨_, readProgram_eq_of_finds hfound', hroot⟩
  by_cases hv : v.atLeast ⟨3, 0⟩ = true
  · obtain ⟨root', hread', hroot⟩ :=
      hread (keeps_eq (language_same hvw hv) (tests_of_testless rfl))
    exact ⟨root', hread', fun _ => hroot.symm⟩
  · obtain ⟨root', hread', -⟩ := hread (keeps_testless (language_later hvw) rfl)
    exact ⟨root', hread', fun h => absurd h hv⟩

/-- **A program stays valid in later versions**, where nothing is refused that the later version
has: its tokens and comments are the same, and from version 3.0 on its tree is. -/
theorem read_later {text : String} {p : Program} (hvw : w.atLeast v = true)
    (h : (read v text).1 = .ok p) (hrefused : ∀ g, Refuses v p.tokens g → w.atLeast g = false) :
    ∃ q, (read w text).1 = .ok q ∧ q.tokens = p.tokens ∧ q.comments = p.comments ∧
      (v.atLeast ⟨3, 0⟩ = true → q.tree = p.tree) := by
  obtain ⟨lexed, found, hlex, htokens, hcomments, htree⟩ := eq_of_read h
  obtain ⟨root, hroot, hresolve⟩ := eq_of_treeOf htree
  rw [htokens] at hrefused
  obtain ⟨root', hroot', hsame⟩ := readProgram_later hvw hroot hrefused
  have htree' : treeOf lexed.tokens w text = .ok (root'.getD empty).resolve := by
    unfold treeOf
    rw [hroot']
  refine ⟨⟨(root'.getD empty).resolve, lexed.comments, lexed.tokens⟩, ?_, htokens.symm,
    hcomments.symm, fun hv => ?_⟩
  · rw [read, hlex]
    simp only [htree']
  · rw [hsame hv, hresolve]

/-- A block with a numbered parameter stays valid, though it becomes a node of another kind. -/
theorem read_later_of_block : (⟨3, 4⟩ : Version).atLeast ⟨2, 5⟩ = true ∧
    ∃ p, (read ⟨2, 5⟩ "f { _1 }").1 = .ok p ∧
      (∀ g, Refuses ⟨2, 5⟩ p.tokens g → (⟨3, 4⟩ : Version).atLeast g = false) ∧
      ∃ q, (read ⟨3, 4⟩ "f { _1 }").1 = .ok q ∧ q.tokens = p.tokens ∧ q.comments = p.comments ∧
        ((⟨2, 5⟩ : Version).atLeast ⟨3, 0⟩ = true → q.tree = p.tree) := by
  have hread : ((read ⟨2, 5⟩ "f { _1 }").1.toOption.any fun p =>
      p.tokens.all fun t => !markKinds.contains t.kind) = true := by decide +kernel
  obtain ⟨p, hp, hkinds⟩ := exists_of_any hread
  have hrefused : ∀ g, Refuses ⟨2, 5⟩ p.tokens g → (⟨3, 4⟩ : Version).atLeast g = false := by
    refine fun g hg => absurd hg (not_refuses (fun t ht hkind => ?_) g)
    have hnot := List.all_eq_true.mp hkinds t ht
    simp [hkind] at hnot
  exact ⟨by decide, p, hp, hrefused, read_later (by decide) hp hrefused⟩

example : ((read ⟨3, 1⟩ "foo(x => y, *), 2").1.isOk &&
    !(read ⟨3, 2⟩ "foo(x => y, *), 2").1.isOk) = true := by
  decide +kernel

end RubySyntax.Program
