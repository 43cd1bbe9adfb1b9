/-
  RubySyntax.Proofs.Tree.Unplaced.Build
  ─────────────────────────────────────
  **CALLS, ASSIGNMENTS, CONDITIONS AND PATTERNS WITHOUT PLACES.**

  These functions choose the kind of a node by kinds and names of its parts, and some refuse their
  parts.  Neither is a matter of places: of parts without places they make the same node without
  places, or refuse as well.

  Main results:
    • `call_unplaced`, `applySuffixes?_unplaced`, `command?_unplaced` — calls,
    • `assign?_unplaced`, `condition_unplaced`, `bodyStatements_unplaced` — statements,
    • `listPattern_unplaced`, `topPattern_unplaced` — patterns.
-/
import RubySyntax.Node.Build.Control
import RubySyntax.Node.Build.Pattern
import RubySyntax.Proofs.Tree.Unplaced

namespace RubySyntax.Node

/-! ## §1. Arguments and collections. -/

/-- An element of an argument list with its places forgotten. -/
def Argument.unplaced : Argument → Argument
  | .positional n => .positional n.unplaced
  | .pair n => .pair n.unplaced
  | .blockPass n => .blockPass n.unplaced

namespace Argument

variable (a : Argument)

@[simp] theorem positional?_unplaced :
    a.unplaced.positional? = a.positional?.map Node.unplaced := by
  cases a <;> rfl

@[simp] theorem pair?_unplaced : a.unplaced.pair? = a.pair?.map Node.unplaced := by
  cases a <;> rfl

@[simp] theorem blockPass?_unplaced :
    a.unplaced.blockPass? = a.blockPass?.map Node.unplaced := by
  cases a <;> rfl

end Argument

/-- Nodes that are picked out of arguments do not depend on places. -/
theorem filterMap_unplaced {pick : Argument → Option Node}
    (h : ∀ a, pick a.unplaced = (pick a).map Node.unplaced) (items : List Argument) :
    (items.map Argument.unplaced).filterMap pick = (items.filterMap pick).map Node.unplaced := by
  simp only [List.filterMap_map, List.map_filterMap, Function.comp_def, h]

theorem groupPairs_unplaced (kind : Kind) (items : List Argument) :
    groupPairs kind (items.map Argument.unplaced) =
      (groupPairs kind items).map Node.unplaced := by
  have hpair : (fun a : Argument => a.pair?.isNone) ∘ Argument.unplaced =
      fun a => a.pair?.isNone := by
    funext a
    simp
  have hlast : (((items.filterMap (·.blockPass?)).map Node.unplaced).getLast?).toList =
      ((items.filterMap (·.blockPass?)).getLast?.toList).map Node.unplaced := by
    rw [List.getLast?_map, Option.toList_map]
  unfold groupPairs
  simp only [List.takeWhile_map, List.dropWhile_map, hpair,
    filterMap_unplaced Argument.positional?_unplaced, filterMap_unplaced Argument.pair?_unplaced,
    filterMap_unplaced Argument.blockPass?_unplaced, List.isEmpty_map, slots_unplaced,
    cover_unplaced, hlast, List.map_append]
  split <;> simp

@[simp] theorem arguments_unplaced (items : List Argument) :
    arguments (items.map Argument.unplaced) = (arguments items).map Node.unplaced :=
  groupPairs_unplaced .kwargs items

theorem array_unplaced (opening : Token) (items : List Argument) (closing : Token) :
    array opening.unplaced (items.map Argument.unplaced) closing.unplaced =
      (array opening items closing).unplaced := by
  simp [array, groupPairs_unplaced]

@[simp] theorem bareArray_unplaced (items : List Node) :
    bareArray (items.map Node.unplaced) = (bareArray items).unplaced := by
  simp [bareArray]

theorem hash_unplaced (opening : Token) (pairs : List Node) (closing : Token) :
    hash opening.unplaced (pairs.map Node.unplaced) closing.unplaced =
      (hash opening pairs closing).unplaced := by
  simp [hash]

theorem pair_unplaced (key value : Node) :
    pair key.unplaced value.unplaced = (pair key value).unplaced := by
  simp [pair]

theorem labelled_unplaced (label : Token) (value : Node) :
    labelled label.unplaced value.unplaced = (labelled label value).unplaced := by
  rw [labelled, symbol_unplaced, pair_unplaced, labelled]

theorem labelAlone_unplaced (label : Token) :
    labelAlone label.unplaced = (labelAlone label).unplaced := by
  simp [labelAlone]

theorem doubleSplat_unplaced (op : Token) (value : Node) :
    doubleSplat op.unplaced value.unplaced = (doubleSplat op value).unplaced := by
  simp [doubleSplat]

theorem splat_unplaced (op : Token) (value : Option Node) :
    splat op.unplaced (value.map Node.unplaced) = (splat op value).unplaced := by
  simp [splat, Option.toList_map]

theorem blockPass_unplaced (op : Token) (value : Option Node) :
    blockPass op.unplaced (value.map Node.unplaced) = (blockPass op value).unplaced := by
  simp [blockPass]

/-! ## §2. Calls. -/

theorem call_unplaced (receiver : Option Node) (dot : Option Token) (name : String)
    (selector : Span) (args : List Node) (closing : Option Span) :
    call (receiver.map Node.unplaced) (dot.map Token.unplaced) name .nowhere
      (args.map Node.unplaced) (closing.map fun _ => .nowhere) =
      (call receiver dot name selector args closing).unplaced := by
  have hdot : (dot.map Token.unplaced).any (fun d => d.kind == .tANDDOT) =
      dot.any fun d => d.kind == .tANDDOT := by
    cases dot <;> rfl
  unfold call
  rw [hdot]
  cases closing <;> simp

theorem functionCall_unplaced (name : Token) (args : List Argument) (closing : Token) :
    functionCall name.unplaced (args.map Argument.unplaced) closing.unplaced =
      (functionCall name args closing).unplaced := by
  rw [functionCall, arguments_unplaced]
  exact call_unplaced none none name.value name.span (arguments args) (some closing.span)

theorem nameCall_unplaced (name : Token) :
    nameCall name.unplaced = (nameCall name).unplaced :=
  call_unplaced none none name.value name.span [] none

theorem index_unplaced (receiver : Node) (args : List Argument) (closing : Token) :
    index receiver.unplaced (args.map Argument.unplaced) closing.unplaced =
      (index receiver args closing).unplaced := by
  simp [index]

theorem superCall_unplaced (kw : Token) (items : List Argument) (closing : Token) :
    superCall kw.unplaced (items.map Argument.unplaced) closing.unplaced =
      (superCall kw items closing).unplaced := by
  simp [superCall]

theorem yieldCall_unplaced (kw : Token) (items : List Argument) (closing : Token) :
    yieldCall kw.unplaced (items.map Argument.unplaced) closing.unplaced =
      (yieldCall kw items closing).unplaced := by
  simp [yieldCall]

theorem jump_unplaced (kw : Token) (items : List Argument) :
    jump kw.unplaced (items.map Argument.unplaced) = (jump kw items).unplaced := by
  simp [jump]

theorem defined_unplaced (kw : Token) (value : Node) (closing : Option Token) :
    defined kw.unplaced value.unplaced (closing.map Token.unplaced) =
      (defined kw value closing).unplaced := by
  cases closing <;> simp [defined]

theorem unary_unplaced (op : Token) (operand : Node) (method : String) :
    unary op.unplaced operand.unplaced method = (unary op operand method).unplaced := by
  simp [unary]

@[simp] theorem joined_unplaced (kind : Kind) (lhs rhs : Node) :
    joined kind lhs.unplaced rhs.unplaced = (joined kind lhs rhs).unplaced := by
  simp [joined]

theorem binary_unplaced (lhs : Node) (op : Token) (rhs : Node) :
    binary lhs.unplaced op.unplaced rhs.unplaced = (binary lhs op rhs).unplaced := by
  unfold binary
  rw [Token.kind_unplaced, kind_unplaced, namedCaptures_unplaced]
  split
  · simp
  · exact call_unplaced (some lhs) none op.value op.span [rhs] none

theorem range_unplaced (lhs : Option Node) (op : Token) (rhs : Option Node) :
    range (lhs.map Node.unplaced) op.unplaced (rhs.map Node.unplaced) =
      (range lhs op rhs).unplaced := by
  simp [range]

/-! ## §3. Blocks. -/

mutual

/-- The greatest implicit parameter of a tree is not a matter of places. -/
theorem greatestParameter_unplaced (n : Node) :
    greatestParameter n.unplaced = greatestParameter n := by
  match n with
  | .mk kind children span =>
      rw [unplaced_mk]
      unfold greatestParameter
      rw [slotsGreatest_unplaced children, firstGreatest_unplaced children]
      split
      · match children with
        | [] | .node _ :: _ | .symbol _ :: _ | .text _ :: _ | .integer _ :: _ | .float _ :: _
        | .absent :: _ => simp
      all_goals rfl

theorem firstGreatest_unplaced (children : List Child) :
    firstGreatest (children.map Child.unplaced) = firstGreatest children := by
  match children with
  | [] => rfl
  | c :: rest => rw [List.map_cons, firstGreatest, firstGreatest, slotGreatest_unplaced c]

theorem slotsGreatest_unplaced (children : List Child) :
    slotsGreatest (children.map Child.unplaced) = slotsGreatest children := by
  match children with
  | [] => rfl
  | c :: rest =>
      rw [List.map_cons, slotsGreatest, slotsGreatest, slotGreatest_unplaced c,
        slotsGreatest_unplaced rest]

theorem slotGreatest_unplaced (c : Child) : slotGreatest c.unplaced = slotGreatest c := by
  match c with
  | .node n =>
      rw [Child.unplaced_node, slotGreatest, slotGreatest, greatestParameter_unplaced n]
  | .symbol _ | .text _ | .integer _ | .float _ | .absent => simp

end

/-- A block before it is attached, with its places forgotten. -/
def BlockParts.unplaced (parts : BlockParts) : BlockParts :=
  ⟨parts.opening.unplaced, parts.params.map Node.unplaced, parts.body.map Node.unplaced,
    parts.closing.unplaced⟩

theorem withBlock_unplaced (v : Version) (callee : Node) (parts : BlockParts) :
    withBlock v callee.unplaced parts.unplaced = (withBlock v callee parts).unplaced := by
  obtain ⟨opening, params, body, closing⟩ := parts
  have hcount : ((body.map Node.unplaced).map greatestParameter).getD 0 =
      (body.map greatestParameter).getD 0 := by
    cases body with
    | none => rfl
    | some body => exact greatestParameter_unplaced body
  unfold withBlock BlockParts.unplaced
  rw [hcount]
  cases params with
  | some params => simp
  | none =>
      simp only [Option.map_none]
      split <;> simp

theorem blockCallee?_unplaced (n : Node) :
    blockCallee? n.unplaced = (blockCallee? n).map Node.unplaced := by
  have hlast : (n.unplaced.lastChild?.bind Child.node?).any (fun last => last.kind == .blockPass) =
      (n.lastChild?.bind Child.node?).any fun last => last.kind == .blockPass := by
    rw [lastChild?_unplaced]
    cases n.lastChild? with
    | none => rfl
    | some c =>
        simp only [Option.map_some, Option.bind_some, Child.node?_unplaced]
        cases c.node? <;> simp
  simp only [blockCallee?, hlast, kind_unplaced, children_unplaced, span_unplaced]
  generalize (n.lastChild?.bind Child.node?).any (fun last => last.kind == .blockPass) = passes
  split <;> cases passes <;> simp

theorem attachBlock?_unplaced (v : Version) (n : Node) (parts : BlockParts) :
    attachBlock? v n.unplaced parts.unplaced = (attachBlock? v n parts).map Node.unplaced := by
  rw [attachBlock?, attachBlock?, blockCallee?_unplaced, Option.map_map, Option.map_map]
  exact congrArg (fun f => (blockCallee? n).map f) (funext fun callee =>
    withBlock_unplaced v callee parts)

theorem lambda_unplaced (v : Version) (arrow : Token) (params : Option Node)
    (parts : BlockParts) :
    lambda v arrow.unplaced (params.map Node.unplaced) parts.unplaced =
      (lambda v arrow params parts).unplaced := by
  have hparts : { parts.unplaced with params := (params.map Node.unplaced).or parts.unplaced.params } =
      BlockParts.unplaced { parts with params := params.or parts.params } := by
    cases params <;> rfl
  rw [lambda, bare_unplaced, hparts]
  exact withBlock_unplaced v _ _

/-! ## §4. Primary expressions. -/

/-- A primary expression with its places forgotten. -/
def Chain.unplaced (c : Chain) : Chain := ⟨c.node.unplaced, c.isOpen⟩

/-- The arguments between parentheses with their places forgotten. -/
def ParenArguments.unplaced (args : ParenArguments) : ParenArguments :=
  (args.1.map Argument.unplaced, args.2.unplaced)

/-- What follows a primary expression, with its places forgotten. -/
def Suffix.unplaced : Suffix → Suffix
  | .method dot name args =>
    .method dot.unplaced name.unplaced (args.map ParenArguments.unplaced)
  | .unnamed dot args => .unnamed dot.unplaced (ParenArguments.unplaced args)
  | .constant name => .constant name.unplaced
  | .index args closing => .index (args.map Argument.unplaced) closing.unplaced
  | .block parts => .block parts.unplaced

theorem applySuffix?_unplaced (v : Version) (receiver : Chain) (op : Suffix) :
    applySuffix? v receiver.unplaced op.unplaced =
      (applySuffix? v receiver op).map Chain.unplaced := by
  have hcall (dot : Token) (name : String) (selector : Span) (args : List Node)
      (closing : Option Span) := call_unplaced (some receiver.node) (some dot) name selector args
    closing
  cases op with
  | method dot name args =>
      cases args with
      | none => exact congrArg (fun n => some (Chain.opened n)) (hcall dot _ name.span [] none)
      | some args =>
          obtain ⟨items, closing⟩ := args
          have hargs := hcall dot name.value name.span (arguments items) (some closing.span)
          rw [← arguments_unplaced] at hargs
          exact congrArg (fun n => some (Chain.closed n)) hargs
  | unnamed dot args =>
      obtain ⟨items, closing⟩ := args
      have hargs := hcall dot "call" dot.span (arguments items) (some closing.span)
      rw [← arguments_unplaced] at hargs
      exact congrArg (fun n => some (Chain.closed n)) hargs
  | constant name =>
      exact congrArg (fun n => some (Chain.opened n)) (constant_unplaced (some receiver.node) name)
  | index args closing =>
      exact congrArg (fun n => some (Chain.closed n)) (index_unplaced receiver.node args closing)
  | block parts =>
      show ((attachBlock? v receiver.node.unplaced parts.unplaced).map Chain.closed) =
        ((attachBlock? v receiver.node parts).map Chain.closed).map Chain.unplaced
      rw [attachBlock?_unplaced, Option.map_map, Option.map_map]
      rfl

theorem applySuffixes?_unplaced (v : Version) (first : Chain) (ops : List Suffix) :
    applySuffixes? v first.unplaced (ops.map Suffix.unplaced) =
      (applySuffixes? v first ops).map Chain.unplaced := by
  unfold applySuffixes?
  induction ops generalizing first with
  | nil => rfl
  | cons op ops ih =>
      rw [List.map_cons, List.foldlM_cons, List.foldlM_cons, applySuffix?_unplaced]
      cases applySuffix? v first op with
      | none => rfl
      | some next => exact ih next

theorem superChain_unplaced (kw : Token) (args : Option ParenArguments) :
    superChain kw.unplaced (args.map ParenArguments.unplaced) =
      (superChain kw args).unplaced := by
  cases args with
  | none => exact congrArg Chain.opened (bare_unplaced .zsuper kw)
  | some args => exact congrArg Chain.closed (superCall_unplaced kw args.1 args.2)

theorem yieldChain_unplaced (kw : Token) (args : Option ParenArguments) :
    yieldChain kw.unplaced (args.map ParenArguments.unplaced) =
      (yieldChain kw args).unplaced := by
  cases args with
  | none => exact congrArg Chain.opened (bare_unplaced .yieldCall kw)
  | some args => exact congrArg Chain.closed (yieldCall_unplaced kw args.1 args.2)

theorem command?_unplaced (c : Chain) (items : List Argument) :
    command? c.unplaced (items.map Argument.unplaced) =
      (command? c items).map Node.unplaced := by
  obtain ⟨n, isOpen⟩ := c
  have hlast : (n.children.map Child.unplaced).getLastD .absent =
      (n.children.getLastD .absent).unplaced := by
    rw [List.getLastD_eq_getLast?, List.getLastD_eq_getLast?, List.getLast?_map]
    cases n.children.getLast? <;> simp
  unfold command? Chain.unplaced
  simp only [arguments_unplaced, kind_unplaced, children_unplaced, span_unplaced, hlast,
    List.isEmpty_map, slots_unplaced, joinAll_unplaced]
  split
  · rfl
  · split
    case h_6 => split <;> simp
    all_goals simp

/-! ## §5. Assignments. -/

theorem attributeTarget?_unplaced (n : Node) :
    attributeTarget? n.unplaced = (attributeTarget? n).map Node.unplaced := by
  unfold attributeTarget?
  rw [children_unplaced, kind_unplaced, span_unplaced]
  match n.children with
  | [receiver, .symbol name] =>
      simp only [List.map_cons, List.map_nil, Child.unplaced_symbol, Child.isAbsent_unplaced]
      split <;> simp
  | [] | [_] | _ :: _ :: _ :: _ | [_, .node _] | [_, .text _] | [_, .integer _] | [_, .float _]
  | [_, .absent] => simp

theorem target?_unplaced (n : Node) :
    target? n.unplaced = (target? n).map Node.unplaced := by
  unfold target?
  rw [kind_unplaced, attributeTarget?_unplaced]
  cases targetKind? n.kind with
  | some kind => simp
  | none =>
      simp only
      split <;> rfl

theorem readsAttribute_unplaced (n : Node) : n.unplaced.readsAttribute = n.readsAttribute := by
  unfold readsAttribute
  rw [children_unplaced, kind_unplaced]
  match n.children with
  | [] | [_] | [_, _] | _ :: _ :: _ :: _ => simp

theorem assign?_unplaced (n value : Node) :
    assign? n.unplaced value.unplaced = (assign? n value).map Node.unplaced := by
  rw [assign?, assign?, target?_unplaced]
  cases target? n <;> simp

theorem operatorAssign?_unplaced (n : Node) (op : Token) (value : Node) :
    operatorAssign? n.unplaced op.unplaced value.unplaced =
      (operatorAssign? n op value).map Node.unplaced := by
  have htarget : (if n.readsAttribute then some n.unplaced else target? n.unplaced) =
      (if n.readsAttribute then some n else target? n).map Node.unplaced := by
    rw [target?_unplaced]
    split <;> rfl
  unfold operatorAssign?
  rw [readsAttribute_unplaced, htarget, Token.value_unplaced]
  cases if n.readsAttribute then some n else target? n with
  | none => rfl
  | some t =>
      simp only [Option.map_some]
      split
      · simp
      · split <;> simp

@[simp] theorem rescueModifier_unplaced (body : Node) (kw : Token) (value : Node) :
    rescueModifier body.unplaced kw.unplaced value.unplaced =
      (rescueModifier body kw value).unplaced := by
  simp [rescueModifier]

theorem multipleValues_unplaced (ns : List Node) :
    multipleValues (ns.map Node.unplaced) = (multipleValues ns).unplaced := by
  match ns with
  | [n] =>
      simp only [multipleValues, List.map_cons, List.map_nil, kind_unplaced]
      split
      · exact bareArray_unplaced [n]
      · rfl
  | [] => exact bareArray_unplaced []
  | first :: second :: rest => exact bareArray_unplaced (first :: second :: rest)

theorem targets_unplaced (ns : List Node) :
    targets (ns.map Node.unplaced) = (targets ns).unplaced := by
  match ns with
  | [n] =>
      have hcover := cover_unplaced [n]
      simp only [List.map_cons, List.map_nil] at hcover
      simp only [targets, List.map_cons, List.map_nil, kind_unplaced]
      split
      · rfl
      · simp [hcover]
  | [] => simp [targets, slots, cover]
  | first :: second :: rest =>
      have hslots := slots_unplaced (first :: second :: rest)
      have hcover := cover_unplaced (first :: second :: rest)
      simp only [List.map_cons] at hslots hcover
      simp [targets, hslots, hcover]

theorem parenTargets_unplaced (opening : Token) (items : List Node) (closing : Token) :
    parenTargets opening.unplaced (items.map Node.unplaced) closing.unplaced =
      (parenTargets opening items closing).unplaced := by
  simp [parenTargets]

theorem multipleAssign_unplaced (left value : Node) :
    multipleAssign left.unplaced value.unplaced = (multipleAssign left value).unplaced :=
  joined_unplaced .masgn left value

theorem assignValues?_unplaced (n : Node) (items : List Node) :
    assignValues? n.unplaced (items.map Node.unplaced) =
      (assignValues? n items).map Node.unplaced := by
  have hassign := assign?_unplaced n (bareArray items)
  rw [← bareArray_unplaced] at hassign
  match items with
  | [item] =>
      simp only [assignValues?, List.map_cons, List.map_nil, kind_unplaced]
      split
      · exact hassign
      · rfl
  | [] => exact hassign
  | first :: second :: rest => exact hassign

/-! ## §6. Conditions, branches and bodies. -/

mutual

/-- What an expression becomes as a condition is not a matter of places. -/
theorem condition_unplaced (n : Node) : condition n.unplaced = (condition n).unplaced := by
  match n with
  | .mk kind children span =>
      rw [unplaced_mk]
      unfold condition
      rw [conditionSlots_unplaced children, List.length_map]
      split
      case h_6 => split <;> simp
      all_goals simp

theorem conditionSlots_unplaced (children : List Child) :
    conditionSlots (children.map Child.unplaced) =
      (conditionSlots children).map Child.unplaced := by
  match children with
  | [] => rfl
  | c :: rest =>
      rw [List.map_cons, conditionSlots, conditionSlots, List.map_cons,
        conditionSlot_unplaced c, conditionSlots_unplaced rest]

theorem conditionSlot_unplaced (c : Child) :
    conditionSlot c.unplaced = (conditionSlot c).unplaced := by
  match c with
  | .node n =>
      rw [Child.unplaced_node, conditionSlot, conditionSlot, Child.unplaced_node,
        condition_unplaced n]
  | .symbol _ | .text _ | .integer _ | .float _ | .absent => simp [conditionSlot]

end

theorem conditional_unplaced (kw : Token) (cond : Node) (yes no : Option Node) (stop : Span) :
    conditional kw.unplaced cond.unplaced (yes.map Node.unplaced) (no.map Node.unplaced) .nowhere =
      (conditional kw cond yes no stop).unplaced := by
  simp [conditional, condition_unplaced]

theorem elseIf_unplaced (kw : Token) (cond : Node) (yes no : Option Node) :
    elseIf kw.unplaced cond.unplaced (yes.map Node.unplaced) (no.map Node.unplaced) =
      (elseIf kw cond yes no).unplaced := by
  rw [elseIf, span_unplaced, joinOption_unplaced, joinOption_unplaced]
  exact conditional_unplaced kw cond yes no _

theorem ternary_unplaced (cond yes no : Node) :
    ternary cond.unplaced yes.unplaced no.unplaced = (ternary cond yes no).unplaced := by
  simp [ternary, condition_unplaced]

theorem modified_unplaced (body : Node) (kw : Token) (value : Node) :
    modified body.unplaced kw.unplaced value.unplaced = (modified body kw value).unplaced := by
  simp only [modified, Token.kind_unplaced, kind_unplaced, span_unplaced, Span.join_nowhere,
    condition_unplaced, rescueModifier_unplaced]
  generalize (body.kind == .kwbegin) = isBlock
  cases isBlock
  all_goals
    simp only [if_true, Bool.false_eq_true, if_false]
    split <;> simp

theorem conditionLoop_unplaced (kw : Token) (cond : Node) (body : Option Node)
    (closing : Token) :
    conditionLoop kw.unplaced cond.unplaced (body.map Node.unplaced) closing.unplaced =
      (conditionLoop kw cond body closing).unplaced := by
  simp [conditionLoop, condition_unplaced]

theorem forLoop_unplaced (kw : Token) (var elements : Node) (body : Option Node)
    (closing : Token) :
    forLoop kw.unplaced var.unplaced elements.unplaced (body.map Node.unplaced) closing.unplaced =
      (forLoop kw var elements body closing).unplaced := by
  simp [forLoop]

theorem whenClause_unplaced (kw : Token) (values : List Node) (body : Option Node) :
    whenClause kw.unplaced (values.map Node.unplaced) (body.map Node.unplaced) =
      (whenClause kw values body).unplaced := by
  simp [whenClause]

/-- The `else` of a branching statement with its places forgotten. -/
def ElseClause.unplaced (clause : ElseClause) : ElseClause :=
  (clause.1.unplaced, clause.2.map Node.unplaced)

theorem caseWhen_unplaced (kw : Token) (subject : Option Node) (clauses : List Node)
    (otherwise : Option ElseClause) (closing : Token) :
    caseWhen kw.unplaced (subject.map Node.unplaced) (clauses.map Node.unplaced)
      (otherwise.map ElseClause.unplaced) closing.unplaced =
      (caseWhen kw subject clauses otherwise closing).unplaced := by
  have hlast : (otherwise.map ElseClause.unplaced).bind (·.2) =
      (otherwise.bind (·.2)).map Node.unplaced := by
    cases otherwise <;> rfl
  unfold caseWhen
  rw [hlast]
  generalize otherwise.bind (·.2) = last
  simp

theorem caseMatch_unplaced (kw : Token) (subject : Node) (clauses : List Node)
    (otherwise : Option ElseClause) (closing : Token) :
    caseMatch kw.unplaced subject.unplaced (clauses.map Node.unplaced)
      (otherwise.map ElseClause.unplaced) closing.unplaced =
      (caseMatch kw subject clauses otherwise closing).unplaced := by
  match otherwise with
  | none | some (_, none) | some (_, some _) => simp [caseMatch, ElseClause.unplaced]

theorem inPattern_unplaced (kw : Token) (pattern : Node) (guard body : Option Node) :
    inPattern kw.unplaced pattern.unplaced (guard.map Node.unplaced) (body.map Node.unplaced) =
      (inPattern kw pattern guard body).unplaced := by
  simp [inPattern]

theorem guard_unplaced (kw : Token) (cond : Node) :
    guard kw.unplaced cond.unplaced = (guard kw cond).unplaced := by
  simp [guard]

theorem rescueClause_unplaced (kw : Token) (classes : Option (List Node))
    (var body : Option Node) :
    rescueClause kw.unplaced (classes.map (List.map Node.unplaced)) (var.map Node.unplaced)
      (body.map Node.unplaced) = (rescueClause kw classes var body).unplaced := by
  have hclasses : (classes.map (List.map Node.unplaced)).map bareArray =
      (classes.map bareArray).map Node.unplaced := by
    cases classes <;> simp
  simp only [rescueClause, hclasses]
  generalize classes.map bareArray = classes
  simp

theorem rescued?_unplaced (statements rescues : List Node) (otherwise : Option (List Node)) :
    rescued? (statements.map Node.unplaced) (rescues.map Node.unplaced)
      (otherwise.map (List.map Node.unplaced)) =
      (rescued? statements rescues otherwise).map Node.unplaced := by
  unfold rescued?
  rw [ofStatements?_unplaced]
  cases rescues with
  | nil =>
      cases otherwise with
      | none => rfl
      | some more =>
          simp only [List.map_nil, Option.map_some, Option.toList_map, ← List.map_append]
          exact ofStatements?_unplaced _
  | cons first rest =>
      have hslots := slots_unplaced (first :: rest)
      have hjoin := joinAll_unplaced (first :: rest)
      simp only [List.map_cons] at hslots hjoin
      have hotherwise : (otherwise.map (List.map Node.unplaced)).bind ofStatements? =
          (otherwise.bind ofStatements?).map Node.unplaced := by
        cases otherwise with
        | none => rfl
        | some more => exact ofStatements?_unplaced more
      have hstart : (((statements.map Node.unplaced).head?.map Node.span).getD
          first.unplaced.span) = .nowhere := by
        cases statements <;> simp
      simp only [List.map_cons, hotherwise, hstart, hslots, hjoin]
      generalize otherwise.bind ofStatements? = last
      simp

theorem ensured?_unplaced (body : Option Node) (ensure : Option (Token × List Node)) :
    ensured? (body.map Node.unplaced)
      (ensure.map fun e => (e.1.unplaced, e.2.map Node.unplaced)) =
      (ensured? body ensure).map Node.unplaced := by
  cases ensure with
  | none => rfl
  | some e =>
      obtain ⟨kw, last⟩ := e
      have hstart : (((body.map Node.unplaced).map Node.span).getD .nowhere) = .nowhere := by
        cases body <;> simp
      simp only [ensured?, Option.map_some, ofStatements?_unplaced, Token.span_unplaced, hstart]
      simp

theorem bodyStatements_unplaced (statements rescues : List Node)
    (otherwise : Option (List Node)) (ensure : Option (Token × List Node)) :
    bodyStatements (statements.map Node.unplaced) (rescues.map Node.unplaced)
      (otherwise.map (List.map Node.unplaced))
      (ensure.map fun e => (e.1.unplaced, e.2.map Node.unplaced)) =
      (bodyStatements statements rescues otherwise ensure).map Node.unplaced := by
  unfold bodyStatements
  rw [rescued?_unplaced, ensured?_unplaced, Option.toList_map, List.isEmpty_map,
    Option.isNone_map, Option.isNone_map]
  split <;> rfl

theorem keywordBegin_unplaced (kw : Token) (statements : List Node) (closing : Token) :
    keywordBegin kw.unplaced (statements.map Node.unplaced) closing.unplaced =
      (keywordBegin kw statements closing).unplaced := by
  simp [keywordBegin]

theorem parenthesized_unplaced (opening : Token) (statements : List Node) (closing : Token) :
    parenthesized opening.unplaced (statements.map Node.unplaced) closing.unplaced =
      (parenthesized opening statements closing).unplaced := by
  simp [parenthesized]

theorem beforeOrAfter_unplaced (kw : Token) (statements : List Node) (closing : Token) :
    beforeOrAfter kw.unplaced (statements.map Node.unplaced) closing.unplaced =
      (beforeOrAfter kw statements closing).unplaced := by
  simp [beforeOrAfter, ofStatements?_unplaced]

/-! ## §7. Patterns. -/

@[simp] theorem matchVar_unplaced (t : Token) : matchVar t.unplaced = (matchVar t).unplaced :=
  named_unplaced .matchVar t

theorem pin_unplaced (caret : Token) (value : Node) :
    pin caret.unplaced value.unplaced = (pin caret value).unplaced := by
  simp [pin]

theorem matchAlt_unplaced (lhs rhs : Node) :
    matchAlt lhs.unplaced rhs.unplaced = (matchAlt lhs rhs).unplaced :=
  joined_unplaced .matchAlt lhs rhs

theorem matchAs_unplaced (pattern : Node) (name : Token) :
    matchAs pattern.unplaced name.unplaced = (matchAs pattern name).unplaced := by
  rw [matchAs, matchVar_unplaced, joined_unplaced, matchAs]

theorem matchRest_unplaced (star : Token) (name : Option Token) :
    matchRest star.unplaced (name.map Token.unplaced) = (matchRest star name).unplaced := by
  cases name <;> simp [matchRest]

theorem matchNoRest_unplaced (star nil_ : Token) :
    matchNoRest star.unplaced nil_.unplaced = (matchNoRest star nil_).unplaced := by
  simp [matchNoRest]

@[simp] theorem listPatternKind_unplaced (items : List Node) (trailingComma : Bool) :
    listPatternKind (items.map Node.unplaced) trailingComma =
      listPatternKind items trailingComma := by
  simp only [listPatternKind, List.length_map, List.countP_map, List.head?_map,
    List.getLast?_map, Option.any_map, Function.comp_def, kind_unplaced]

theorem listPattern_unplaced (opening : Token) (items : List Node) (trailingComma : Bool)
    (closing : Token) :
    listPattern opening.unplaced (items.map Node.unplaced) trailingComma closing.unplaced =
      (listPattern opening items trailingComma closing).unplaced := by
  simp [listPattern]

theorem topPattern_unplaced (items : List Node) (trailingComma : Bool) :
    topPattern (items.map Node.unplaced) trailingComma =
      (topPattern items trailingComma).unplaced := by
  have hlist := unplaced_mk (listPatternKind items trailingComma) (slots items) (cover items)
  unfold topPattern
  rw [listPatternKind_unplaced, slots_unplaced, cover_unplaced, ← hlist]
  match items with
  | [only] =>
      simp only [List.map_cons, List.map_nil, kind_unplaced]
      split <;> simp
  | [] | _ :: _ :: _ => simp

theorem hashPattern_unplaced (opening : Token) (items : List Node) (closing : Token) :
    hashPattern opening.unplaced (items.map Node.unplaced) closing.unplaced =
      (hashPattern opening items closing).unplaced := by
  simp [hashPattern]

theorem bareHashPattern_unplaced (items : List Node) :
    bareHashPattern (items.map Node.unplaced) = (bareHashPattern items).unplaced := by
  simp [bareHashPattern]

theorem constPattern_unplaced (class_ inner : Node) (closing : Token) :
    constPattern class_.unplaced inner.unplaced closing.unplaced =
      (constPattern class_ inner closing).unplaced := by
  simp [constPattern]

theorem matchPattern_unplaced (v : Version) (value : Node) (op : Token) (pattern : Node) :
    matchPattern v value.unplaced op.unplaced pattern.unplaced =
      (matchPattern v value op pattern).unplaced := by
  simp [matchPattern]

end RubySyntax.Node
