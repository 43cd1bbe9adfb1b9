/-
  RubySyntax.Node.Build.Call
  ──────────────────────────
  **COLLECTIONS, CALLS AND BLOCKS.**

  The arguments of a call keep their order, except that all pairs form one hash in the place of
  the first of them and the block comes last.  A primary expression grows by calls, indices and
  blocks on its right; while it ends in a name it is open and can take arguments without
  parentheses.
-/
import RubySyntax.Node.Build.Literal
import RubySyntax.Version

namespace RubySyntax.Node

/-! ## §1. Arguments and collections. -/

/-- An element of an argument list. -/
inductive Argument where
  | positional (n : Node)
  /-- A key and its value, or a spliced hash. -/
  | pair (n : Node)
  | blockPass (n : Node)

namespace Argument

/-- The node of a positional argument. -/
def positional? : Argument → Option Node
  | .positional n => some n
  | _ => none

/-- The node of a pair. -/
def pair? : Argument → Option Node
  | .pair n => some n
  | _ => none

/-- The node of a block that is passed on. -/
def blockPass? : Argument → Option Node
  | .blockPass n => some n
  | _ => none

end Argument

/-- The nodes of an argument list, its pairs grouped into one node of a kind. -/
def groupPairs (kind : Kind) (items : List Argument) : List Node :=
  let pairs := items.filterMap (·.pair?)
  let before := items.takeWhile (·.pair?.isNone)
  let after := items.dropWhile (·.pair?.isNone)
  let grouped := if pairs.isEmpty then [] else [Node.mk kind (slots pairs) (cover pairs)]
  before.filterMap (·.positional?) ++ grouped ++ after.filterMap (·.positional?) ++
    (items.filterMap (·.blockPass?)).getLast?.toList

/-- The nodes of the arguments of a call. -/
def arguments (items : List Argument) : List Node := groupPairs .kwargs items

/-- Arguments that there are have nodes. -/
theorem arguments_ne_nil {items : List Argument} (h : items ≠ []) : arguments items ≠ [] := by
  cases items with
  | nil => exact absurd rfl h
  | cons a items =>
      cases a with
      | positional n => simp [arguments, groupPairs, Argument.positional?, Argument.pair?]
      | pair n => simp [arguments, groupPairs, Argument.pair?]
      | blockPass n => simp [arguments, groupPairs, Argument.blockPass?]

/-- An array between brackets. -/
def array (opening : Token) (items : List Argument) (closing : Token) : Node :=
  .mk .array (slots (groupPairs .hash items)) (opening.span.join closing.span)

/-- An array without brackets. -/
def bareArray (items : List Node) : Node := .mk .array (slots items) (cover items)

/-- A hash between braces. -/
def hash (opening : Token) (pairs : List Node) (closing : Token) : Node :=
  .mk .hash (slots pairs) (opening.span.join closing.span)

/-- A key and its value. -/
def pair (key value : Node) : Node :=
  .mk .pair [.node key, .node value] (key.span.join value.span)

/-- A label and its value. -/
def labelled (label : Token) (value : Node) : Node := pair (symbol label) value

/-- A label whose value is what has the same name. -/
def labelAlone (label : Token) : Node :=
  .mk .pair [.node (symbol label), .node (identifier label)] label.span

/-- A hash spliced into another. -/
def doubleSplat (op : Token) (value : Node) : Node :=
  .mk .kwsplat [.node value] (op.span.join value.span)

/-- A list spliced into another; without a value it takes what is left over. -/
def splat (op : Token) (value : Option Node) : Node :=
  .mk .splat (slots value.toList) (joinOption op.span value)

/-- A block passed on. -/
def blockPass (op : Token) (value : Option Node) : Node :=
  .mk .blockPass [.ofOption value] (joinOption op.span value)

/-! ## §2. Calls. -/

/-- A call of a method by its name, on a receiver or on none.  The point that leads to the name
may be the one that skips the call on `nil`. -/
def call (receiver : Option Node) (dot : Option Token) (name : String) (selector : Span)
    (args : List Node) (closing : Option Span) : Node :=
  let kind := if dot.any fun d => d.kind == .tANDDOT then .csend else .send
  let span := joinAll (joinOption selector receiver) args
  .mk kind (.ofOption receiver :: .symbol name :: slots args)
    (match closing with
      | some closing => span.join closing
      | none => span)

/-- A call without a receiver, with arguments between parentheses. -/
def functionCall (name : Token) (args : List Argument) (closing : Token) : Node :=
  call none none name.value name.span (arguments args) (some closing.span)

/-- A call without receiver and arguments. -/
def nameCall (name : Token) : Node := call none none name.value name.span [] none

/-- An access by an index between brackets. -/
def index (receiver : Node) (args : List Argument) (closing : Token) : Node :=
  .mk .index (.node receiver :: slots (arguments args)) (receiver.span.join closing.span)

/-- The arguments between parentheses, and the closing one. -/
abbrev ParenArguments := List Argument × Token

/-- A call of a method of the parent class. -/
def superCall (kw : Token) (items : List Argument) (closing : Token) : Node :=
  .mk .superCall (slots (arguments items)) (kw.span.join closing.span)

/-- A call of the block of the method. -/
def yieldCall (kw : Token) (items : List Argument) (closing : Token) : Node :=
  .mk .yieldCall (slots (arguments items)) (kw.span.join closing.span)

/-- A jump out of a method or a loop, with what it returns. -/
def jump (kw : Token) (items : List Argument) : Node :=
  let kind := match kw.kind with
    | .kBREAK => .breakJump
    | .kNEXT => .nextJump
    | _ => .returnJump
  .mk kind (slots (arguments items)) (joinAll kw.span (arguments items))

/-- The question whether an expression has a meaning. -/
def defined (kw : Token) (value : Node) (closing : Option Token) : Node :=
  let span := kw.span.join value.span
  .mk .defined [.node value]
    (match closing with
      | some closing => span.join closing.span
      | none => span)

/-- An operator before its operand, as a call of the method that it stands for. -/
def unary (op : Token) (operand : Node) (method : String) : Node :=
  .mk .send [.node operand, .symbol method] (op.span.join operand.span)

/-- An operator between two operands, as a call.  A match with a regular expression that names
groups binds variables and is a kind of its own. -/
def binary (lhs : Node) (op : Token) (rhs : Node) : Node :=
  if op.kind == .tMATCH && lhs.kind == .regexp && !lhs.namedCaptures.isEmpty then
    .mk .matchWithLvasgn [.node lhs, .node rhs] (lhs.span.join rhs.span)
  else call (some lhs) none op.value op.span [rhs] none

/-- Two operands joined by a kind of node. -/
def joined (kind : Kind) (lhs rhs : Node) : Node :=
  .mk kind [.node lhs, .node rhs] (lhs.span.join rhs.span)

/-- A range; either bound may be missing. -/
def range (lhs : Option Node) (op : Token) (rhs : Option Node) : Node :=
  let kind := if op.kind == .tDOT3 || op.kind == .tBDOT3 then .erange else .irange
  .mk kind [.ofOption lhs, .ofOption rhs] (joinOption (joinOption op.span lhs) rhs)

/-! ## §3. Numbered parameters. -/

/-- The number of an implicit block parameter, zero for any other name. -/
def parameterNumber (name : String) : Nat :=
  match name.toList with
  | ['_', c] => if Text.isDigit c then c.toNat - '0'.toNat else 0
  | _ => 0

mutual

/-- The greatest implicit parameter that a tree uses.  The bodies of blocks in it and whole
definitions do not count. -/
def greatestParameter : Node → Nat
  | .mk kind children _ =>
    match kind with
    | .lvar => match children with
      | .symbol name :: _ => parameterNumber name
      | _ => 0
    | .block | .numblock => firstGreatest children
    | .methodDef | .defs | .classDef | .moduleDef | .sclass => 0
    | _ => slotsGreatest children

/-- The greatest implicit parameter in the first of some slots. -/
def firstGreatest : List Child → Nat
  | [] => 0
  | c :: _ => slotGreatest c

/-- The greatest implicit parameter in some slots. -/
def slotsGreatest : List Child → Nat
  | [] => 0
  | c :: rest => max (slotGreatest c) (slotsGreatest rest)

/-- The greatest implicit parameter in a slot. -/
def slotGreatest : Child → Nat
  | .node n => greatestParameter n
  | _ => 0

end

/-! ## §4. Blocks. -/

/-- A block before it is attached to a call. -/
structure BlockParts where
  opening : Token
  /-- The parameter list, if one is written. -/
  params : Option Node
  body : Option Node
  closing : Token

/-- A call with its block.  Without a parameter list a block whose body uses implicit parameters
has as many as the greatest of them; otherwise its list is empty. -/
def withBlock (v : Version) (callee : Node) (parts : BlockParts) : Node :=
  let span := callee.span.join parts.closing.span
  let count := ((parts.body.map greatestParameter).getD 0)
  match parts.params with
  | some params => .mk .block [.node callee, .node params, .ofOption parts.body] span
  | none =>
    if v.supports .numberedParameters && count > 0 then
      .mk .numblock [.node callee, .integer count, .ofOption parts.body] span
    else
      let params := Node.mk .args [] parts.opening.span.atEnd
      .mk .block [.node callee, .node params, .ofOption parts.body] span

/-- The call that can take a block: a call that passes no block on, or a bare name. -/
def blockCallee? (n : Node) : Option Node :=
  let passesBlock := (n.lastChild?.bind Child.node?).any fun last => last.kind == .blockPass
  match n.kind with
  | .lvar => if passesBlock then none else some (.mk .send (.absent :: n.children) n.span)
  | .send | .csend | .superCall | .zsuper => if passesBlock then none else some n
  | _ => none

/-- A block attached to an expression, if that can take one. -/
def attachBlock? (v : Version) (n : Node) (parts : BlockParts) : Option Node :=
  (blockCallee? n).map fun callee => withBlock v callee parts

/-- A lambda: an arrow, parameters and a body. -/
def lambda (v : Version) (arrow : Token) (params : Option Node) (parts : BlockParts) : Node :=
  withBlock v (bare .lambdaArrow arrow) { parts with params := params.or parts.params }

/-! ## §5. Primary expressions. -/

/-- A primary expression. -/
structure Chain where
  node : Node
  /-- Whether it ends in a name that can take arguments without parentheses. -/
  isOpen : Bool

namespace Chain

/-- A primary expression that can. -/
def opened (n : Node) : Chain := ⟨n, true⟩

/-- A primary expression that cannot. -/
def closed (n : Node) : Chain := ⟨n, false⟩

end Chain

/-- What can follow a primary expression. -/
inductive Suffix where
  /-- A method by its name, with or without parentheses. -/
  | method (dot name : Token) (args : Option ParenArguments)
  /-- The method `call`, whose name is left out. -/
  | unnamed (dot : Token) (args : ParenArguments)
  /-- A constant in a scope. -/
  | constant (name : Token)
  /-- An index between brackets. -/
  | index (args : List Argument) (closing : Token)
  /-- A block between braces. -/
  | block (parts : BlockParts)

/-- A primary expression with one more thing on its right. -/
def applySuffix? (v : Version) (receiver : Chain) : Suffix → Option Chain
  | .method dot name none =>
    some (.opened (call (some receiver.node) (some dot) name.value name.span [] none))
  | .method dot name (some (items, closing)) =>
    some (.closed
      (call (some receiver.node) (some dot) name.value name.span (arguments items)
        (some closing.span)))
  | .unnamed dot (items, closing) =>
    some (.closed
      (call (some receiver.node) (some dot) "call" dot.span (arguments items) (some closing.span)))
  | .constant name => some (.opened (Node.constant (some receiver.node) name))
  | .index args closing => some (.closed (Node.index receiver.node args closing))
  | .block parts => (attachBlock? v receiver.node parts).map .closed

/-- A primary expression with all that follows it. -/
def applySuffixes? (v : Version) (first : Chain) (ops : List Suffix) : Option Chain :=
  ops.foldlM (applySuffix? v) first

/-- A call of the method of the parent class, with the arguments given or with those of the
method. -/
def superChain (kw : Token) : Option ParenArguments → Chain
  | none => .opened (bare .zsuper kw)
  | some (items, closing) => .closed (superCall kw items closing)

/-- A call of the block of the method. -/
def yieldChain (kw : Token) : Option ParenArguments → Chain
  | none => .opened (bare .yieldCall kw)
  | some (items, closing) => .closed (yieldCall kw items closing)

/-- The call that an open primary expression makes with arguments. -/
def command? (c : Chain) (items : List Argument) : Option Node :=
  let args := arguments items
  let span := joinAll c.node.span args
  let children := c.node.children
  if !c.isOpen then none
  else match c.node.kind with
    | .lvar => some (.mk .send (.absent :: children.getLastD .absent :: slots args) span)
    | .send | .constant => some (.mk .send (children ++ slots args) span)
    | .csend => some (.mk .csend (children ++ slots args) span)
    | .zsuper => some (.mk .superCall (slots args) span)
    | .yieldCall => if children.isEmpty then some (.mk .yieldCall (slots args) span) else none
    | _ => none

end RubySyntax.Node
