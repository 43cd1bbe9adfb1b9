/-
  RubySyntax.Node.Shape
  ─────────────────────
  **WHICH SLOTS A TRAVERSAL ENTERS.**

  The kind of a node decides its shape, and the shape decides for each slot whether a traversal
  enters it.  The slot of a parameter list is entered as a parameter list, whatever the node in
  it.  A slot that holds no node is never entered.
-/
import RubySyntax.Node

namespace RubySyntax.Node

/-- The shapes that belong to one construct each. -/
inductive Construct where
  /-- A constant: its scope. -/
  | constReference
  /-- An assignment to a constant: its scope and the value. -/
  | constAssignment
  /-- A class: name, superclass, body. -/
  | classDefinition
  /-- A method: parameters and body. -/
  | methodDefinition
  /-- A method of one object: the object, parameters, body. -/
  | singletonMethodDefinition
  /-- A call: all slots but the name. -/
  | call
  /-- An assignment with an operator: target and value. -/
  | compoundAssignment
  /-- A conditional: condition and both branches. -/
  | conditional
  /-- A loop, a module: two slots. -/
  | loop
  /-- A block: the call, parameters, body. -/
  | block
  /-- A block with numbered parameters: the call and the body. -/
  | numberedBlock
  /-- Branches: all slots. -/
  | branchDispatch
deriving DecidableEq, Repr

/-- The shape of a node. -/
inductive Shape where
  /-- No slot. -/
  | leaf
  /-- The first slot. -/
  | singleOptional
  /-- All slots. -/
  | allChildren
  /-- The second slot; the first is a name. -/
  | secondSlotOnly
  /-- All slots that hold nodes. -/
  | nodeChildren
  /-- By a rule of its own. -/
  | bespoke (construct : Construct)
deriving DecidableEq, Repr

/-- The shape of the nodes of a kind. -/
def Kind.shape : Kind → Shape
  | .trueLit | .falseLit | .nilLit | .int | .float | .complex | .rational | .str | .sym | .regopt
  | .selfRef | .lvar | .ivar | .cvar | .gvar | .nthRef | .backRef | .cbase | .arg | .restarg
  | .blockarg | .shadowarg | .kwrestarg | .zsuper | .redoJump | .retryJump | .forwardArgs
  | .forwardedArgs | .matchVar | .matchNilPattern | .emptyElse | .forwardArg | .lambdaArrow
  | .procarg0 | .encodingKeyword => .leaf
  | .splat | .kwsplat | .blockPass | .notOp | .breakJump | .nextJump | .preexe | .postexe
  | .matchCurrentLine | .defined | .argExpr | .pin | .matchRest | .ifGuard | .unlessGuard
  | .matchWithTrailingComma => .singleOptional
  | .dstr | .dsym | .xstr | .regexp | .array | .hash | .pair | .mlhs | .masgn | .orAsgn | .andAsgn
  | .rasgn | .mrasgn | .undefNames | .aliasDef | .args | .superCall | .yieldCall | .orOp | .andOp
  | .whilePost | .untilPost | .iflipflop | .eflipflop | .matchWithLvasgn | .sequence | .kwbegin
  | .returnJump | .inMatch | .matchAlt | .matchAs | .arrayPattern | .arrayPatternWithTail
  | .hashPattern | .constPattern | .findPattern | .index | .indexasgn => .allChildren
  | .lvasgn | .ivasgn | .cvasgn | .gvasgn | .optarg | .kwarg | .kwoptarg => .secondSlotOnly
  | .constant => .bespoke .constReference
  | .casgn => .bespoke .constAssignment
  | .classDef => .bespoke .classDefinition
  | .methodDef => .bespoke .methodDefinition
  | .defs => .bespoke .singletonMethodDefinition
  | .send | .csend => .bespoke .call
  | .opAsgn => .bespoke .compoundAssignment
  | .ifElse => .bespoke .conditional
  | .whileLoop | .untilLoop | .moduleDef | .sclass => .bespoke .loop
  | .block => .bespoke .block
  | .numblock => .bespoke .numberedBlock
  | .caseWhen | .rescue | .resbody | .ensure | .forLoop | .whenClause | .caseMatch | .inPattern
  | .irange | .erange => .bespoke .branchDispatch
  | .kwnilarg | .forwardedRestarg | .forwardedKwrestarg | .kwargs | .matchPattern
  | .matchPatternP | .fileKeyword | .lineKeyword => .nodeChildren

/-- How a traversal treats a slot. -/
inductive SlotUse where
  /-- It does not enter it. -/
  | skipped
  /-- It enters the node in it by the node's own kind. -/
  | entered
  /-- It enters the node in it as a parameter list. -/
  | parameters
deriving DecidableEq, Repr

/-- The slots among some, entered by their own kind. -/
def SlotUse.among (slots : List Nat) (i : Nat) : SlotUse :=
  if slots.contains i then .entered else .skipped

/-- How a traversal treats the slot at an index, in the shape of one construct. -/
def Construct.slot (c : Construct) (i : Nat) : SlotUse :=
  match c with
  | .constReference => .among [0] i
  | .constAssignment => .among [0, 2] i
  | .classDefinition | .conditional => .among [0, 1, 2] i
  | .methodDefinition => if i == 1 then .parameters else .among [2] i
  | .singletonMethodDefinition => if i == 2 then .parameters else .among [0, 3] i
  | .call => if i == 1 then .skipped else .entered
  | .compoundAssignment | .numberedBlock => .among [0, 2] i
  | .loop => .among [0, 1] i
  | .block => if i == 1 then .parameters else .among [0, 2] i
  | .branchDispatch => .entered

/-- How a traversal treats the slot at an index. -/
def Shape.slot (s : Shape) (i : Nat) : SlotUse :=
  match s with
  | .leaf => .skipped
  | .singleOptional => .among [0] i
  | .secondSlotOnly => .among [1] i
  | .allChildren | .nodeChildren => .entered
  | .bespoke construct => construct.slot i

/-- Whether no slot is ever entered. -/
def Shape.isLeaf (s : Shape) : Bool := s == .leaf

end RubySyntax.Node
