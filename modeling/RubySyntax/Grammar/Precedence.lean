/-
  RubySyntax.Grammar.Precedence
  ─────────────────────────────
  **OPERATORS AND THEIR LEVELS.**

  The binary operators stand in a table from the loosest level to the tightest.  An operator to
  the left of its level takes a right operand of a tighter level, the power operator one of its
  own.  A unary operator binds an operand of its level or a tighter one; the minus binds less
  tightly than a power, the others more.
-/
import RubySyntax.Grammar.Symbol

namespace RubySyntax.Grammar

open Token

/-- How operators of one level group. -/
inductive Grouping where
  | left | right
deriving DecidableEq, Repr

/-- The binary operators of one level. -/
structure BinaryLevel where
  /-- The place of the level; larger binds more tightly. -/
  level : Nat
  kinds : List Kind
  grouping : Grouping
  /-- The node of an operation. -/
  combine : Node → Token → Node → Node

/-- The least level that the right operand may have. -/
def BinaryLevel.rightLevel (b : BinaryLevel) : Nat :=
  match b.grouping with
  | .left => b.level + 1
  | .right => b.level

/-- The unary operators of one level. -/
structure UnaryLevel where
  level : Nat
  kinds : List Kind
  /-- The name of the method that the operator calls. -/
  method : String

/-- The operators between operands. -/
def binaryLevels : List BinaryLevel := [
  ⟨0, [.tOROP], .left, fun x _ y => Node.joined .orOp x y⟩,
  ⟨1, [.tANDOP], .left, fun x _ y => Node.joined .andOp x y⟩,
  ⟨2, [.tCMP, .tEQ, .tEQQ, .tNEQ, .tMATCH, .tNMATCH], .left, Node.binary⟩,
  ⟨3, [.tGT, .tGEQ, .tLT, .tLEQ], .left, Node.binary⟩,
  ⟨4, [.tPIPE, .tCARET], .left, Node.binary⟩,
  ⟨5, [.tAMPER2], .left, Node.binary⟩,
  ⟨6, [.tLSHFT, .tRSHFT], .left, Node.binary⟩,
  ⟨7, [.tPLUS, .tMINUS], .left, Node.binary⟩,
  ⟨8, [.tSTAR2, .tDIVIDE, .tPERCENT], .left, Node.binary⟩,
  ⟨10, [.tPOW], .right, Node.binary⟩]

/-- The operators before operands. -/
def unaryLevels : List UnaryLevel := [
  ⟨9, [.tUMINUS, .tUMINUS_NUM], "-@"⟩,
  ⟨11, [.tBANG], "!"⟩,
  ⟨11, [.tTILDE], "~"⟩,
  ⟨11, [.tUPLUS], "+@"⟩]

/-- The logical words between expressions. -/
def logicalLevels : List BinaryLevel := [
  ⟨0, [.kAND, .kOR], .left,
    fun x op y => Node.joined (if op.kind == .kAND then .andOp else .orOp) x y⟩]

/-- The logical words before expressions. -/
def negationLevels : List UnaryLevel := [⟨1, [.kNOT], "!"⟩]

/-- An operator and its right operand, as what they do to the left operand. -/
def BinaryLevel.tail (b : BinaryLevel) (operand : Nat → Rule Node) : Rule (Node → Node) :=
  (fun op rhs lhs => b.combine lhs op rhs) <$> .token b.kinds <*> operand b.rightLevel

/-- An operator before its operand. -/
def UnaryLevel.head (u : UnaryLevel) (operand : Nat → Rule Node) : Rule Node :=
  (fun op x => Node.unary op x u.method) <$> .token u.kinds <*> operand u.level

/-- An operation with operators of at least a level: an operand, then operators and operands as
long as there are some.  Unary operators are read at any level. -/
def climb (unary : List UnaryLevel) (binary : List BinaryLevel) (atom : Rule Node)
    (operand : Nat → Rule Node) (level : Nat) : Rule Node :=
  let heads := unary.map (·.head operand)
  let tails := (binary.filter (level ≤ ·.level)).map (·.tail operand)
  let first := Expr.firstOf heads atom
  match tails with
  | [] => first
  | tail :: tails =>
    (fun x fs => fs.foldl (fun x f => f x) x) <$> first <*>
      .star (tails.foldl Expr.orElse tail)

end RubySyntax.Grammar
