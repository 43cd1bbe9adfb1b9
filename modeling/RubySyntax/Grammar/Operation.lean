/-
  RubySyntax.Grammar.Operation
  ────────────────────────────
  **EXPRESSIONS AND OPERATIONS.**

  From the loosest to the tightest: logical words, one-line pattern matches, commands, the
  conditional operator, ranges, operators by their levels, assignments, operands.
-/
import RubySyntax.Grammar.Separator
import RubySyntax.Grammar.Precedence
import RubySyntax.Node.Build.Control
import RubySyntax.Node.Build.Pattern

namespace RubySyntax.Grammar

open Token Grammar.Expr

/-- A value that a version makes into another one. -/
def withVersion {α β : Type} (f : Version → α → β) (x : Rule α) : Rule β :=
  .check (fun v a => some (f v a)) x

/-- A match of a value with a pattern after an operator. -/
def oneLineMatch (op : Kind) (feature : Version.Feature) : Rule Node :=
  .since feature.since <| withVersion (fun v (value, op, p) => Node.matchPattern v value op p) <|
    (fun value op p => (value, op, p)) <$> argument <*> tok op <*> .call Symbol.topPattern

/-- An expression between logical words. -/
def expressionAtomRule : Rule Node :=
  oneLineMatch .tASSOC .rightwardAssignment <|>
  oneLineMatch .kIN .patternMatching <|>
  commandCall <|>
  argument

/-- The conditional operator over ranges. -/
def ternaryRule : Rule Node :=
  (fun cond yes no => Node.ternary cond yes no) <$> .call Symbol.range <* tok .tEH <* newlines
    <*> .call Symbol.ternary <* newlines <* tok .tCOLON <* newlines <*> .call Symbol.ternary <|>
  .call Symbol.range

/-- Operators, of any level. -/
def operation : Rule Node := .call (Symbol.operation 0)

/-- A range with both bounds or one of them, or an operation. -/
def rangeRule : Rule Node :=
  (fun lhs op rhs => Node.range (some lhs) op (some rhs)) <$> operation <*> .token rangePoints
    <*> operation <|>
  .since Version.Feature.endlessRanges.since
    ((fun lhs op => Node.range (some lhs) op none) <$> operation <*> .token rangePoints) <|>
  .since Version.Feature.beginlessRanges.since
    ((fun op rhs => Node.range none op (some rhs)) <$> .token openPoints <*> operation) <|>
  operation

/-- What can be an argument: the question whether something has a meaning, or a conditional. -/
def argumentRule : Rule Node :=
  (fun kw value => Node.defined kw value none) <$> tok .kDEFINED <* .notNext parens <*> argument <|>
  .call Symbol.ternary

/-- The right side of an assignment: a command or an argument, and perhaps what to take in case
that fails. -/
def assignedRule : Rule Node :=
  (fun value fallback => match fallback with
    | some (kw, fallback) => Node.rescueModifier value kw fallback
    | none => value) <$>
    (commandCall <|> argument) <*> opt (Prod.mk <$> tok .kRESCUE_MOD <*> argument)

/-- An assignment to one target, or a primary expression. -/
def operandRule : Rule Node :=
  filterMap (fun (target, value) => Node.assign? target.node value)
    (Prod.mk <$> primary <* tok .tEQL <*> .call Symbol.assigned) <|>
  filterMap (fun (target, op, value) => Node.operatorAssign? target.node op value)
    ((fun target op value => (target, op, value)) <$> primary <*> tok .tOP_ASGN
      <*> .call Symbol.assigned) <|>
  primaryNode

/-- Operators of at least a level over operands. -/
def operationRule (level : Nat) : Rule Node :=
  climb unaryLevels binaryLevels (.call Symbol.operand) (fun l => .call (Symbol.operation l)) level

/-- Logical words of at least a level over expressions. -/
def expressionRule (level : Nat) : Rule Node :=
  climb negationLevels logicalLevels (.call Symbol.expressionAtom) (fun l => .call (Symbol.expression l)) level

end RubySyntax.Grammar
