/-
  RubySyntax.Grammar.Symbol
  ─────────────────────────
  **THE SYMBOLS OF THE LANGUAGE.**

  A symbol names a part of the syntax that other parts refer to, and each has a type of value.
  Three symbols are read again and again at one position by the alternatives of the symbols
  above them: commands, arguments and primary expressions.
-/
import RubySyntax.Grammar.Expr
import RubySyntax.Node.Build.Call

namespace RubySyntax.Grammar

/-- A part of the syntax. -/
inductive Symbol where
  /-- Statements between terminators. -/
  | statements
  /-- A statement with its modifiers. -/
  | statement
  /-- Logical words over expressions; those that bind at least as tightly as a level. -/
  | expression (level : Nat)
  /-- An expression between logical words. -/
  | expressionAtom
  /-- A command, perhaps with a `do` block. -/
  | commandCall
  /-- A call with arguments but without parentheses. -/
  | command
  /-- What can be an argument. -/
  | argument
  /-- A conditional operator, or what binds more tightly. -/
  | ternary
  /-- A range, or what binds more tightly. -/
  | range
  /-- Operators over operands; those that bind at least as tightly as a level. -/
  | operation (level : Nat)
  /-- An operand, or an assignment to it. -/
  | operand
  /-- The right side of an assignment to one target. -/
  | assigned
  /-- An element of an argument list. -/
  | callArgument
  /-- A primary expression with all that follows it. -/
  | primary
  /-- What follows a primary expression. -/
  | suffix
  /-- A primary expression alone. -/
  | atom
  /-- A literal. -/
  | literal
  /-- A construct with an end of its own. -/
  | compound
  /-- The `elsif` or `else` of a conditional. -/
  | elseBranch
  /-- Statements with their `rescue`, `else` and `ensure`. -/
  | body
  /-- A target of a multiple assignment. -/
  | targetItem
  /-- A parameter, of a block or of a method. -/
  | param (ofBlock : Bool)
  /-- Patterns without brackets. -/
  | topPattern
  /-- A pattern. -/
  | pattern
  /-- A pattern by a key. -/
  | keyPattern
deriving DecidableEq, Repr

namespace Symbol

/-- The type of the value of a symbol. -/
@[reducible]
def Result : Symbol → Type
  | .statements | .body => List Node
  | .elseBranch => Option Node
  | .callArgument => Node.Argument
  | .primary | .atom => Node.Chain
  | .suffix => Node.Suffix
  | _ => Node

/-- Whether what the symbol gave at a position is kept. -/
def keeps : Symbol → Bool
  | .command | .argument | .primary => true
  | _ => false

/-- More than the greatest number of symbols that call each other before a token is read. -/
def depth : Nat := 32

end Symbol

/-- An expression over the symbols of the language. -/
abbrev Rule (α : Type) := Expr Symbol Symbol.Result α

end RubySyntax.Grammar
