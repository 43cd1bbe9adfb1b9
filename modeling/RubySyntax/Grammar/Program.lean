/-
  RubySyntax.Grammar.Program
  ──────────────────────────
  **THE GRAMMAR OF THE LANGUAGE.**

  `language` gives each symbol its expression, and `program` reads all tokens as statements.
-/
import RubySyntax.Grammar.Matcher
import RubySyntax.Grammar.Literal
import RubySyntax.Grammar.Control
import RubySyntax.Grammar.Pattern

namespace RubySyntax.Grammar

open Token Grammar.Expr

/-- The expression of a symbol. -/
def rule : (s : Symbol) → Rule s.Result
  | .statements => statementsRule
  | .statement => statementRule
  | .expression level => expressionRule level
  | .expressionAtom => expressionAtomRule
  | .commandCall => commandCallRule
  | .command => commandRule
  | .argument => argumentRule
  | .ternary => ternaryRule
  | .range => rangeRule
  | .operation level => operationRule level
  | .operand => operandRule
  | .assigned => assignedRule
  | .callArgument => callArgumentRule
  | .primary => primaryRule
  | .suffix => suffixRule
  | .atom => atomRule
  | .literal => literalRule
  | .compound => compoundRule
  | .elseBranch => elseBranchRule
  | .body => bodyRule
  | .targetItem => targetItemRule
  | .param ofBlock => paramRule ofBlock
  | .topPattern => topPatternRule
  | .pattern => patternRule
  | .keyPattern => keyPatternRule

/-- The grammar. -/
@[reducible]
def language : Rules where
  Symbol := Symbol
  Result := Symbol.Result
  rule := rule
  keeps := Symbol.keeps
  depth := Symbol.depth

/-- A whole program: its statements as one node, if there are some. -/
def program : Rule (Option Node) := block <* .finish

/-- The tree of some tokens before names are resolved, if there are statements, or the index of
the token at which they stop making sense. -/
def readProgram (tokens : List Token) (version : Version) : Except Nat (Option Node) :=
  language.parse program tokens.toArray version

end RubySyntax.Grammar
