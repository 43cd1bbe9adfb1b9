/-
  RubySyntax.Grammar.Statement
  ────────────────────────────
  **STATEMENTS AND MULTIPLE ASSIGNMENT.**

  A program is a list of statements between newlines and semicolons.  A statement is an alias, an
  `undef`, a block to run first or last, an assignment to several targets or of several values,
  or an expression; modifiers may follow it.
-/
import RubySyntax.Grammar.Call

namespace RubySyntax.Grammar

open Token Grammar.Expr

/-! ## §1. Targets. -/

/-- Targets between parentheses. -/
def parenTargets : Rule Node :=
  Node.parenTargets <$> .token parens <*> sepBy1 (.call Symbol.targetItem) comma <* opt comma
    <*> tok .tRPAREN

/-- A target for what is left over. -/
def splatTarget : Rule Node := Node.splat <$> .token stars <*> opt (primaryTarget Node.target?)

/-- A target of a multiple assignment. -/
def targetItemRule : Rule Node := parenTargets <|> splatTarget <|> primaryTarget Node.target?

/-- A list of targets: at least one comma, or one target that is a list in itself. -/
def targets : Rule Node :=
  (fun first rest => Node.targets (first :: rest)) <$> .call Symbol.targetItem <* comma
    <*> sepBy (.call Symbol.targetItem) comma <* opt comma <|>
  (fun s => Node.targets [s]) <$> splatTarget <|>
  (fun p => Node.targets [p]) <$> parenTargets

/-! ## §2. Assignments of several values. -/

/-- An assignment to several targets. -/
def multipleAssignment : Rule Node :=
  Node.multipleAssign <$> targets <* tok .tEQL
    <*> (commandCall <|> Node.multipleValues <$> sepBy1 splatOrArgument comma)

/-- An assignment of several values to one target. -/
def severalValues : Rule Node :=
  filterMap (fun (target, items) => Node.assignValues? target.node items)
    (Prod.mk <$> primary <* tok .tEQL <*> sepBy1 splatOrArgument comma)

/-! ## §3. Statements. -/

/-- The name of a method as a symbol. -/
def methodName : Rule Node := Node.symbol <$> .token methodNames

/-- A global variable that can have a second name. -/
def globalVariable : Rule Node := Node.markedVariable <$> .token [.tGVAR, .tBACK_REF, .tNTH_REF]

/-- A statement without modifiers. -/
def plainStatement : Rule Node :=
  Node.aliasDef <$> tok .kALIAS <*> globalVariable <*> globalVariable <|>
  Node.aliasDef <$> tok .kALIAS <*> methodName <*> methodName <|>
  Node.undefNames <$> tok .kUNDEF <*> sepBy1 methodName comma <|>
  Node.beforeOrAfter <$> .token [.klBEGIN, .klEND] <* .token braces <*> statements
    <*> tok .tRCURLY <|>
  multipleAssignment <|>
  severalValues <|>
  expression

/-- A modifier: its keyword and its value. -/
def modifier : Rule (Token × Node) :=
  Prod.mk <$> .token [.kIF_MOD, .kUNLESS_MOD, .kWHILE_MOD, .kUNTIL_MOD, .kRESCUE_MOD] <*> expression

/-- A statement with its modifiers. -/
def statementRule : Rule Node :=
  (fun s mods => mods.foldl (fun body (kw, value) => Node.modified body kw value) s) <$>
    plainStatement <*> .star modifier

/-- Statements between terminators. -/
def statementsRule : Rule (List Node) := optTerms *> sepBy (.call Symbol.statement) terms <* optTerms

end RubySyntax.Grammar
