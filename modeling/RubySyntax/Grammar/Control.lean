/-
  RubySyntax.Grammar.Control
  ──────────────────────────
  **CONDITIONALS, LOOPS AND DEFINITIONS.**

  The constructs that begin with a keyword and have an end of their own, and statements between
  parentheses.
-/
import RubySyntax.Grammar.Call
import RubySyntax.Grammar.Statement

namespace RubySyntax.Grammar

open Token Grammar.Expr

/-! ## §1. Conditionals. -/

/-- A conditional that begins with `if`. -/
def ifExpression : Rule Node :=
  (fun kw cond yes no closing => Node.conditional kw cond yes no.join closing.span) <$> tok .kIF
    <*> expression <* thenMark <*> block <*> opt (.call Symbol.elseBranch) <*> tok .kEND

/-- The `elsif` or `else` of a conditional. -/
def elseBranchRule : Rule (Option Node) :=
  (fun kw cond yes no => some (Node.elseIf kw cond yes no.join)) <$> tok .kELSIF <*> expression
    <* thenMark <*> block <*> opt (.call Symbol.elseBranch) <|>
  tok .kELSE *> block

/-- A conditional that begins with `unless`. -/
def unlessExpression : Rule Node :=
  (fun kw cond no yes closing => Node.conditional kw cond yes.join no closing.span) <$> tok .kUNLESS
    <*> expression <* thenMark <*> block <*> opt (tok .kELSE *> block) <*> tok .kEND

/-! ## §2. Loops. -/

/-- A loop with a condition. -/
def loopExpression : Rule Node :=
  Node.conditionLoop <$> .token [.kWHILE, .kUNTIL] <*> expression <* doMark <*> block <*> tok .kEND

/-- The variables of a loop over a collection. -/
def loopVariables : Rule Node := targets <|> primaryTarget Node.target?

/-- A loop over a collection. -/
def forExpression : Rule Node :=
  Node.forLoop <$> tok .kFOR <*> loopVariables <* tok .kIN <*> expression <* doMark <*> block
    <*> tok .kEND

/-! ## §3. Choices. -/

/-- The `else` of a choice. -/
def elseClause : Rule Node.ElseClause := Prod.mk <$> tok .kELSE <*> block

/-- A branch for some values. -/
def whenClause : Rule Node :=
  Node.whenClause <$> tok .kWHEN <*> sepBy1 splatOrArgument comma <* thenMark <*> block

/-- A further condition of a pattern. -/
def patternGuard : Rule Node :=
  Node.guard <$> .token [.kIF_MOD, .kUNLESS_MOD] <*> expression

/-- A branch for a pattern. -/
def inClause : Rule Node :=
  Node.inPattern <$> tok .kIN <*> .call Symbol.topPattern <*> opt patternGuard <* thenMark <*> block

/-- A choice by values or conditions, or by patterns. -/
def caseExpression : Rule Node :=
  Node.caseWhen <$> tok .kCASE <*> opt expression <* optTerms <*> plus whenClause
    <*> opt elseClause <*> tok .kEND <|>
  .since Version.Feature.patternMatching.since
    (Node.caseMatch <$> tok .kCASE <*> expression <* optTerms <*> plus inClause <*> opt elseClause
      <*> tok .kEND)

/-! ## §4. Bodies. -/

/-- A variable for a failure. -/
def rescueVariable : Rule Node := tok .tASSOC *> primaryTarget Node.target?

/-- A branch for some classes of failures. -/
def rescueClause : Rule Node :=
  Node.rescueClause <$> tok .kRESCUE <*> opt (sepBy1 splatOrArgument comma) <*> opt rescueVariable
    <* thenMark <*> block

/-- Statements with their `rescue`, `else` and `ensure`. -/
def bodyRule : Rule (List Node) :=
  Node.bodyStatements <$> statements <*> .star rescueClause <*> opt (tok .kELSE *> statements)
    <*> opt (Prod.mk <$> tok .kENSURE <*> statements)

/-- Statements between `begin` and `end`. -/
def beginExpression : Rule Node := Node.keywordBegin <$> tok .kBEGIN <*> body <*> tok .kEND

/-- Statements between parentheses. -/
def parenExpression : Rule Node := Node.parenthesized <$> .token parens <*> statements <*> tok .tRPAREN

/-! ## §5. Definitions. -/

/-- The name of a method that is defined, after an object and a point if it has one. -/
def methodHead : Rule Node.MethodHead :=
  (fun object name => ⟨some (Node.methodReceiver object), name⟩) <$>
    .token [.kSELF, .tIDENTIFIER, .tCONSTANT] <* tok .tDOT <*> .token methodNames <|>
  (fun name => ⟨none, name⟩) <$> .token methodNames

/-- The definition of a method: with an equals sign and one value, or with a body and `end`. -/
def methodDefinition : Rule Node :=
  .since Version.Feature.endlessMethods.since
    ((fun kw head params value =>
        Node.methodDef kw head (params.getD (Node.noParams head.name)) (some value) value.span) <$>
      tok .kDEF <*> methodHead <*> opt parenParams <* tok .tEQL <*> .call Symbol.assigned) <|>
  (fun kw head params body closing =>
      Node.methodDef kw head (params.getD (Node.noParams head.name)) body closing.span) <$>
    tok .kDEF <*> methodHead <*> opt methodParams <*> fullBlock <*> tok .kEND

/-- The name of a class or a module. -/
def constantPath : Rule Node :=
  primaryTarget fun n => if n.kind == .constant then some n else none

/-- The definition of the class of one object, or of a class. -/
def classDefinition : Rule Node :=
  Node.singletonClass <$> tok .kCLASS <* tok .tLSHFT <*> expression <*> fullBlock <*> tok .kEND <|>
  Node.classDef <$> tok .kCLASS <*> constantPath <*> opt (tok .tLT *> expression) <*> fullBlock
    <*> tok .kEND

/-- The definition of a module. -/
def moduleDefinition : Rule Node :=
  Node.moduleDef <$> tok .kMODULE <*> constantPath <*> fullBlock <*> tok .kEND

/-- A construct with an end of its own. -/
def compoundRule : Rule Node :=
  ifExpression <|> unlessExpression <|> loopExpression <|> forExpression <|> caseExpression <|>
  beginExpression <|> methodDefinition <|> classDefinition <|> moduleDefinition <|> parenExpression

end RubySyntax.Grammar
