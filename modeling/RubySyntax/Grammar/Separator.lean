/-
  RubySyntax.Grammar.Separator
  ────────────────────────────
  **SEPARATORS AND SETS OF TOKENS.**

  The token sets and small expressions that many parts of the grammar share: the brackets in
  their several kinds, newlines and semicolons between statements, the words `then` and `do`
  after a header, the names of methods, and short forms for the symbols.
-/
import RubySyntax.Grammar.Symbol

namespace RubySyntax.Grammar

open Token Grammar.Expr

/-! ## §1. Sets of kinds. -/

/-- The opening parentheses. -/
def parens : List Kind := [.tLPAREN, .tLPAREN2, .tLPAREN_ARG]

/-- The opening square brackets. -/
def squares : List Kind := [.tLBRACK, .tLBRACK2]

/-- The opening braces of hashes and blocks. -/
def braces : List Kind := [.tLBRACE, .tLCURLY]

/-- The stars before a spliced list or an open rest. -/
def stars : List Kind := [.tSTAR, .tSTAR2]

/-- The marks of a block parameter. -/
def ampersands : List Kind := [.tAMPER, .tAMPER2]

/-- The points of a range after its lower bound. -/
def rangePoints : List Kind := [.tDOT2, .tDOT3]

/-- The points of a range without a lower bound. -/
def openPoints : List Kind := [.tBDOT2, .tBDOT3]

/-- The jumps that can carry a value. -/
def jumps : List Kind := [.kRETURN, .kBREAK, .kNEXT]

/-- The operators that name methods, in the kinds that they have as names. -/
def operatorNames : List Kind := [
  .tASET, .tAREF, .tCMP, .tEQQ, .tEQ, .tMATCH, .tNEQ, .tNMATCH, .tPOW, .tUPLUS, .tUMINUS, .tLEQ,
  .tGEQ, .tLSHFT, .tRSHFT, .tBANG, .tTILDE, .tPLUS, .tMINUS, .tSTAR2, .tDIVIDE, .tPERCENT, .tLT,
  .tGT, .tAMPER2, .tPIPE, .tCARET]

/-- What can name a method: a name, a symbol, an operator, a keyword. -/
def methodNames : List Kind :=
  [.tIDENTIFIER, .tFID, .tCONSTANT, .tSYMBOL] ++ operatorNames ++ Kind.all.filter Kind.isKeyword

/-! ## §2. Separators. -/

/-- A comma. -/
def comma : Rule Token := tok .tCOMMA

/-- A newline or a semicolon. -/
def term : Rule Token := tok .tNL <|> tok .tSEMI

/-- Newlines and semicolons, at least one. -/
def terms : Rule (List Token) := plus term

/-- Newlines and semicolons, if there are some. -/
def optTerms : Rule (List Token) := .star term

/-- Newlines, if there are some. -/
def newlines : Rule (List Token) := .star (tok .tNL)

/-- What separates a condition from its branch: the word `then`, or terminators and perhaps that
word. -/
def thenMark : Rule Unit :=
  (fun _ => ()) <$> tok .kTHEN <|> (fun _ _ => ()) <$> terms <*> opt (tok .kTHEN)

/-- What separates the header of a loop from its body: the word `do`, or terminators. -/
def doMark : Rule Unit := (fun _ => ()) <$> tok .kDO_COND <|> (fun _ => ()) <$> terms

/-- A comma and any newlines after it. -/
def commaLine : Rule Unit := (fun _ _ => ()) <$> comma <*> newlines

/-! ## §3. Symbols. -/

/-- Statements between terminators. -/
def statements : Rule (List Node) := .call Symbol.statements

/-- Any expression. -/
def expression : Rule Node := .call (Symbol.expression 0)

/-- What can be an argument. -/
def argument : Rule Node := .call Symbol.argument

/-- A primary expression. -/
def primary : Rule Node.Chain := .call Symbol.primary

/-- A primary expression as its node. -/
def primaryNode : Rule Node := Node.Chain.node <$> primary

/-- A primary expression that is a target of an assignment. -/
def primaryTarget (target? : Node → Option Node) : Rule Node :=
  filterMap (fun c => target? c.node) primary

/-- Statements with their `rescue`, `else` and `ensure`. -/
def body : Rule (List Node) := .call Symbol.body

/-- A command, perhaps with a `do` block. -/
def commandCall : Rule Node := .call Symbol.commandCall

/-- The body of a construct: the statements as one node, if there are some. -/
def block : Rule (Option Node) := Node.ofStatements? <$> statements

/-- A body with its `rescue`, `else` and `ensure`, as one node. -/
def fullBlock : Rule (Option Node) := Node.ofStatements? <$> body

/-- A spliced list, or what can be an argument. -/
def splatOrArgument : Rule Node :=
  (fun op value => Node.splat op (some value)) <$> .token stars <*> argument <|> argument

end RubySyntax.Grammar
