/-
  RubySyntax.Grammar.Call
  ───────────────────────
  **CALLS, ARGUMENTS AND BLOCKS.**

  A command is a call whose arguments have no parentheses.  A `do` block after a command belongs
  to the command, a block between braces to the name right before it.
-/
import RubySyntax.Grammar.Separator
import RubySyntax.Grammar.Operation
import RubySyntax.Node.Build.Definition

namespace RubySyntax.Grammar

open Token Grammar.Expr

/-! ## §1. Parameters. -/

/-- A name, if there is one. -/
def optName : Rule (Option Token) := opt (tok .tIDENTIFIER)

/-- The default of a parameter.  That of a block parameter is a primary expression, so that no
bar can be taken for an operator. -/
def defaultValue (ofBlock : Bool) : Rule Node :=
  filterMap (fun value => if ofBlock then none else some value) argument <|> primaryNode

/-- A parameter. -/
def paramRule (ofBlock : Bool) : Rule Node :=
  firstOf [
    .since Version.Feature.argumentForwarding.since (Node.bare .forwardArg <$> tok .tBDOT3),
    (fun label value => Node.param .kwoptarg label (some label) (some value)) <$> tok .tLABEL
      <*> defaultValue ofBlock,
    (fun label => Node.param .kwarg label (some label) none) <$> tok .tLABEL,
    Node.noKeywords <$> tok .tDSTAR <*> tok .kNIL,
    (fun op name => Node.param .kwrestarg op name none) <$> tok .tDSTAR <*> optName,
    (fun op name => Node.param .restarg op name none) <$> .token stars <*> optName,
    (fun op name => Node.param .blockarg op name none) <$> .token ampersands <*> optName,
    (fun name value => Node.param .optarg name (some name) (some value)) <$> tok .tIDENTIFIER
      <* tok .tEQL <*> defaultValue ofBlock,
    (fun name => Node.param .arg name (some name) none) <$> tok .tIDENTIFIER] <|
  Node.parenTargets <$> .token parens <*> sepBy1 (.call (Symbol.param ofBlock)) comma <*> tok .tRPAREN

/-- A parameter list between parentheses. -/
def parenParams : Rule Node :=
  Node.parenParams <$> .token parens <*> sepBy (.call (Symbol.param false)) comma <*> tok .tRPAREN

/-- A parameter list with or without parentheses. -/
def methodParams : Rule Node :=
  parenParams <|> Node.bareParams <$> sepBy1 (.call (Symbol.param false)) comma

/-! ## §2. Blocks. -/

/-- The names that belong to a block alone, after a semicolon. -/
def ownNames : Rule (List Node) :=
  tok .tSEMI *>
    sepBy1 ((fun n => Node.param .shadowarg n (some n) none) <$> tok .tIDENTIFIER) comma

/-- The parameters of a block between bars. -/
def blockParams : Rule Node :=
  (fun bars => Node.blockParams bars [] false [] bars) <$> tok .tOROP <|>
  (fun opening params trailing own closing =>
      Node.blockParams opening params trailing (own.getD []) closing) <$>
    tok .tPIPE <*> sepBy (.call (Symbol.param true)) comma <*> present comma <*> opt ownNames
    <*> tok .tPIPE

/-- A block between braces. -/
def braceBlock : Rule Node.BlockParts :=
  Node.BlockParts.mk <$> tok .tLCURLY <*> opt blockParams <*> block <*> tok .tRCURLY

/-- A block between `do` and `end`. -/
def doBlock : Rule Node.BlockParts :=
  Node.BlockParts.mk <$> tok .kDO <*> opt blockParams <*> fullBlock <*> tok .kEND

/-- The body of a lambda. -/
def lambdaBody : Rule Node.BlockParts :=
  (fun opening body closing => Node.BlockParts.mk opening none body closing) <$> tok .tLAMBEG
    <*> block <*> tok .tRCURLY <|>
  (fun opening body closing => Node.BlockParts.mk opening none body closing) <$> tok .kDO_LAMBDA
    <*> fullBlock <*> tok .kEND

/-- A lambda. -/
def lambda : Rule Node :=
  withVersion (fun v (arrow, params, body) => Node.lambda v arrow params body) <|
    (fun arrow params body => (arrow, params, body)) <$> tok .tLAMBDA <*> opt methodParams
      <*> lambdaBody

/-! ## §3. Arguments. -/

/-- An element of an argument list. -/
def callArgumentRule : Rule Node.Argument :=
  firstOf [
    .since Version.Feature.argumentForwarding.since
      ((fun dots => .positional (Node.bare .forwardedArgs dots)) <$> tok .tBDOT3
        <* .next [.tRPAREN]),
    (fun op value => .blockPass (Node.blockPass op (some value))) <$> tok .tAMPER <*> argument,
    .since Version.Feature.anonymousBlock.since
      ((fun op => .blockPass (Node.blockPass op none)) <$> tok .tAMPER),
    (fun op value => .pair (Node.doubleSplat op value)) <$> tok .tDSTAR <*> argument,
    .since ⟨3, 2⟩ ((fun op => .pair (Node.bare .forwardedKwrestarg op)) <$> tok .tDSTAR),
    (fun op value => .positional (Node.splat op (some value))) <$> tok .tSTAR <*> argument,
    .since ⟨3, 2⟩ ((fun op => .positional (Node.bare .forwardedRestarg op)) <$> tok .tSTAR),
    (fun label value => .pair (Node.labelled label value)) <$> tok .tLABEL <* newlines
      <*> argument,
    .since ⟨3, 1⟩ ((fun label => .pair (Node.labelAlone label)) <$> tok .tLABEL),
    (fun key value => .pair (Node.pair key value)) <$> argument <* tok .tASSOC <*> argument,
    .positional <$> .call Symbol.command] <|
  .positional <$> argument

/-- The elements of an argument list, with a comma at the end if one is written. -/
def argumentList : Rule (List Node.Argument) := sepBy (.call Symbol.callArgument) comma <* opt comma

/-- An argument list between parentheses that follow a name. -/
def parenArguments : Rule Node.ParenArguments :=
  Prod.mk <$> (tok .tLPAREN2 *> argumentList) <*> tok .tRPAREN

/-- The arguments of a command. -/
def commandArguments : Rule (List Node.Argument) := sepBy1 (.call Symbol.callArgument) comma

/-! ## §4. Commands. -/

/-- A jump or a call with arguments but without parentheses. -/
def commandRule : Rule Node :=
  Node.jump <$> .token jumps <*> commandArguments <|>
  filterMap (fun (c, items) => Node.command? c items)
    (Prod.mk <$> filterMap (fun c => if c.isOpen then some c else none) primary
      <*> commandArguments)

/-- A command, perhaps with a `do` block, or an argument with such a block. -/
def commandCallRule : Rule Node :=
  .check (fun v (c, parts) => match parts with
      | some parts => Node.attachBlock? v c parts
      | none => some c)
    (Prod.mk <$> .call Symbol.command <*> opt doBlock) <|>
  .check (fun v (a, parts) => Node.attachBlock? v a parts) (Prod.mk <$> argument <*> doBlock)

/-! ## §5. Primary expressions. -/

/-- What follows a primary expression. -/
def suffixRule : Rule Node.Suffix :=
  firstOf [
    .method <$> .token [.tDOT, .tANDDOT] <*> .token methodNames <*> opt parenArguments,
    .unnamed <$> .token [.tDOT, .tANDDOT] <*> parenArguments,
    .constant <$> (tok .tCOLON2 *> tok .tCONSTANT) <* .notNext [.tLPAREN2],
    .method <$> tok .tCOLON2 <*> .token methodNames <*> opt parenArguments,
    .index <$> (tok .tLBRACK2 *> argumentList) <*> tok .tRBRACK] <|
  .block <$> braceBlock

/-- A primary expression with all that follows it. -/
def primaryRule : Rule Node.Chain :=
  .check (fun v (first, ops) => Node.applySuffixes? v first ops)
    (Prod.mk <$> .call Symbol.atom <*> .star (.call Symbol.suffix))

/-- A primary expression alone. -/
def atomRule : Rule Node.Chain :=
  firstOf [
    .closed <$> .call Symbol.literal,
    .closed <$> .call Symbol.compound,
    (fun kw value closing => .closed (Node.defined kw value (some closing))) <$> tok .kDEFINED
      <* .token parens <* newlines <*> expression <* newlines <*> tok .tRPAREN,
    Node.superChain <$> tok .kSUPER <*> opt parenArguments,
    Node.yieldChain <$> tok .kYIELD <*> opt parenArguments,
    (fun kw => .closed (Node.jump kw [])) <$> .token jumps,
    (fun colons name => .opened (Node.topConstant colons name)) <$> tok .tCOLON3
      <*> tok .tCONSTANT,
    (fun name (items, closing) => .closed (Node.functionCall name items closing)) <$>
      .token [.tIDENTIFIER, .tFID, .tCONSTANT] <*> parenArguments,
    (fun x => .opened (Node.identifier x)) <$> tok .tIDENTIFIER,
    (fun x => .opened (Node.nameCall x)) <$> tok .tFID,
    (fun x => .opened (Node.constant none x)) <$> tok .tCONSTANT,
    (fun x => .closed (Node.markedVariable x)) <$>
      .token [.tIVAR, .tCVAR, .tGVAR, .tNTH_REF, .tBACK_REF]] <|
  .closed <$> lambda

end RubySyntax.Grammar
