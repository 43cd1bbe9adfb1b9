/-
  RubySyntax.Grammar.Pattern
  ──────────────────────────
  **PATTERNS.**

  A pattern is a value, a name, a list of patterns, patterns by keys, patterns for the parts of
  an object, alternatives of these, or one of these with a name for what it matched.
-/
import RubySyntax.Grammar.Separator
import RubySyntax.Node.Build.Control
import RubySyntax.Node.Build.Pattern

namespace RubySyntax.Grammar

open Token Grammar.Expr

/-! ## §1. Parts. -/

/-- An open rest of a list. -/
def patternRest : Rule Node := Node.matchRest <$> .token stars <*> opt (tok .tIDENTIFIER)

/-- An element of a list of patterns. -/
def patternItem : Rule Node := patternRest <|> .call Symbol.pattern

/-- A pattern by a key, a key alone, or the rest of the keys. -/
def keyPatternRule : Rule Node :=
  Node.labelled <$> tok .tLABEL <*> .call Symbol.pattern <|>
  Node.matchVar <$> tok .tLABEL <|>
  Node.matchNoRest <$> tok .tDSTAR <*> tok .kNIL <|>
  Node.matchRest <$> tok .tDSTAR <*> opt (tok .tIDENTIFIER)

/-- A constant, perhaps in a scope. -/
def patternConstant : Rule Node :=
  (fun head names => names.foldl (fun scope n => Node.constant (some scope) n) head) <$>
    (Node.topConstant <$> tok .tCOLON3 <*> tok .tCONSTANT <|>
      Node.constant none <$> tok .tCONSTANT) <*>
    .star (tok .tCOLON2 *> tok .tCONSTANT)

/-- A value: any primary expression that does not begin with a name. -/
def patternScalar : Rule Node := .notNext [.tIDENTIFIER] *> primaryNode

/-- A value or a range of values. -/
def patternValue : Rule Node :=
  (fun lhs op rhs => Node.range (some lhs) op (some rhs)) <$> patternScalar <*> .token rangePoints
    <*> patternScalar <|>
  (fun lhs op => Node.range (some lhs) op none) <$> patternScalar <*> .token rangePoints <|>
  (fun op rhs => Node.range none op (some rhs)) <$> .token openPoints <*> patternScalar <|>
  patternScalar

/-- What a caret compares with. -/
def pinTarget : Rule Node :=
  (fun opening value closing => Node.parenthesized opening [value] closing) <$> .token parens
    <*> expression <*> tok .tRPAREN <|>
  Node.identifier <$> tok .tIDENTIFIER <|>
  Node.markedVariable <$> .token [.tIVAR, .tCVAR, .tGVAR]

/-! ## §2. Patterns. -/

/-- The brackets that open the parts of an object. -/
def partsOpen : List Kind := [.tLPAREN2, .tLBRACK2]

/-- The brackets that close the parts of an object. -/
def partsClose : List Kind := [.tRPAREN, .tRBRACK]

/-- A pattern without alternatives. -/
def patternPrimary : Rule Node :=
  Node.listPattern <$> .token squares <*> sepBy patternItem comma <*> present comma
    <*> tok .tRBRACK <|>
  Node.hashPattern <$> .token braces <* newlines <*> sepBy (.call Symbol.keyPattern) comma <* opt comma
    <* newlines <*> tok .tRCURLY <|>
  (fun c opening items closing =>
      Node.constPattern c (Node.hashPattern opening items closing) closing) <$>
    patternConstant <*> .token partsOpen <*> sepBy1 (.call Symbol.keyPattern) comma
    <*> .token partsClose <|>
  (fun c opening items trailing closing =>
      Node.constPattern c (Node.listPattern opening items trailing closing) closing) <$>
    patternConstant <*> .token partsOpen <*> sepBy patternItem comma <*> present comma
    <*> .token partsClose <|>
  Node.pin <$> tok .tCARET <*> pinTarget <|>
  patternValue <|>
  Node.matchVar <$> tok .tIDENTIFIER

/-- Patterns of which one suffices. -/
def patternAlternatives : Rule Node :=
  (fun first rest => rest.foldl Node.matchAlt first) <$> patternPrimary
    <*> .star (tok .tPIPE *> patternPrimary)

/-- A pattern, perhaps with a name for what it matched. -/
def patternRule : Rule Node :=
  Node.matchAs <$> patternAlternatives <* tok .tASSOC <*> tok .tIDENTIFIER <|>
  patternAlternatives

/-- Patterns without brackets: by keys, or as a list. -/
def topPatternRule : Rule Node :=
  Node.bareHashPattern <$> sepBy1 (.call Symbol.keyPattern) comma <|>
  Node.topPattern <$> sepBy1 patternItem comma <*> present comma

end RubySyntax.Grammar
