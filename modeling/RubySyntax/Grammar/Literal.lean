/-
  RubySyntax.Grammar.Literal
  ──────────────────────────
  **LITERALS.**

  Numbers, strings with their interpolations, symbols, regular expressions, arrays, hashes, and
  the words that stand for a value.
-/
import RubySyntax.Grammar.Call

namespace RubySyntax.Grammar

open Token Grammar.Expr

/-- A part of a string: content, or statements in an interpolation. -/
def stringPart : Rule Node.StringPart :=
  .plain <$> tok .tSTRING_CONTENT <|>
  .interpolation <$> tok .tSTRING_DBEG <*> statements <*> tok .tSTRING_DEND

/-- A string between quotes, or a character. -/
def stringLiteral : Rule Node :=
  Node.string <$> tok .tSTRING_BEG <*> .star stringPart <*> tok .tSTRING_END <|>
  Node.character <$> tok .tCHARACTER

/-- An element of a hash. -/
def hashItem : Rule Node :=
  Node.labelled <$> tok .tLABEL <* newlines <*> argument <|>
  .since ⟨3, 1⟩ (Node.labelAlone <$> tok .tLABEL) <|>
  Node.doubleSplat <$> tok .tDSTAR <*> argument <|>
  Node.pair <$> argument <* tok .tASSOC <* newlines <*> argument

/-- A hash between braces. -/
def hashLiteral : Rule Node :=
  Node.hash <$> tok .tLBRACE <* newlines <*> sepBy hashItem commaLine <* opt commaLine <* newlines
    <*> tok .tRCURLY

/-- A literal. -/
def literalRule : Rule Node :=
  Node.integer <$> tok .tINTEGER <|>
  Node.float <$> tok .tFLOAT <|>
  Node.rational <$> tok .tRATIONAL <|>
  Node.complex <$> tok .tIMAGINARY <|>
  Node.concatenation <$> plus stringLiteral <|>
  Node.commandString <$> tok .tXSTRING_BEG <*> .star stringPart <*> tok .tSTRING_END <|>
  Node.symbol <$> tok .tSYMBOL <|>
  Node.quotedSymbol <$> tok .tSYMBEG <*> .star stringPart <*> tok .tSTRING_END <|>
  Node.regexp <$> tok .tREGEXP_BEG <*> .star stringPart <*> tok .tSTRING_END
    <*> tok .tREGEXP_OPT <|>
  Node.array <$> tok .tLBRACK <*> argumentList <*> tok .tRBRACK <|>
  hashLiteral <|>
  Node.bare .nilLit <$> tok .kNIL <|>
  Node.bare .trueLit <$> tok .kTRUE <|>
  Node.bare .falseLit <$> tok .kFALSE <|>
  Node.bare .selfRef <$> tok .kSELF <|>
  Node.bare .fileKeyword <$> tok .k__FILE__ <|>
  Node.bare .lineKeyword <$> tok .k__LINE__ <|>
  Node.bare .encodingKeyword <$> tok .k__ENCODING__ <|>
  Node.bare .redoJump <$> tok .kREDO <|>
  Node.bare .retryJump <$> tok .kRETRY

end RubySyntax.Grammar
