/-
  RubySyntax.Token.Kind
  ─────────────────────
  **KINDS OF TOKENS.**

  A kind is known by its tag.  The tag of a keyword begins with a small `k`, that of any other
  token with a small `t`.  One spelling can have several kinds, told apart by what stands before
  it: an opening parenthesis that follows a name directly, that follows a blank, that begins an
  expression.
-/

namespace RubySyntax.Token

/-- The kind of a token. -/
inductive Kind where
  -- keywords
  | kALIAS | kAND | kBEGIN | klBEGIN | kBREAK | kCASE | kCLASS | kDEF | kDEFINED | kDO
  | kDO_COND | kDO_LAMBDA | kELSE | kELSIF | kEND | klEND | kENSURE | kFALSE | kFOR | kIF
  | kIF_MOD | kIN | kMODULE | kNEXT | kNIL | kNOT | kOR | kREDO | kRESCUE | kRESCUE_MOD | kRETRY
  | kRETURN | kSELF | kSUPER | kTHEN | kTRUE | kUNDEF | kUNLESS | kUNLESS_MOD | kUNTIL
  | kUNTIL_MOD | kWHEN | kWHILE | kWHILE_MOD | kYIELD | k__FILE__ | k__LINE__ | k__ENCODING__
  -- names
  | tIDENTIFIER | tFID | tCONSTANT | tIVAR | tCVAR | tGVAR | tNTH_REF | tBACK_REF | tLABEL
  -- literals
  | tINTEGER | tFLOAT | tRATIONAL | tIMAGINARY | tCHARACTER | tSYMBOL | tSTRING_BEG
  | tXSTRING_BEG | tSYMBEG | tREGEXP_BEG | tSTRING_CONTENT | tSTRING_DBEG | tSTRING_DEND
  | tSTRING_END | tREGEXP_OPT
  -- punctuation
  | tNL | tSEMI | tCOMMA | tDOT | tANDDOT | tCOLON2 | tCOLON3 | tCOLON | tEH | tASSOC | tLAMBDA
  | tLAMBEG | tLPAREN | tLPAREN2 | tLPAREN_ARG | tRPAREN | tLBRACK | tLBRACK2 | tRBRACK
  | tLBRACE | tLCURLY | tRCURLY | tPIPE
  -- operators
  | tEQL | tOP_ASGN | tEQ | tEQQ | tNEQ | tMATCH | tNMATCH | tGT | tLT | tGEQ | tLEQ | tCMP
  | tANDOP | tOROP | tBANG | tTILDE | tCARET | tAMPER | tAMPER2 | tLSHFT | tRSHFT | tPLUS
  | tMINUS | tUPLUS | tUMINUS | tUMINUS_NUM | tSTAR | tSTAR2 | tDSTAR | tPOW | tDIVIDE
  | tPERCENT | tDOT2 | tDOT3 | tBDOT2 | tBDOT3 | tAREF | tASET
deriving DecidableEq, Repr, Inhabited

namespace Kind

/-- Every kind, in the order of its number. -/
def all : List Kind := [
  .kALIAS, .kAND, .kBEGIN, .klBEGIN, .kBREAK, .kCASE, .kCLASS, .kDEF, .kDEFINED, .kDO, .kDO_COND,
  .kDO_LAMBDA, .kELSE, .kELSIF, .kEND, .klEND, .kENSURE, .kFALSE, .kFOR, .kIF, .kIF_MOD, .kIN,
  .kMODULE, .kNEXT, .kNIL, .kNOT, .kOR, .kREDO, .kRESCUE, .kRESCUE_MOD, .kRETRY, .kRETURN, .kSELF,
  .kSUPER, .kTHEN, .kTRUE, .kUNDEF, .kUNLESS, .kUNLESS_MOD, .kUNTIL, .kUNTIL_MOD, .kWHEN, .kWHILE,
  .kWHILE_MOD, .kYIELD, .k__FILE__, .k__LINE__, .k__ENCODING__,
  .tIDENTIFIER, .tFID, .tCONSTANT, .tIVAR, .tCVAR, .tGVAR, .tNTH_REF, .tBACK_REF, .tLABEL,
  .tINTEGER, .tFLOAT, .tRATIONAL, .tIMAGINARY, .tCHARACTER, .tSYMBOL, .tSTRING_BEG, .tXSTRING_BEG,
  .tSYMBEG, .tREGEXP_BEG, .tSTRING_CONTENT, .tSTRING_DBEG, .tSTRING_DEND, .tSTRING_END,
  .tREGEXP_OPT,
  .tNL, .tSEMI, .tCOMMA, .tDOT, .tANDDOT, .tCOLON2, .tCOLON3, .tCOLON, .tEH, .tASSOC, .tLAMBDA,
  .tLAMBEG, .tLPAREN, .tLPAREN2, .tLPAREN_ARG, .tRPAREN, .tLBRACK, .tLBRACK2, .tRBRACK, .tLBRACE,
  .tLCURLY, .tRCURLY, .tPIPE,
  .tEQL, .tOP_ASGN, .tEQ, .tEQQ, .tNEQ, .tMATCH, .tNMATCH, .tGT, .tLT, .tGEQ, .tLEQ, .tCMP,
  .tANDOP, .tOROP, .tBANG, .tTILDE, .tCARET, .tAMPER, .tAMPER2, .tLSHFT, .tRSHFT, .tPLUS, .tMINUS,
  .tUPLUS, .tUMINUS, .tUMINUS_NUM, .tSTAR, .tSTAR2, .tDSTAR, .tPOW, .tDIVIDE, .tPERCENT, .tDOT2,
  .tDOT3, .tBDOT2, .tBDOT3, .tAREF, .tASET]

/-- The name of a kind. -/
def tag : Kind → String
  | .kALIAS => "kALIAS"
  | .kAND => "kAND"
  | .kBEGIN => "kBEGIN"
  | .klBEGIN => "klBEGIN"
  | .kBREAK => "kBREAK"
  | .kCASE => "kCASE"
  | .kCLASS => "kCLASS"
  | .kDEF => "kDEF"
  | .kDEFINED => "kDEFINED"
  | .kDO => "kDO"
  | .kDO_COND => "kDO_COND"
  | .kDO_LAMBDA => "kDO_LAMBDA"
  | .kELSE => "kELSE"
  | .kELSIF => "kELSIF"
  | .kEND => "kEND"
  | .klEND => "klEND"
  | .kENSURE => "kENSURE"
  | .kFALSE => "kFALSE"
  | .kFOR => "kFOR"
  | .kIF => "kIF"
  | .kIF_MOD => "kIF_MOD"
  | .kIN => "kIN"
  | .kMODULE => "kMODULE"
  | .kNEXT => "kNEXT"
  | .kNIL => "kNIL"
  | .kNOT => "kNOT"
  | .kOR => "kOR"
  | .kREDO => "kREDO"
  | .kRESCUE => "kRESCUE"
  | .kRESCUE_MOD => "kRESCUE_MOD"
  | .kRETRY => "kRETRY"
  | .kRETURN => "kRETURN"
  | .kSELF => "kSELF"
  | .kSUPER => "kSUPER"
  | .kTHEN => "kTHEN"
  | .kTRUE => "kTRUE"
  | .kUNDEF => "kUNDEF"
  | .kUNLESS => "kUNLESS"
  | .kUNLESS_MOD => "kUNLESS_MOD"
  | .kUNTIL => "kUNTIL"
  | .kUNTIL_MOD => "kUNTIL_MOD"
  | .kWHEN => "kWHEN"
  | .kWHILE => "kWHILE"
  | .kWHILE_MOD => "kWHILE_MOD"
  | .kYIELD => "kYIELD"
  | .k__FILE__ => "k__FILE__"
  | .k__LINE__ => "k__LINE__"
  | .k__ENCODING__ => "k__ENCODING__"
  | .tIDENTIFIER => "tIDENTIFIER"
  | .tFID => "tFID"
  | .tCONSTANT => "tCONSTANT"
  | .tIVAR => "tIVAR"
  | .tCVAR => "tCVAR"
  | .tGVAR => "tGVAR"
  | .tNTH_REF => "tNTH_REF"
  | .tBACK_REF => "tBACK_REF"
  | .tLABEL => "tLABEL"
  | .tINTEGER => "tINTEGER"
  | .tFLOAT => "tFLOAT"
  | .tRATIONAL => "tRATIONAL"
  | .tIMAGINARY => "tIMAGINARY"
  | .tCHARACTER => "tCHARACTER"
  | .tSYMBOL => "tSYMBOL"
  | .tSTRING_BEG => "tSTRING_BEG"
  | .tXSTRING_BEG => "tXSTRING_BEG"
  | .tSYMBEG => "tSYMBEG"
  | .tREGEXP_BEG => "tREGEXP_BEG"
  | .tSTRING_CONTENT => "tSTRING_CONTENT"
  | .tSTRING_DBEG => "tSTRING_DBEG"
  | .tSTRING_DEND => "tSTRING_DEND"
  | .tSTRING_END => "tSTRING_END"
  | .tREGEXP_OPT => "tREGEXP_OPT"
  | .tNL => "tNL"
  | .tSEMI => "tSEMI"
  | .tCOMMA => "tCOMMA"
  | .tDOT => "tDOT"
  | .tANDDOT => "tANDDOT"
  | .tCOLON2 => "tCOLON2"
  | .tCOLON3 => "tCOLON3"
  | .tCOLON => "tCOLON"
  | .tEH => "tEH"
  | .tASSOC => "tASSOC"
  | .tLAMBDA => "tLAMBDA"
  | .tLAMBEG => "tLAMBEG"
  | .tLPAREN => "tLPAREN"
  | .tLPAREN2 => "tLPAREN2"
  | .tLPAREN_ARG => "tLPAREN_ARG"
  | .tRPAREN => "tRPAREN"
  | .tLBRACK => "tLBRACK"
  | .tLBRACK2 => "tLBRACK2"
  | .tRBRACK => "tRBRACK"
  | .tLBRACE => "tLBRACE"
  | .tLCURLY => "tLCURLY"
  | .tRCURLY => "tRCURLY"
  | .tPIPE => "tPIPE"
  | .tEQL => "tEQL"
  | .tOP_ASGN => "tOP_ASGN"
  | .tEQ => "tEQ"
  | .tEQQ => "tEQQ"
  | .tNEQ => "tNEQ"
  | .tMATCH => "tMATCH"
  | .tNMATCH => "tNMATCH"
  | .tGT => "tGT"
  | .tLT => "tLT"
  | .tGEQ => "tGEQ"
  | .tLEQ => "tLEQ"
  | .tCMP => "tCMP"
  | .tANDOP => "tANDOP"
  | .tOROP => "tOROP"
  | .tBANG => "tBANG"
  | .tTILDE => "tTILDE"
  | .tCARET => "tCARET"
  | .tAMPER => "tAMPER"
  | .tAMPER2 => "tAMPER2"
  | .tLSHFT => "tLSHFT"
  | .tRSHFT => "tRSHFT"
  | .tPLUS => "tPLUS"
  | .tMINUS => "tMINUS"
  | .tUPLUS => "tUPLUS"
  | .tUMINUS => "tUMINUS"
  | .tUMINUS_NUM => "tUMINUS_NUM"
  | .tSTAR => "tSTAR"
  | .tSTAR2 => "tSTAR2"
  | .tDSTAR => "tDSTAR"
  | .tPOW => "tPOW"
  | .tDIVIDE => "tDIVIDE"
  | .tPERCENT => "tPERCENT"
  | .tDOT2 => "tDOT2"
  | .tDOT3 => "tDOT3"
  | .tBDOT2 => "tBDOT2"
  | .tBDOT3 => "tBDOT3"
  | .tAREF => "tAREF"
  | .tASET => "tASET"

/-- The kind of a name. -/
def ofTag? (name : String) : Option Kind := all.find? fun k => k.tag == name

/-- Whether the kind is a keyword's. -/
def isKeyword (k : Kind) : Bool := k.tag.toList.head? == some 'k'

/-- The place of a kind in `all`. -/
def ordinal (k : Kind) : Nat := all.idxOf k

end Kind

end RubySyntax.Token
