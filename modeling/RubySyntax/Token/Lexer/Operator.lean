/-
  RubySyntax.Token.Lexer.Operator
  ───────────────────────────────
  **OPERATORS AND PUNCTUATION.**

  Three tables: the operators that can be names of methods, the operators that assign, and the
  punctuation whose kind does not hang on the context.  Longer spellings stand before the
  shorter ones that they begin with, so the first entry that fits is the longest.  The other
  punctuation is read case by case.
-/
import RubySyntax.Token.Lexer.State

namespace RubySyntax.Token.Lexer

open RubySyntax.Text

/-! ## §1. Tables. -/

/-- The operators that name methods, and the kinds of their tokens in that place. -/
def methodOperators : List (String × Kind) := [
  ("[]=", .tASET), ("[]", .tAREF), ("<=>", .tCMP), ("===", .tEQQ), ("==", .tEQ), ("=~", .tMATCH),
  ("!=", .tNEQ), ("!~", .tNMATCH), ("**", .tPOW), ("+@", .tUPLUS), ("-@", .tUMINUS),
  ("<=", .tLEQ), (">=", .tGEQ), ("<<", .tLSHFT), (">>", .tRSHFT), ("!", .tBANG), ("~", .tTILDE),
  ("+", .tPLUS), ("-", .tMINUS), ("*", .tSTAR2), ("/", .tDIVIDE), ("%", .tPERCENT), ("<", .tLT),
  (">", .tGT), ("&", .tAMPER2), ("|", .tPIPE), ("^", .tCARET), ("\x60", .tIDENTIFIER)]

/-- The operators that assign. -/
def assignmentOperators : List String :=
  ["**=", "||=", "&&=", "<<=", ">>=", "+=", "-=", "*=", "/=", "%=", "|=", "&=", "^="]

/-- Punctuation that is read alike everywhere: a kind, or nothing for an assignment operator. -/
def plainPunctuation : List (String × Option Kind) := [
  ("===", some .tEQQ), ("==", some .tEQ), ("=~", some .tMATCH), ("=>", some .tASSOC),
  ("!=", some .tNEQ), ("!~", some .tNMATCH), ("!", some .tBANG),
  ("<=>", some .tCMP), ("<<=", none), ("<=", some .tLEQ), ("<<", some .tLSHFT), ("<", some .tLT),
  (">>=", none), (">=", some .tGEQ), (">>", some .tRSHFT), (">", some .tGT),
  ("+=", none), ("-=", none), ("**=", none), ("*=", none), ("%=", none), ("%", some .tPERCENT),
  ("&&=", none), ("&&", some .tANDOP), ("&=", none),
  ("||=", none), ("||", some .tOROP), ("|=", none), ("^=", none), ("^", some .tCARET),
  ("~", some .tTILDE)]

/-- The first entry of a table whose spelling the text begins with. -/
def findSpelling {α : Type} (table : List (String × α)) (cs : List Char) : Option (String × α) :=
  table.find? fun entry => entry.1.toList.isPrefixOf cs

/-- Whether an assignment operator, not a comparison, a match or an arrow, comes after any
blanks. -/
def assignmentAhead (cs : List Char) : Bool :=
  match cs.dropWhile isSpaceOrTab with
  | '=' :: rest => !nextIs (fun c => c == '=' || c == '~' || c == '>') rest
  | rest => assignmentOperators.any fun op => op.toList.isPrefixOf rest

namespace State

/-! ## §2. Opening a literal. -/

/-- A literal opened by the next `n` characters. -/
def openLiteral (s : State) (form : LiteralForm) (close : Char) (interpolates : Bool) (kind : Kind)
    (n : Nat) : State :=
  let opened := s.emitSpelt kind n
  { opened with modes := .literal ⟨form, close, interpolates, s.pos⟩ :: opened.modes }

/-! ## §3. Operators that may mark an argument. -/

/-- An operator of `n` characters that marks an argument where one may begin, with a warning when
it stands after a name. -/
def argumentMark (s : State) (spelling : String) (mark infixed : Kind) : State :=
  let n := spelling.length
  if s.beginsValue || s.marksArgument n then
    let warned := if s.expect == .argument then s.report (.argumentMark spelling) n else s
    warned.operator mark n
  else s.operator infixed n

/-- A slash: it opens a regular expression where a value may begin, else it divides. -/
def slash (s : State) : State :=
  if s.beginsValue || s.marksArgument 1 then
    let warned := if s.expect == .argument then s.report (.ambiguousArgument "/") 1 else s
    warned.openLiteral .regexp '/' true .tREGEXP_BEG 1
  else if s.sees "/=" then s.assignment 2
  else s.operator .tDIVIDE 1

/-- A number of which the first `signLength` characters are the sign. -/
def number (s : State) (signLength : Nat) (negative : Bool) : State :=
  let (kind, n) := numberLength (s.rest.drop signLength)
  let digits := (s.rest.drop signLength).take n
  { s.emit kind (signLength + n) (if negative then '-' :: digits else digits) with
    expect := .operator }

/-- A plus or a minus: the sign of a number, a sign before another operand, or an operator.  The
minus of a number raised to a power is a token of its own. -/
def plusOrMinus (s : State) (minus : Bool) : State :=
  let marked := s.marksArgument 1
  let signs := s.beginsValue || marked
  if signs && nextIs isDigit (s.rest.drop 1) then
    let spelling := if minus then "-" else "+"
    let warned := if marked then s.report (.ambiguousArgument spelling) 1 else s
    if minus && powerFollows (s.rest.drop 1) then warned.operator .tUMINUS_NUM 1
    else warned.number 1 minus
  else match signs, minus with
    | true, true => s.operator .tUMINUS 1
    | true, false => s.operator .tUPLUS 1
    | false, true => s.operator .tMINUS 1
    | false, false => s.operator .tPLUS 1

/-- The arrow of a lambda, whose parameters and body follow. -/
def lambdaArrow (s : State) : State :=
  let arrow := s.operator .tLAMBDA 2
  { arrow with
    lambdaAt := some arrow.depth
    params := .lambda arrow.depth
    expect := .argument }

/-! ## §4. Brackets. -/

/-- The kind of an opening bracket: where an expression begins, right after a token, after a name
and a blank, after a value and a blank. -/
def bracketKind (s : State) (beginning close argument spacedOut : Kind) : Kind :=
  if s.beginsValue then beginning
  else if !s.spaced then close
  else if s.expect == .argument then argument
  else spacedOut

/-- An opening bracket. -/
def openBracket (s : State) (bracket : Bracket) (kind : Kind) : State :=
  let opened := s.operator kind 1
  { opened with brackets := bracket :: opened.brackets }

/-- A closing bracket, which closes whatever bracket is open. -/
def closeBracket (s : State) (kind : Kind) : State :=
  { s with brackets := s.brackets.tail }.emitThen kind 1 .operator

/-- An opening brace: of a lambda's body, of a hash where an expression begins, of a block. -/
def openBrace (s : State) : State :=
  if s.lambdaAt == some s.depth then s.closeLambda.openBracket .brace .tLAMBEG
  else if s.beginsValue then s.openBracket .brace .tLBRACE
  else s.openBracket .brace .tLCURLY

/-- A closing brace, which returns to a literal if it ends an interpolation. -/
def closeBrace (s : State) : State :=
  if s.brackets.head? == some .interpolation then
    { s with brackets := s.brackets.tail, modes := s.modes.tail }.emitSpelt .tSTRING_DEND 1
  else s.closeBracket .tRCURLY

/-! ## §5. Other punctuation. -/

/-- A bar: it opens or closes the parameters of a block, or is an operator. -/
def bar (s : State) : State :=
  let opensParams := s.expect == .value &&
    (s.lastKind == some .tLCURLY || s.lastKind == some .tLAMBEG || s.lastKind == some .kDO ||
      s.lastKind == some .kDO_LAMBDA)
  let params :=
    if opensParams then .block s.depth
    else if s.params == .block s.depth then .none
    else s.params
  { s with params }.operator .tPIPE 1

/-- One to three points. -/
def points (s : State) : State :=
  if s.sees "..." then s.operator (if s.beginsValue then .tBDOT3 else .tDOT3) 3
  else if s.sees ".." then s.operator (if s.beginsValue then .tBDOT2 else .tDOT2) 2
  else s.emitThen .tDOT 1 (if s.naming == some .definition then .definedName else .method)

/-- The length of a symbol's name, from the character after the colon. -/
def symbolLength (cs : List Char) : Nat :=
  match cs with
  | '@' :: '@' :: rest => 2 + (rest.takeWhile isNameChar).length
  | '@' :: rest => 1 + (rest.takeWhile isNameChar).length
  | '$' :: rest =>
    if nextIs isNameStart rest then 1 + (rest.takeWhile isNameChar).length
    else if rest.isEmpty then 1
    else 2
  | _ =>
    if nextIs isNameStart cs then
      let n := (cs.takeWhile isNameChar).length
      match cs.drop n with
      | mark :: rest =>
        if (mark == '?' || mark == '!') && rest.head? != some '=' then n + 1
        else if mark == '=' && !nextIs (fun c => c == '=' || c == '~' || c == '>') rest then n + 1
        else n
      | [] => n
    else ((findSpelling methodOperators cs).map fun entry => entry.1.length).getD 0

/-- A symbol: a colon and a name. -/
def symbol (s : State) : State :=
  let n := symbolLength (s.rest.drop 1)
  endWord s (s.emit .tSYMBOL (n + 1) ((s.rest.drop 1).take n))

/-- A character that begins the name of a symbol. -/
def isSymbolStart (c : Char) : Bool := isNameStart c || "@$[<=!*+-/%>&|^~\x60".toList.contains c

/-- One or two colons: of a path, of a conditional, of a symbol, or alone. -/
def colons (s : State) : State :=
  if s.sees "::" then
    if s.beginsValue || (s.expect == .argument && s.spaced) then s.operator .tCOLON3 2
    else s.emitThen .tCOLON2 2 .method
  else if s.ternaries.head? == some s.depth && !s.beginsValue then
    { s with ternaries := s.ternaries.tail }.operator .tCOLON 1
  else match s.rest.drop 1 with
    | c :: _ =>
      if c == '\x22' then s.openLiteral .symbol c true .tSYMBEG 2
      else if c == '\x27' then s.openLiteral .symbol c false .tSYMBEG 2
      else if isSymbolStart c then s.symbol
      else s.operator .tCOLON 1
    | [] => s.operator .tCOLON 1

/-- The character that follows a question mark, if it is one alone and not the beginning of a
word. -/
def characterPiece? (cs : List Char) : Option Piece :=
  match cs with
  | [] => none
  | '\\' :: rest => some (readEscape .full rest)
  | c :: rest =>
    if isSpace c then none
    else if (c == '_' || isAlphanumeric c) && nextIs isNameChar rest then none
    else some (.plain c)

/-- A question mark: of a character where a value may begin, else of a conditional. -/
def questionMark (s : State) : State :=
  let allowed := s.beginsValue || (s.expect == .argument && s.spaced)
  match if allowed then characterPiece? (s.rest.drop 1) else none with
  | some piece =>
    let reported := match piece.fault? with
      | some fault =>
        { s with diagnostics :=
            fault.diagnostic (s.spanOf (s.pos + 1) (s.pos + 1 + byteLength piece.source))
              :: s.diagnostics }
      | none => s
    { reported.emit .tCHARACTER (1 + piece.source.length) piece.value with expect := .operator }
  | none =>
    let mark := s.operator .tEH 1
    { mark with ternaries := mark.depth :: mark.ternaries }

/-! ## §6. All punctuation. -/

/-- A character that is neither a blank nor part of a name, a number or a quoted literal. -/
def punctuation (s : State) (c : Char) : State :=
  match findSpelling plainPunctuation s.rest with
  | some (spelling, some kind) => s.operator kind spelling.length
  | some (spelling, none) => s.assignment spelling.length
  | none =>
    if c == '=' then s.closeDefinition.operator .tEQL 1
    else if c == '+' then s.plusOrMinus false
    else if c == '-' then if s.sees "->" then s.lambdaArrow else s.plusOrMinus true
    else if c == '*' then
      if s.sees "**" then s.argumentMark "**" .tDSTAR .tPOW else s.argumentMark "*" .tSTAR .tSTAR2
    else if c == '/' then s.slash
    else if c == '&' then
      if s.sees "&." then s.emitThen .tANDDOT 2 .method else s.argumentMark "&" .tAMPER .tAMPER2
    else if c == '|' then s.bar
    else if c == '(' then
      s.openBracket .paren (s.bracketKind .tLPAREN .tLPAREN2 .tLPAREN_ARG .tLPAREN)
    else if c == ')' then (s.closeBracket .tRPAREN).closeDefinition
    else if c == '[' then
      s.openBracket .square (s.bracketKind .tLBRACK .tLBRACK2 .tLBRACK .tLBRACK2)
    else if c == ']' then s.closeBracket .tRBRACK
    else if c == '\x7b' then s.openBrace
    else if c == '\x7d' then s.closeBrace
    else if c == '.' then s.points
    else if c == ':' then s.colons
    else if c == '?' then s.questionMark
    else if c == ',' then
      s.emitThen .tCOMMA 1 (if s.naming == some .undefinition then .definedName else .value)
    else if c == ';' then (s.operator .tSEMI 1).endStatement
    else s.reject (.unexpectedCharacter c) 1

/-- A method name made of operator characters, where one is expected and stands. -/
def operatorName? (s : State) : Option State :=
  (findSpelling methodOperators s.rest).map fun (spelling, kind) =>
    (s.emitSpelt kind spelling.length).endName

end State

end RubySyntax.Token.Lexer
