/-
  RubySyntax.Token.Lexer.Word
  ───────────────────────────
  **NAMES, KEYWORDS AND VARIABLES.**

  A word is a name and perhaps a question or exclamation mark.  Where a method name is expected
  every word is one.  Elsewhere a word before a single colon is a label, a keyword is a keyword,
  and a name that has been assigned or bound is a variable, after which no arguments follow.
-/
import RubySyntax.Token.Lexer.State
import RubySyntax.Token.Lexer.Operator

namespace RubySyntax.Token.Lexer

open RubySyntax.Text

/-! ## §1. Words. -/

/-- The keywords. -/
def keywords : List (String × Kind) := [
  ("alias", .kALIAS), ("and", .kAND), ("begin", .kBEGIN), ("BEGIN", .klBEGIN), ("break", .kBREAK),
  ("case", .kCASE), ("class", .kCLASS), ("def", .kDEF), ("defined?", .kDEFINED), ("do", .kDO),
  ("else", .kELSE), ("elsif", .kELSIF), ("end", .kEND), ("END", .klEND), ("ensure", .kENSURE),
  ("false", .kFALSE), ("for", .kFOR), ("if", .kIF), ("in", .kIN), ("module", .kMODULE),
  ("next", .kNEXT), ("nil", .kNIL), ("not", .kNOT), ("or", .kOR), ("redo", .kREDO),
  ("rescue", .kRESCUE), ("retry", .kRETRY), ("return", .kRETURN), ("self", .kSELF),
  ("super", .kSUPER), ("then", .kTHEN), ("true", .kTRUE), ("undef", .kUNDEF),
  ("unless", .kUNLESS), ("until", .kUNTIL), ("when", .kWHEN), ("while", .kWHILE),
  ("yield", .kYIELD), ("__FILE__", .k__FILE__), ("__LINE__", .k__LINE__),
  ("__ENCODING__", .k__ENCODING__)]

/-- The keyword that a word is. -/
def keyword? (word : String) : Option Kind := keywords.lookup word

/-- A word: its characters, and whether a mark ends it. -/
structure Word where
  chars : List Char
  marked : Bool
deriving DecidableEq, Repr

/-- The word at the beginning of a text.  A question or exclamation mark belongs to it unless it
begins an operator with one equals sign. -/
def readWord (cs : List Char) : Word :=
  let name := cs.takeWhile isNameChar
  match cs.drop name.length with
  | mark :: rest =>
    if (mark == '?' || mark == '!') && (rest.head? != some '=' || rest.tail.head? == some '=') then
      ⟨name ++ [mark], true⟩
    else ⟨name, false⟩
  | [] => ⟨name, false⟩

/-- The kind of a word that is a name. -/
def nameKind (word : Word) : Kind :=
  if word.marked then .tFID
  else if nextIs isUpper word.chars then .tCONSTANT
  else .tIDENTIFIER

/-! ## §2. Keywords. -/

/-- The kind of a keyword where no expression begins: some of them then modify what stands
before. -/
def modifierKind : Kind → Kind
  | .kIF => .kIF_MOD
  | .kUNLESS => .kUNLESS_MOD
  | .kWHILE => .kWHILE_MOD
  | .kUNTIL => .kUNTIL_MOD
  | .kRESCUE => .kRESCUE_MOD
  | kind => kind

namespace State

/-- The kind of a keyword in context, and the context without a header or a lambda that it
ends. -/
def keywordKind (s : State) (keyword : Kind) : Kind × State :=
  if keyword = .kDO then
    if s.loopAt == some s.depth then (.kDO_COND, { s with loopAt := none })
    else if s.lambdaAt == some s.depth then (.kDO_LAMBDA, s.closeLambda)
    else (.kDO, s)
  else if s.expect == .value then (keyword, s)
  else (modifierKind keyword, s)

/-- What follows a keyword. -/
def afterKeyword (s : State) (kind : Kind) : State :=
  match kind with
  | .kWHILE | .kUNTIL | .kFOR => { s with loopAt := some s.depth, expect := .value }
  | .kDEF => { s with naming := some .definition, expect := .definedName }
  | .kALIAS => { s with naming := some .aliasNew, expect := .definedName }
  | .kUNDEF => { s with naming := some .undefinition, expect := .definedName }
  | .kRETURN | .kBREAK | .kNEXT | .kRESCUE => { s with expect := .valueOrEnd }
  | .kSELF | .kNIL | .kTRUE | .kFALSE | .k__FILE__ | .k__LINE__ | .k__ENCODING__ | .kREDO
  | .kRETRY | .kEND => { s with expect := .operator }
  | .kSUPER | .kYIELD | .kDEFINED => { s with expect := .argument }
  | _ => { s with expect := .value }

/-- A keyword of `n` characters. -/
def keyword (s : State) (keyword : Kind) (n : Nat) : State :=
  let (kind, context) := s.keywordKind keyword
  (context.emitSpelt kind n).afterKeyword kind

/-! ## §3. Words in context. -/

/-- A word where the name of a method is defined, renamed or removed.  Before a point the word is
the receiver of the definition; an equals sign before a parenthesis belongs to the name. -/
def definedWord (s : State) (word : Word) : State :=
  let n := word.chars.length
  let after := s.rest.drop n
  if s.naming == some .definition && after.head? == some '.' && after.tail.head? != some '.' then
    let kind := if word.chars == "self".toList then .kSELF else nameKind word
    s.emitThen kind n .operator
  else if !word.marked && after.head? == some '=' && after.tail.head? == some '(' then
    (s.emitSpelt (nameKind word) (n + 1)).endName
  else (s.emitSpelt (nameKind word) n).endName

/-- Whether a word before a colon is a label: not where a conditional waits for that colon, and
not where a method name is expected. -/
def allowsLabel (s : State) : Bool :=
  s.ternaries.head? != some s.depth && s.expect != .method && s.expect != .definedName

/-- A label: a word of `n` characters and a colon.  At the end of its line it is complete. -/
def label (s : State) (chars : List Char) : State :=
  let n := chars.length + 1
  let after := (s.rest.drop n).dropWhile fun c => isSpaceOrTab c || c == '\r'
  let closes := nextIs (fun c => c == '\n' || c == '#') after
  { s.emit .tLABEL n chars with expect := if closes then .operator else .value }

/-- A plain name, which becomes known when it is bound or about to be assigned. -/
def plainName (s : State) (word : Word) : State :=
  let kind := nameKind word
  let n := word.chars.length
  let name := String.ofList word.chars
  if kind = .tIDENTIFIER then
    let binds := s.params != .none || s.lastKind == some .kFOR || assignmentAhead (s.rest.drop n)
    let locals := if binds && !s.locals.contains name then name :: s.locals else s.locals
    { s with locals }.emitThen kind n (if locals.contains name then .operator else .argument)
  else s.emitThen kind n .argument

/-- A word at the beginning of the unread text. -/
def word (s : State) : State :=
  let word := readWord s.rest
  let n := word.chars.length
  let after := s.rest.drop n
  if s.expect == .definedName then s.definedWord word
  else if s.expect == .method then s.emitThen (nameKind word) n .argument
  else if !word.marked && after.head? == some ':' && after.tail.head? != some ':' &&
      s.allowsLabel then
    s.label word.chars
  else match keyword? (String.ofList word.chars) with
    | some kind => s.keyword kind n
    | none => s.plainName word

/-! ## §4. Variables with a mark before the name. -/

/-- A variable of an object or of a class: one or two at signs and a name. -/
def atVariable (s : State) : State :=
  let ofClass := s.sees "@@"
  let sigil := if ofClass then 2 else 1
  let after := s.rest.drop sigil
  if nextIs isNameStart after then
    let n := sigil + (after.takeWhile isNameChar).length
    endWord s (s.emitSpelt (if ofClass then .tCVAR else .tIVAR) n)
  else s.reject (if ofClass then .bareClassVariable else .bareInstanceVariable) sigil

/-- The punctuation characters that name a global variable. -/
def globalMarks : List Char := "~*$?!@/\\;,.=:<>\x22".toList ++ ['0']

/-- The kind and length of a global variable from the character after the dollar sign. -/
def globalLength? (cs : List Char) : Option (Kind × Nat) :=
  match cs with
  | [] => none
  | c :: rest =>
    if isNameStart c then some (.tGVAR, (cs.takeWhile isNameChar).length)
    else if isDigit c && c != '0' then some (.tNTH_REF, (cs.takeWhile isDigit).length)
    else if c == '&' || c == '\x60' || c == '\x27' || c == '+' then some (.tBACK_REF, 1)
    else if c == '-' && nextIs (fun d => isLetter d || isDigitOrLine d) rest then some (.tGVAR, 2)
    else if globalMarks.contains c then some (.tGVAR, 1)
    else none

/-- A global variable: a dollar sign and a name, a number or a mark.  The value of a numbered one
is its number. -/
def globalVariable (s : State) : State :=
  match globalLength? (s.rest.drop 1) with
  | some (kind, n) =>
    let value := if kind = .tNTH_REF then (s.rest.drop 1).take n else s.rest.take (n + 1)
    endWord s (s.emit kind (n + 1) value)
  | none => s.reject .bareGlobalVariable 1

end State

end RubySyntax.Token.Lexer
