/-
  RubySyntax.Token.Lexer
  ──────────────────────
  **FROM TEXT TO TOKENS.**

  `lex` reads a whole text.  Each step reads the content of the literal that is open, or one
  piece of code: a blank, a newline, a comment, a token.  A step consumes at least one
  character, so the steps end; a line `__END__` ends the text early.  Two things make the scan
  fail: a literal or a document comment without an end, and nesting beyond `maxNesting`.
-/
import RubySyntax.Token.Lexer.State
import RubySyntax.Token.Lexer.Operator
import RubySyntax.Token.Lexer.Word

namespace RubySyntax.Token

open RubySyntax.Text

namespace Lexer

/-! ## §1. Comments. -/

/-- The number of characters of a line, its newline included. -/
def lineLength : List Char → Nat
  | [] => 0
  | c :: rest => if c == '\n' then 1 else 1 + lineLength rest

/-- The number of characters up to the end of the line that closes a document comment; that line
begins with `=end` and a blank. -/
def documentLength? : List Char → Option Nat
  | [] => none
  | c :: rest =>
    if c == '\n' && "=end".toList.isPrefixOf rest && State.atSpace (rest.drop 4) then
      some (1 + lineLength rest)
    else (documentLength? rest).map (1 + ·)

/-- The line without carriage returns at its end. -/
def dropReturns (line : List Char) : List Char :=
  (line.reverse.dropWhile (· == '\r')).reverse

/-! ## §2. Newlines. -/

/-- Whether the next line of code begins with a point that calls a method.  Blank lines and
comments in between do not matter. -/
def continuesWithCall (inComment : Bool) : List Char → Bool
  | [] => false
  | c :: rest =>
    if inComment then continuesWithCall (c != '\n') rest
    else if c == ' ' || c == '\t' || c == '\r' || c == '\n' then continuesWithCall false rest
    else if c == '#' then continuesWithCall true rest
    else (c == '.' && rest.head? != some '.') || (c == '&' && rest.head? == some '.')

namespace State

/-- Whether a newline here can end a statement. -/
def newlineEnds (s : State) : Bool :=
  s.expect != .value && s.expect != .method && s.expect != .definedName &&
    s.brackets.head? != some .paren && s.brackets.head? != some .square

/-- A newline: it ends a statement, or is a blank. -/
def newline (s : State) : State :=
  if s.newlineEnds && !continuesWithCall false (s.rest.drop 1) then
    (s.emitSpelt .tNL 1).endStatement
  else s.blank 1

/-- A comment up to the end of its line. -/
def lineComment (s : State) : State :=
  let line := s.rest.takeWhile (· != '\n')
  s.comment line.length (dropReturns line)

/-! ## §3. One step. -/

/-- Whether the unread text is the line that ends the program: `__END__` alone. -/
def atEndMarker (s : State) : Bool :=
  s.sees "__END__" &&
    match s.rest.drop 7 with
    | [] => true
    | '\n' :: _ => true
    | '\r' :: '\n' :: _ => true
    | _ => false

/-- Whether the unread text begins a document comment. -/
def atDocument (s : State) : Bool := s.sees "=begin" && atSpace (s.rest.drop 6)

/-- The number of characters of a blank: one, or a backslash and the newline that it hides. -/
def blankLength? : List Char → Option Nat
  | '\\' :: '\n' :: _ => some 2
  | '\\' :: '\r' :: '\n' :: _ => some 3
  | c :: _ => if isSpace c && c != '\n' then some 1 else none
  | [] => none

/-- One piece of code that begins with `c` and is not a blank. -/
def token (s : State) (c : Char) : State :=
  if c == '#' then s.lineComment
  else if c == '\n' then s.newline
  else if isDigit c then s.number 0 false
  else if c == '\x22' then s.openLiteral .string c true .tSTRING_BEG 1
  else if c == '\x27' then s.openLiteral .string c false .tSTRING_BEG 1
  else if c == '\x60' && s.expect != .definedName then s.openLiteral .command c true .tXSTRING_BEG 1
  else if c == '@' then s.atVariable
  else if c == '$' then s.globalVariable
  else if isNameStart c then s.word
  else match if s.expect == .definedName then s.operatorName? else none with
    | some named => named
    | none => s.punctuation c

/-- The diagnostics of some pieces that begin at an offset, the latest first, before others. -/
def reportPieces (s : State) (offset : Nat) (pieces : List Piece) (before : List Diagnostic) :
    List Diagnostic :=
  match pieces with
  | [] => before
  | piece :: pieces =>
    let stop := offset + byteLength piece.source
    let reported := match piece.fault? with
      | some fault => fault.diagnostic (s.spanOf offset stop) :: before
      | none => before
    s.reportPieces stop pieces reported

/-- The content of a literal as one token, unless it is empty. -/
def contentToken (s : State) (pieces : List Piece) : State :=
  let reported := { s with diagnostics := s.reportPieces s.pos pieces s.diagnostics }
  if (sourceOf pieces).isEmpty then reported
  else reported.emit .tSTRING_CONTENT (sourceOf pieces).length (valueOf pieces)

/-- The closing quote of a literal, and the options of a regular expression. -/
def closeLiteral (s : State) (l : Literal) : State :=
  let closed := { s with modes := s.modes.tail }.emitThen .tSTRING_END 1 .operator
  if l.form = .regexp then
    closed.emitSpelt .tREGEXP_OPT (closed.rest.takeWhile isLower).length
  else closed

/-- The mark that opens an interpolation. -/
def openInterpolation (s : State) : State :=
  let opened := s.emitThen .tSTRING_DBEG 2 .value
  { opened with
    modes := .interpolation :: opened.modes
    brackets := .interpolation :: opened.brackets }

end State

/-- How a step ends. -/
inductive Step where
  /-- The scan goes on. -/
  | next (s : State)
  /-- The text, or the program in it, has ended. -/
  | finish (s : State)
  /-- The scan has failed; the last diagnostic is about the failure. -/
  | fail (s : State) (fault : Fault) (span : Span)

namespace State

/-- The scan fails with a fault at a place. -/
def failAt (s : State) (fault : Fault) (span : Span) : Step :=
  .fail { s with diagnostics := fault.diagnostic span :: s.diagnostics } fault span

/-- The failure of a literal without a closing quote. -/
def unterminated (l : Literal) : Fault :=
  if l.form = .regexp then .unterminatedRegexp else .unterminatedString

/-- The content of a literal and what ends it. -/
def stepLiteral (s : State) (l : Literal) : Step :=
  let (pieces, ending) := readContent l s.rest
  match ending with
  | .close => .next ((s.contentToken pieces).closeLiteral l)
  | .interpolation => .next (s.contentToken pieces).openInterpolation
  | .endOfText =>
    let stop := s.pos + byteLength s.rest
    let reported := { s with diagnostics := s.reportPieces s.pos pieces s.diagnostics }
    reported.failAt (unterminated l) (s.spanOf l.opened stop)

/-- One piece of code. -/
def stepCode (s : State) : Step :=
  if s.atLineStart && s.atEndMarker then .finish s
  else if s.atLineStart && s.atDocument then
    match documentLength? s.rest with
    | some n => .next (s.comment n (s.rest.take n))
    | none => s.failAt .unterminatedDocument (s.spanOfNext s.rest.length)
  else match s.rest with
    | [] => .finish s
    | c :: _ => match blankLength? s.rest with
      | some n => .next (s.blank n)
      | none => .next (s.token c)

/-- One step: inside a literal, or in code. -/
def step (s : State) : Step :=
  match s.modes with
  | .literal l :: _ => s.stepLiteral l
  | _ => s.stepCode

/-! ## §4. The whole text. -/

/-- Where the nesting became too deep: from the last token on. -/
def deepSpan (s : State) : Span :=
  s.spanOf ((s.tokens.head?.map (·.span.start)).getD s.pos) s.pos

/-- Steps until the text ends or the scan fails.  A step that consumed nothing would end the scan
too. -/
def run (s : State) : Step :=
  match s.step with
  | .next s' =>
    if s'.depth + s'.blocks > maxNesting then s'.failAt .nestingTooDeep s'.deepSpan
    else if _h : s'.rest.length < s.rest.length then s'.run
    else .finish s'
  | ended => ended
termination_by s.rest.length

/-- Where the innermost literal that is still open begins. -/
def openedAt (s : State) : Nat :=
  (s.modes.findSome? fun
    | .literal l => some l.opened
    | .interpolation => none).getD s.pos

/-- At the end of the text no literal may be open. -/
def conclude (s : State) : Step :=
  if s.modes.isEmpty then .finish s
  else s.failAt .unterminatedString (s.spanOf s.openedAt s.pos)

end State

end Lexer

/-! ## §5. Reading a text. -/

/-- The tokens and comments of a text, in order, and the offset at which the program ends. -/
structure Lexed where
  tokens : List Token
  comments : List Comment
  stop : Nat
deriving DecidableEq, Repr

/-- The tokens of a text or the reason why there are none, and the diagnostics in the order of
their reporting. -/
def lex (text : String) : Except Abort Lexed × List Diagnostic :=
  let ended := match (Lexer.State.start text.toList).run with
    | .finish s => s.conclude
    | ended => ended
  match ended with
  | .next s | .finish s =>
    (.ok ⟨s.tokens.reverse, s.comments.reverse, s.pos⟩, s.diagnostics.reverse)
  | .fail s fault span => (.error ⟨fault.message, some span⟩, s.diagnostics.reverse)

end RubySyntax.Token
