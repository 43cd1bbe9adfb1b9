/-
  RubySyntax.Token.Lexer.State
  ────────────────────────────
  **WHAT THE SCAN KNOWS.**

  The language cannot be split into tokens without context: a minus after a blank is an operator
  or a sign, a question mark opens a conditional or a character, depending on what came before.
  The state of the scan holds the text not yet read, what kind of token is expected next, the
  brackets and literals that are open, and the tokens, comments and diagnostics so far.

  Text is consumed by `advance` alone, so a token, a comment or a blank always takes the
  characters at the front, in order.  An offset moves by what is asked for, whether or not it is
  there, so reading past the end of the text would leave the scan at an offset past that end.
-/
import RubySyntax.Comment
import RubySyntax.Diagnostic
import RubySyntax.Token
import RubySyntax.Token.Fault
import RubySyntax.Token.Lexer.Escape
import RubySyntax.Text.Lines

namespace RubySyntax.Token.Lexer

open RubySyntax.Text

/-! ## §1. Context. -/

/-- What the next token may be. -/
inductive Expect where
  /-- An expression begins. -/
  | value
  /-- An expression may begin, but a newline ends the statement. -/
  | valueOrEnd
  /-- The arguments of the name before may begin. -/
  | argument
  /-- A value is complete. -/
  | operator
  /-- The name of a method that is called. -/
  | method
  /-- The name of a method that is defined, renamed or removed. -/
  | definedName
deriving DecidableEq, Repr

/-- What is being read: the content of a literal, or code inside an interpolation. -/
inductive Mode where
  | literal (l : Literal)
  | interpolation
deriving DecidableEq, Repr

/-- An open bracket; an interpolation counts as one. -/
inductive Bracket where
  | paren | square | brace | interpolation
deriving DecidableEq, Repr

/-- Which statement the expected method name belongs to. -/
inductive Naming where
  | definition
  | aliasNew
  | aliasOld
  | undefinition
deriving DecidableEq, Repr

/-- The parameter list that is open, and the number of brackets around it. -/
inductive Params where
  | none
  | definition (depth : Nat)
  | block (depth : Nat)
  | lambda (depth : Nat)
deriving DecidableEq, Repr

/-! ## §2. The state. -/

/-- The state of the scan. -/
structure State where
  /-- Where the lines of the whole text begin. -/
  lines : LineTable
  /-- The text not yet read. -/
  rest : List Char
  /-- The offset at which `rest` begins. -/
  pos : Nat
  /-- Whether `rest` begins a line. -/
  atLineStart : Bool
  /-- What is expected next. -/
  expect : Expect
  /-- Whether a blank stands between the last token and `rest`. -/
  spaced : Bool
  /-- The literals and interpolations that are open, innermost first. -/
  modes : List Mode
  /-- The brackets that are open, innermost first. -/
  brackets : List Bracket
  /-- The statement whose method name is expected. -/
  naming : Option Naming
  /-- The parameter list that is open. -/
  params : Params
  /-- The bracket depth of a loop's header, whose `do` belongs to the loop. -/
  loopAt : Option Nat
  /-- The bracket depth of a lambda's parameters, whose `do` or brace belongs to the lambda. -/
  lambdaAt : Option Nat
  /-- The bracket depths of the conditional operators that wait for a colon, innermost first. -/
  ternaries : List Nat
  /-- How many blocks wait for an `end`.  A method definition is not counted. -/
  blocks : Nat
  /-- The names that have been assigned or bound. -/
  locals : List String
  /-- The tokens, latest first. -/
  tokens : List Token
  /-- The comments, latest first. -/
  comments : List Comment
  /-- The diagnostics, latest first. -/
  diagnostics : List Diagnostic

namespace State

/-- The state before a text. -/
def start (text : List Char) : State where
  lines := LineTable.ofChars text
  rest := text
  pos := 0
  atLineStart := true
  expect := .value
  spaced := false
  modes := []
  brackets := []
  naming := none
  params := .none
  loopAt := none
  lambdaAt := none
  ternaries := []
  blocks := 0
  locals := []
  tokens := []
  comments := []
  diagnostics := []

/-! ## §3. Looking. -/

/-- How many brackets are open. -/
def depth (s : State) : Nat := s.brackets.length

/-- Whether an expression may begin. -/
def beginsValue (s : State) : Bool := s.expect == .value || s.expect == .valueOrEnd

/-- Whether the unread text begins with a spelling. -/
def sees (s : State) (spelling : String) : Bool := spelling.toList.isPrefixOf s.rest

/-- A character that ends a word: a blank or a newline of ASCII. -/
def isSpace (c : Char) : Bool :=
  c == ' ' || c == '\t' || c == '\n' || c == '\r' || c == '\x0b' || c == '\x0c'

/-- Whether a blank, or nothing, follows. -/
def atSpace (cs : List Char) : Bool := cs.isEmpty || nextIs isSpace cs

/-- Whether an operator of `n` characters stands where an argument may begin: a blank before it,
none after it. -/
def marksArgument (s : State) (n : Nat) : Bool :=
  s.expect == .argument && s.spaced && !atSpace (s.rest.drop n)

/-- The kind of the last token. -/
def lastKind (s : State) : Option Kind := s.tokens.head?.map (·.kind)

/-- The place between two offsets. -/
def spanOf (s : State) (start stop : Nat) : Span :=
  let (line, column) := s.lines.lineCol start
  ⟨start, stop, line, column⟩

/-- The number of bytes of the next `n` characters.  One that is not there counts as one byte. -/
def bytesOfNext (s : State) (n : Nat) : Nat :=
  let lexeme := s.rest.take n
  byteLength lexeme + (n - lexeme.length)

/-- The place of the next `n` characters. -/
def spanOfNext (s : State) (n : Nat) : Span :=
  s.spanOf s.pos (s.pos + s.bytesOfNext n)

/-! ## §4. Consuming. -/

/-- Past the next `n` characters. -/
def advance (s : State) (n : Nat) : State :=
  let lexeme := s.rest.take n
  { s with
    rest := s.rest.drop n
    pos := s.pos + s.bytesOfNext n
    atLineStart := (lexeme.getLast?.map (· == '\n')).getD s.atLineStart }

/-- Past `n` characters that separate tokens. -/
def blank (s : State) (n : Nat) : State := { s.advance n with spaced := true }

/-- How a token changes the number of blocks that wait for an `end`. -/
def countBlocks (kind : Kind) (blocks : Nat) : Nat :=
  match kind with
  | .kCLASS | .kMODULE | .kBEGIN | .kCASE | .kWHILE | .kUNTIL | .kIF | .kUNLESS | .kFOR | .kDO
  | .kDO_LAMBDA => blocks + 1
  | .kEND => blocks - 1
  | _ => blocks

/-- A token of the next `n` characters, with a value. -/
def emit (s : State) (kind : Kind) (n : Nat) (value : List Char) : State :=
  { s.advance n with
    tokens := ⟨kind, String.ofList value, s.spanOfNext n⟩ :: s.tokens
    blocks := countBlocks kind s.blocks
    spaced := false }

/-- A token of the next `n` characters, spelt as it stands. -/
def emitSpelt (s : State) (kind : Kind) (n : Nat) : State := s.emit kind n (s.rest.take n)

/-- A token of the next `n` characters, after which something is expected. -/
def emitThen (s : State) (kind : Kind) (n : Nat) (expect : Expect) : State :=
  { s.emitSpelt kind n with expect }

/-- An operator of `n` characters; an expression begins after it. -/
def operator (s : State) (kind : Kind) (n : Nat) : State := s.emitThen kind n .value

/-- An assignment operator of `n` characters; its value leaves out the equals sign. -/
def assignment (s : State) (n : Nat) : State :=
  { s.emit .tOP_ASGN n (s.rest.take (n - 1)) with expect := .value }

/-- A comment of the next `n` characters, with a text. -/
def comment (s : State) (n : Nat) (text : List Char) : State :=
  { s.advance n with comments := ⟨String.ofList text, s.spanOfNext n⟩ :: s.comments }

/-- A diagnostic about the next `n` characters. -/
def report (s : State) (fault : Fault) (n : Nat) : State :=
  { s with diagnostics := fault.diagnostic (s.spanOfNext n) :: s.diagnostics }

/-- Past `n` characters that are no token, with a diagnostic about them. -/
def reject (s : State) (fault : Fault) (n : Nat) : State := (s.report fault n).advance n

/-! ## §5. Changes of context. -/

/-- After a newline or a semicolon that ends a statement. -/
def endStatement (s : State) : State :=
  { s with
    expect := .value
    loopAt := if s.loopAt == some s.depth then none else s.loopAt
    params := if s.params == .definition s.depth then .none else s.params
    naming := if s.naming == some .undefinition then none else s.naming }

/-- After a method name that was expected as such. -/
def endName (s : State) : State :=
  match s.naming with
  | some .definition => { s with naming := none, params := .definition s.depth, expect := .argument }
  | some .aliasNew => { s with naming := some .aliasOld, expect := .definedName }
  | some .aliasOld => { s with naming := none, expect := .operator }
  | some .undefinition => { s with expect := .operator }
  | none => { s with expect := .argument }

/-- After a name that is complete, or a method name if one was expected before. -/
def endWord (before after : State) : State :=
  if before.expect == .definedName then after.endName else { after with expect := .operator }

/-- Without the parameters of a definition at the present depth. -/
def closeDefinition (s : State) : State :=
  if s.params == .definition s.depth then { s with params := .none } else s

/-- Without the parameters of a lambda, which its body ends. -/
def closeLambda (s : State) : State :=
  { s with
    lambdaAt := none
    params := match s.params with
      | .lambda _ => .none
      | params => params }

end State

end RubySyntax.Token.Lexer
