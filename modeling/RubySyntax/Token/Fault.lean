/-
  RubySyntax.Token.Fault
  ──────────────────────
  **WHAT CAN BE WRONG WITH A TOKEN.**

  Four faults end the scan.  The others are reported and the scan goes on: errors where the text
  is wrong, warnings where an operator was taken for the beginning of an argument.
-/
import RubySyntax.Diagnostic
import RubySyntax.Text.Quoted

namespace RubySyntax.Token

/-- The greatest number of brackets and blocks open at once. -/
def maxNesting : Nat := 128

/-- A fault of the text at a place. -/
inductive Fault where
  /-- A string, a command or a symbol has no closing quote. -/
  | unterminatedString
  /-- A regular expression has no closing slash. -/
  | unterminatedRegexp
  /-- A document comment has no `=end` line. -/
  | unterminatedDocument
  /-- More than `maxNesting` brackets and blocks are open. -/
  | nestingTooDeep
  /-- One at sign without a name after it. -/
  | bareInstanceVariable
  /-- Two at signs without a name after them. -/
  | bareClassVariable
  /-- A dollar sign without a name after it. -/
  | bareGlobalVariable
  /-- A character that begins no token. -/
  | unexpectedCharacter (c : Char)
  /-- The escape `\x` without a digit. -/
  | invalidHexEscape
  /-- The escape `\u` without the code point of a character. -/
  | invalidUnicodeEscape
  /-- An operator, one character, that may as well stand between two operands. -/
  | ambiguousArgument (operator : String)
  /-- A star or an ampersand taken for the mark of an argument. -/
  | argumentMark (operator : String)
deriving DecidableEq, Repr

namespace Fault

/-- How grave a fault is. -/
def level : Fault → Level
  | .unterminatedString | .unterminatedRegexp | .unterminatedDocument | .nestingTooDeep => .fatal
  | .bareInstanceVariable | .bareClassVariable | .bareGlobalVariable | .unexpectedCharacter _
  | .invalidHexEscape | .invalidUnicodeEscape => .error
  | .ambiguousArgument _ | .argumentMark _ => .warning

/-- A character in a message: the printable ones of ASCII as themselves, quotes and backslashes
after a backslash, all others by an escape. -/
def showChar (c : Char) : String := String.ofList <|
  if c == '\t' then ['\\', 't']
  else if c == '\r' then ['\\', 'r']
  else if c == '\n' then ['\\', 'n']
  else if c == '\\' || c == '\x22' || c == '\x27' then ['\\', c]
  else if ' ' ≤ c && c ≤ '~' then [c]
  else Text.codePoint c

/-- The report of a fault. -/
def message : Fault → String
  | .unterminatedString => "unterminated string meets end of file"
  | .unterminatedRegexp => "unterminated regexp meets end of file"
  | .unterminatedDocument => "embedded document meets end of file"
  | .nestingTooDeep => s!"nesting too deep (more than {maxNesting} levels)"
  | .bareInstanceVariable =>
    "\x60@' without identifiers is not allowed as an instance variable name"
  | .bareClassVariable => "\x60@@' without identifiers is not allowed as a class variable name"
  | .bareGlobalVariable => "\x60$' without identifiers is not allowed as a global variable name"
  | .unexpectedCharacter c => s!"unexpected character \x60{showChar c}'"
  | .invalidHexEscape => "invalid hex escape"
  | .invalidUnicodeEscape => "invalid Unicode escape"
  | .ambiguousArgument operator =>
    s!"ambiguous first argument; put parentheses or a space even after \x60{operator}' operator"
  | .argumentMark operator => s!"\x60{operator}' interpreted as argument prefix"

/-- The diagnostic about a fault at a place. -/
def diagnostic (f : Fault) (span : Span) : Diagnostic := ⟨f.level, f.message, span⟩

end Fault

end RubySyntax.Token
