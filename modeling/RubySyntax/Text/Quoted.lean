/-
  RubySyntax.Text.Quoted
  ──────────────────────
  **QUOTED STRINGS.**

  A quoted string stands between double quotes.  The quote, the backslash and the four controls
  tab, return, newline and NUL have short escapes; a character without a glyph of its own, and
  one that extends the character before it, is written by its code point in base sixteen.
-/
import RubySyntax.Text.Letters

namespace RubySyntax.Text

/-- The digits of a number in base sixteen, small letters, no leading zero. -/
def hexDigits (n : Nat) : List Char := Nat.toDigits 16 n

/-- A character by its code point in base sixteen. -/
def codePoint (c : Char) : List Char :=
  ['\\', 'u', '\x7b'] ++ hexDigits c.toNat ++ ['\x7d']

/-- A character as it stands in a quoted string. -/
def quoteChar (c : Char) : List Char :=
  if c == '\x00' then ['\\', '0']
  else if c == '\t' then ['\\', 't']
  else if c == '\r' then ['\\', 'r']
  else if c == '\n' then ['\\', 'n']
  else if c == '\\' || c == '\x22' then ['\\', c]
  else if isEscaped c then codePoint c
  else [c]

/-- A text between double quotes, with escapes. -/
def quote (text : String) : String :=
  String.ofList ('\x22' :: text.toList.flatMap quoteChar ++ ['\x22'])

end RubySyntax.Text
