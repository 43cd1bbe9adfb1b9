/-
  RubySyntax.Token
  ────────────────
  **TOKENS.**

  A token is a kind, a value and a place.  The value is what the token means rather than how it
  is spelt: the content of a string with its escapes resolved, the name of a symbol without its
  colon, of a label without its colon, of an assignment operator without its equals sign.
-/
import RubySyntax.Span
import RubySyntax.Token.Kind

namespace RubySyntax

/-- A token and where it stands. -/
structure Token where
  kind : Token.Kind
  value : String
  span : Span
deriving DecidableEq, Repr

end RubySyntax
