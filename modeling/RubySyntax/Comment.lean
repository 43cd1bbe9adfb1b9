/-
  RubySyntax.Comment
  ──────────────────
  **COMMENTS.**

  A comment is a line comment, from a number sign to the end of its line, or a document, the
  lines from `=begin` to `=end`.  Its text holds the marks that open and close it.
-/
import RubySyntax.Span
import RubySyntax.Text.Letters

namespace RubySyntax

/-- A comment and where it stands. -/
structure Comment where
  /-- The text with its marks. -/
  text : String
  /-- The place in the source. -/
  span : Span
deriving DecidableEq, Repr

namespace Comment

/-- Whether a text begins with the characters of another. -/
def startsWith (text mark : String) : Bool := mark.toList.isPrefixOf text.toList

/-- Whether the comment is a document. -/
def isDocument (c : Comment) : Bool := startsWith c.text "=begin"

/-- The text without one leading number sign, and without white space at its ends. -/
def body (c : Comment) : String :=
  match c.text.toList with
  | '#' :: rest => Text.trim (String.ofList rest)
  | _ => Text.trim c.text

/-- The line on which the comment begins. -/
def line (c : Comment) : Nat := c.span.line

end Comment

end RubySyntax
