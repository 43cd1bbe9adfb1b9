/-
  RubySyntax.Program
  ──────────────────
  **FROM TEXT TO TREE.**

  Reading a program takes three steps: the text is split into tokens, the tokens are read by the
  grammar, and the bare names of the tree are resolved.  A program that cannot be read is
  reported at the token at which it stops making sense, or at the end of its text.

  Diagnostics come in the order of their places, except where the text could not be split into
  tokens: then they come in the order in which they were found.
-/
import RubySyntax.Token.Lexer
import RubySyntax.Grammar.Program
import RubySyntax.Node.Scope
import RubySyntax.Node.Warning
import RubySyntax.Text.Lines

namespace RubySyntax

/-- What a text says: its tree, comments and tokens. -/
structure Program where
  tree : Node
  comments : List Comment
  tokens : List Token

namespace Program

/-! ## §1. Faults. -/

/-- Where tokens stop making sense. -/
inductive Fault where
  /-- At a token. -/
  | token (t : Token)
  /-- At the end of the text, an empty place. -/
  | finish (span : Span)

/-- The report. -/
def Fault.message : Fault → String
  | .token t => s!"unexpected token {t.kind.tag}"
  | .finish _ => "unexpected token $end"

/-- The place. -/
def Fault.span : Fault → Span
  | .token t => t.span
  | .finish span => span

/-- The empty place after the last byte of a text: its line is one more than the newlines, its
column counts the bytes after the last of them. -/
def endOf (text : String) : Span :=
  let chars := text.toList
  let size := Text.byteLength chars
  let lastLine := (chars.reverse.takeWhile (· != '\n')).reverse
  ⟨size, size, chars.count '\n' + 1, Text.byteLength lastLine⟩

/-- The fault at an index of the tokens of a text. -/
def faultAt (tokens : List Token) (text : String) (i : Nat) : Fault :=
  match tokens[i]? with
  | some t => .token t
  | none => .finish (endOf text)

/-! ## §2. Reading. -/

/-- The tree of a program without statements. -/
def empty : Node := .mk .sequence [] ⟨0, 0, 1, 0⟩

/-- The tree of the tokens of a text, with its names resolved. -/
def treeOf (tokens : List Token) (version : Version) (text : String) : Except Fault Node :=
  match Grammar.readProgram tokens version with
  | .ok root => .ok (root.getD empty).resolve
  | .error i => .error (faultAt tokens text i)

/-- A result or the reason why there is none, and what there is to report. -/
abbrev Reported (α : Type) := Except Abort α × List Diagnostic

/-- Read a program in a version of the language. -/
def read (version : Version) (text : String) : Reported Program :=
  match Token.lex text with
  | (.error abort, found) => (.error abort, found)
  | (.ok lexed, found) =>
    match treeOf lexed.tokens version text with
    | .error fault =>
      (.error ⟨fault.message, some fault.span⟩,
        Diagnostic.sortByStart (found ++ [⟨.error, fault.message, fault.span⟩]))
    | .ok tree =>
      (.ok ⟨tree, lexed.comments, lexed.tokens⟩, Diagnostic.sortByStart (found ++ tree.warnings))

end Program

end RubySyntax
