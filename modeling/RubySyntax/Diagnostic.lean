/-
  RubySyntax.Diagnostic
  ─────────────────────
  **DIAGNOSTICS.**

  A diagnostic is a message about a place in a source, with a level.  Errors and fatal errors
  make the source invalid; notes and warnings do not.
-/
import RubySyntax.Span

namespace RubySyntax

/-- How grave a diagnostic is. -/
inductive Level where
  /-- For information. -/
  | note
  /-- Valid, but probably not what was meant. -/
  | warning
  /-- Invalid; reading went on. -/
  | error
  /-- Invalid; reading stopped. -/
  | fatal
deriving DecidableEq, Repr

namespace Level

/-- Whether a diagnostic of this level makes the source invalid. -/
def isError : Level → Bool
  | .error | .fatal => true
  | .note | .warning => false

/-- The word for a level. -/
def name : Level → String
  | .note => "note"
  | .warning => "warning"
  | .error => "error"
  | .fatal => "fatal"

/-- All levels, the mildest first. -/
def all : List Level := [.note, .warning, .error, .fatal]

/-- The level of a word. -/
def ofName? (word : String) : Option Level := all.find? fun l => l.name == word

end Level

/-- A message about a place in a source. -/
structure Diagnostic where
  level : Level
  message : String
  span : Span
deriving DecidableEq, Repr

namespace Diagnostic

/-- Whether the diagnostic makes the source invalid. -/
def isError (d : Diagnostic) : Bool := d.level.isError

/-- The diagnostic on one line: place, level, message. -/
def display (d : Diagnostic) : String := s!"{d.span.display}: {d.level.name}: {d.message}"

/-- By the offset at which they begin; equal offsets keep their order. -/
def sortByStart (ds : List Diagnostic) : List Diagnostic :=
  ds.mergeSort fun a b => a.span.start ≤ b.span.start

end Diagnostic

/-- Why a source has no tree: a message, and the place if there is one. -/
structure Abort where
  message : String
  span? : Option Span
deriving DecidableEq, Repr

end RubySyntax
