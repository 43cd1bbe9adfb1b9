/-
  RubySyntax.Source.Contents
  ──────────────────────────
  **WHAT BYTES SAY.**

  Reading the bytes of a source never fails for the caller: what is wrong with them is part of
  the result.  Bytes without a text give a failure of the encoding and no diagnostics; a text
  without a tree gives a failure of the syntax and the diagnostics; else there is a tree.
-/
import RubySyntax.Dialect
import RubySyntax.Source.Encoding

namespace RubySyntax.Source

/-- Why a source has no tree. -/
inductive Failure where
  /-- The bytes have no text in an encoding. -/
  | undecoded (encoding message : String)
  /-- The text makes no sense. -/
  | aborted (abort : Abort)
deriving DecidableEq, Repr

namespace Failure

/-- The report. -/
def message : Failure → String
  | .undecoded _ message => message
  | .aborted abort => abort.message

/-- Whether the bytes have no text. -/
def isEncoding : Failure → Bool
  | .undecoded _ _ => true
  | .aborted _ => false

/-- The failure to decode. -/
def ofDecodeError (e : DecodeError) : Failure := .undecoded e.encoding e.message

end Failure

/-- What the bytes of a source say. -/
structure Contents where
  /-- The text; where the encoding failed, one in which characters may be replaced. -/
  text : String
  /-- The encoding, unless it failed. -/
  encoding? : Option Encoding
  tree? : Option Node
  comments : List Comment
  tokens : List Token
  diagnostics : List Diagnostic
  failure? : Option Failure

namespace Contents

/-- Contents without a tree. -/
def failed (text : String) (encoding? : Option Encoding) (diagnostics : List Diagnostic)
    (failure : Failure) : Contents :=
  ⟨text, encoding?, none, [], [], diagnostics, some failure⟩

/-- Whether there is neither a failure nor a diagnostic about an error. -/
def isValid (c : Contents) : Bool := c.failure?.isNone && !c.diagnostics.any (·.isError)

/-- What bytes say in a dialect, under a name for reports and with a default encoding. -/
def read (d : Dialect) (name : String) (default? : Option String) (raw : List UInt8) : Contents :=
  match decode raw default? with
  | .error e => failed (String.ofList (readLossy raw)) none [] (.ofDecodeError e)
  | .ok (text, encoding) =>
    match d.read name text with
    | (.ok p, found) => ⟨text, some encoding, some p.tree, p.comments, p.tokens, found, none⟩
    | (.error abort, found) => failed text (some encoding) found (.aborted abort)

end Contents

end RubySyntax.Source
