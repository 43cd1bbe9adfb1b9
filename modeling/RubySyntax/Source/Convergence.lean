/-
  RubySyntax.Source.Convergence
  ─────────────────────────────
  **WHETHER REPEATED CORRECTION COMES TO AN END.**

  A program that corrects a source reads it again after every pass.  Seeing the checksums of all
  passes, one can tell whether the text still changes, has come to rest, or has come back to
  what it was before.  What is kept of the passes is the checksum of the latest one and the set of
  those before it, so a verdict is given before the latest checksum joins the set.
-/
import RubySyntax.Diagnostic

namespace RubySyntax.Source

/-- What can be said after a pass. -/
inductive Verdict where
  /-- The text is a new one. -/
  | progress
  /-- The text has not changed, and there is nothing to report about it. -/
  | fixedPoint
  /-- The text has not changed, but there is something to report. -/
  | stalled
  /-- The text is an earlier one, or a change was claimed and there was none. -/
  | loop
deriving DecidableEq, Repr

/-- Whether another pass is of no use. -/
def Verdict.isTerminal (v : Verdict) : Bool := v != .progress

/-- What a pass has come to. -/
structure Pass where
  /-- The checksum of the source. -/
  checksum : String
  /-- Whether the pass claims to have changed the text. -/
  claimed : Bool
  /-- What there is to report about the source. -/
  diagnostics : List Diagnostic
deriving DecidableEq, Repr

/-- What is kept of the passes seen so far. -/
structure Convergence where
  /-- The checksum of the latest pass. -/
  latest? : Option String
  /-- The checksums of the passes before it, each once. -/
  earlier : List String
  /-- How many passes there were. -/
  passes : Nat
deriving DecidableEq, Repr

namespace Convergence

/-- Before the first pass. -/
def start : Convergence := ⟨none, [], 0⟩

/-- What is to be said about a pass after those before it. -/
def verdict (c : Convergence) (p : Pass) : Verdict :=
  if c.latest? == some p.checksum then
    if p.claimed then .loop else if p.diagnostics.isEmpty then .fixedPoint else .stalled
  else if c.earlier.contains p.checksum then .loop
  else .progress

/-- The history with one more pass. -/
def record (c : Convergence) (p : Pass) : Convergence where
  latest? := some p.checksum
  earlier := match c.latest? with
    | some before => c.earlier.insert before
    | none => c.earlier
  passes := c.passes + 1

/-- The verdict about a pass, and the history with it. -/
def observe (c : Convergence) (p : Pass) : Verdict × Convergence := (c.verdict p, c.record p)

/-- The verdicts about passes one after another, and the history with all of them. -/
def observeAll (c : Convergence) : List Pass → List Verdict × Convergence
  | [] => ([], c)
  | p :: ps =>
    let (v, c) := c.observe p
    let (vs, c) := c.observeAll ps
    (v :: vs, c)

end Convergence

end RubySyntax.Source
