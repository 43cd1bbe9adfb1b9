/-
  RubySyntax.Dialect
  ──────────────────
  **DIALECTS.**

  A dialect is a version of the language together with a way to read texts in it.  A registry
  holds at most one dialect for each version, oldest version first; the standard registry holds
  those of all known versions.  Asking for a version that is not there is a mistake of the
  caller, and the report names the versions that are.
-/
import Std.Data.TreeMap
import RubySyntax.Program

namespace RubySyntax

/-- A version of the language and how texts are read in it. -/
structure Dialect where
  version : Version
  /-- Read a text; its name is for reports. -/
  read : (name text : String) → Program.Reported Program

namespace Dialect

/-- The dialect of a version as its grammar has it. -/
def standard (version : Version) : Dialect := ⟨version, fun _ text => Program.read version text⟩

/-- A version for which there is no dialect, and those for which there are some. -/
structure Unsupported where
  version : Version
  supported : List Version
deriving DecidableEq, Repr

/-- The report. -/
def Unsupported.message (e : Unsupported) : String :=
  let names := e.supported.map Version.display
  let supported := if names.isEmpty then "none" else String.intercalate ", " names
  s!"unsupported Ruby version {e.version.display} (supported: {supported})"

/-- Dialects by their versions. -/
structure Registry where
  byVersion : Std.TreeMap Version Dialect Version.compare

namespace Registry

/-- No dialect. -/
def empty : Registry := ⟨∅⟩

/-- A registry with one more dialect, which replaces an earlier one of its version. -/
def register (r : Registry) (d : Dialect) : Registry := ⟨r.byVersion.insert d.version d⟩

/-- The standard dialects of all known versions. -/
def standard : Registry := Version.known.foldl (fun r v => r.register (Dialect.standard v)) empty

/-- The dialect of a version. -/
def get? (r : Registry) (v : Version) : Option Dialect := r.byVersion.get? v

/-- Whether there is a dialect of a version. -/
def contains (r : Registry) (v : Version) : Bool := r.byVersion.contains v

/-- The versions, oldest first. -/
def versions (r : Registry) : List Version := r.byVersion.keys

/-- How many dialects there are. -/
def size (r : Registry) : Nat := r.byVersion.size

/-- Whether there is none. -/
def isEmpty (r : Registry) : Bool := r.byVersion.isEmpty

/-- The dialect of a version, or the report that there is none. -/
def resolve (r : Registry) (v : Version) : Except Unsupported Dialect :=
  match r.get? v with
  | some d => .ok d
  | none => .error ⟨v, r.versions⟩

end Registry

end Dialect

end RubySyntax
