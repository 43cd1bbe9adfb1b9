/-
  RubySyntax.Source
  ─────────────────
  **SOURCES.**

  A source is a path, the bytes as they were given, and what they say in a version of the
  language.  Its lines end before a line `__END__` that comes after the last token; its checksum
  is that of the bytes, whether or not they could be read.
-/
import RubySyntax.Digest.Sha256
import RubySyntax.Source.Contents
import RubySyntax.Source.Convergence
import RubySyntax.Source.Directive
import RubySyntax.Source.File

namespace RubySyntax

/-- A source that has been read. -/
structure Source where
  path : String
  /-- The bytes as they were given. -/
  raw : List UInt8
  version : Version
  contents : Source.Contents

namespace Source

/-! ## §1. Opening. -/

/-- The path of a source that has none. -/
def anonymousPath : String := "(string)"

/-- A source of contents that are known. -/
def ofContents (raw : List UInt8) (version : Version) (path? : Option String)
    (contents : Contents) : Source :=
  ⟨path?.getD anonymousPath, raw, version, contents⟩

/-- A source read in a dialect. -/
def ofDialect (d : Dialect) (path? default? : Option String) (raw : List UInt8) : Source :=
  ofContents raw d.version path? (Contents.read d (path?.getD anonymousPath) default? raw)

/-- A mistake of the caller. -/
inductive OpenError where
  /-- There is no dialect of the version. -/
  | unsupported (e : Dialect.Unsupported)
  /-- The file cannot be read. -/
  | unreadable (path : String) (fault : FileFault)
deriving DecidableEq, Repr

/-- The report. -/
def OpenError.message : OpenError → String
  | .unsupported e => e.message
  | .unreadable path fault => s!"cannot read {path}: {fault.message}"

/-- A source read in the standard dialect of a version. -/
def read (version : Version) (path? default? : Option String) (raw : List UInt8) :
    Except OpenError Source :=
  match Dialect.Registry.standard.resolve version with
  | .ok d => .ok (ofDialect d path? default? raw)
  | .error e => .error (.unsupported e)

/-- A source read from a file. -/
def openFile (files : FileSystem) (version : Version) (path : String) :
    Except OpenError Source :=
  match files path with
  | .ok raw => read version (some path) none raw
  | .error fault => .error (.unreadable path fault)

/-! ## §2. Lines. -/

/-- The line after which nothing is read. -/
def dataMarker : String := "__END__"

/-- The line of the last token. -/
def lastTokenLine? (s : Source) : Option Nat := s.contents.tokens.getLast?.map (·.span.line)

/-- The lines of the text with their terminators. -/
def rawLines (s : Source) : List String := Text.rawLines s.contents.text

/-- The lines without their terminators, up to a data marker after the last token. -/
def lines (s : Source) : List String :=
  let all := Text.logicalLines s.contents.text
  let read := s.lastTokenLine?.getD all.length
  all.take read ++ (all.drop read).takeWhile (· != dataMarker)

/-- The line of a number, from one. -/
def line? (s : Source) (n : Nat) : Option String := if n == 0 then none else s.lines[n - 1]?

/-- The lines from an index up to, not including, another, if the indices are in order and in
bounds. -/
def slice? (s : Source) (start stop : Nat) : Option (List String) :=
  let lines := s.lines
  if start ≤ stop && stop ≤ lines.length then some ((lines.take stop).drop start) else none

/-! ## §3. Views. -/

/-- Whether there is neither a failure nor a diagnostic about an error. -/
def isValid (s : Source) : Bool := s.contents.isValid

/-- The checksum of the bytes. -/
def checksum (s : Source) : String := Digest.Sha256.hex s.raw

/-- The rules that comments switch off, and on which lines. -/
def disabledRanges (s : Source) : RuleRanges := disabledRangesOf s.contents.comments s.lines

/-- The rules that are off by another rule than that of directives, given comments and lines. -/
def disabledRangesBy (s : Source) (resolve : List Comment → List String → RuleRanges) :
    RuleRanges :=
  resolve s.contents.comments s.lines

/-- What the source is as a pass of correction. -/
def pass (s : Source) (claimed : Bool) : Pass :=
  ⟨s.checksum, claimed, s.contents.diagnostics⟩

end Source

end RubySyntax
