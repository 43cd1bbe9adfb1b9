/-
  RubySyntax.Version
  ──────────────────
  **VERSIONS OF THE LANGUAGE.**

  A version is a major and a minor number, ordered by the major one first.  Syntax came to the
  language over time: each `Feature` names the version that brought it, and a version has the
  features of all versions up to it.
-/
import RubySyntax.Text.Letters

namespace RubySyntax

/-- A version of the language. -/
structure Version where
  /-- The number before the point. -/
  major : Nat
  /-- The number after the point. -/
  minor : Nat
deriving DecidableEq, Repr

namespace Version

/-! ## §1. Order. -/

/-- By the major number, then by the minor one. -/
def compare (a b : Version) : Ordering :=
  (Ord.compare a.major b.major).then (Ord.compare a.minor b.minor)

/-- Whether `a` is `b` or came later. -/
def atLeast (a b : Version) : Bool :=
  b.major < a.major || (a.major == b.major && b.minor ≤ a.minor)

/-- The released versions that have been described, oldest first. -/
def known : List Version :=
  [⟨2, 0⟩, ⟨2, 1⟩, ⟨2, 2⟩, ⟨2, 3⟩, ⟨2, 4⟩, ⟨2, 5⟩, ⟨2, 6⟩, ⟨2, 7⟩, ⟨3, 0⟩, ⟨3, 1⟩, ⟨3, 2⟩, ⟨3, 3⟩,
    ⟨3, 4⟩]

/-- The newest version described. -/
def latest : Version := ⟨3, 4⟩

instance : Inhabited Version := ⟨latest⟩

/-! ## §2. Features. -/

/-- Syntax that some versions lack. -/
inductive Feature where
  /-- A range without an upper bound. -/
  | endlessRanges
  /-- A range without a lower bound. -/
  | beginlessRanges
  /-- The implicit block parameters `_1` to `_9`. -/
  | numberedParameters
  /-- Three dots as a parameter list and as its argument. -/
  | argumentForwarding
  /-- `case` with `in` clauses. -/
  | patternMatching
  /-- A method definition with an equals sign and no `end`. -/
  | endlessMethods
  /-- An expression followed by an arrow and a pattern. -/
  | rightwardAssignment
  /-- A block parameter without a name. -/
  | anonymousBlock
deriving DecidableEq, Repr

/-- The version that brought a feature. -/
def Feature.since : Feature → Version
  | .endlessRanges => ⟨2, 6⟩
  | .beginlessRanges | .numberedParameters | .argumentForwarding | .patternMatching => ⟨2, 7⟩
  | .endlessMethods | .rightwardAssignment => ⟨3, 0⟩
  | .anonymousBlock => ⟨3, 1⟩

/-- Whether a version has a feature. -/
def supports (v : Version) (f : Feature) : Bool := v.atLeast f.since

/-! ## §3. Text. -/

/-- The version as `MAJOR.MINOR`. -/
def display (v : Version) : String := s!"{v.major}.{v.minor}"

/-- The value of a run of decimal digits, the first being the most significant. -/
def decimalValue (digits : List Char) : Nat :=
  digits.foldl (fun n c => n * 10 + (c.toNat - '0'.toNat)) 0

/-- A number of at most `limit`: decimal digits, at least one, perhaps after a plus sign. -/
def readNumber? (limit : Nat) (text : List Char) : Option Nat :=
  let digits := match text with
    | '+' :: rest => rest
    | _ => text
  if digits.isEmpty || !digits.all Text.isDigit then none
  else
    let value := decimalValue digits
    if value ≤ limit then some value else none

/-- The pieces of a text between its points. -/
def splitPoints : List Char → List (List Char)
  | [] => [[]]
  | c :: rest =>
    if c == '.' then [] :: splitPoints rest
    else match splitPoints rest with
      | [] => [[c]]
      | piece :: pieces => (c :: piece) :: pieces

/-- A text that names no version. -/
structure Malformed where
  /-- The text as it was given. -/
  text : String
deriving DecidableEq, Repr

/-- The report about a text that names no version. -/
def Malformed.message (e : Malformed) : String :=
  s!"invalid Ruby version \x60{e.text}\x60: expected MAJOR.MINOR"

/-- The largest major or minor number. -/
def maxPart : Nat := 255

/-- The largest patch number. -/
def maxPatch : Nat := 65535

/-- The version that the pieces between the points name: two numbers, and perhaps a patch number
that is checked and dropped. -/
def ofPieces? : List (List Char) → Option Version
  | [major, minor] => do
    let major ← readNumber? maxPart major
    let minor ← readNumber? maxPart minor
    return ⟨major, minor⟩
  | [major, minor, patch] => do
    let major ← readNumber? maxPart major
    let minor ← readNumber? maxPart minor
    let _ ← readNumber? maxPatch patch
    return ⟨major, minor⟩
  | _ => none

/-- Read `MAJOR.MINOR` or `MAJOR.MINOR.PATCH`, white space around it aside. -/
def parse (text : String) : Except Malformed Version :=
  match ofPieces? (splitPoints (Text.trimBoth Text.isBlank text.toList)) with
  | some v => .ok v
  | none => .error ⟨text⟩

end Version

end RubySyntax
