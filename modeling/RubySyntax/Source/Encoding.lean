/-
  RubySyntax.Source.Encoding
  ──────────────────────────
  **FROM BYTES TO TEXT.**

  The bytes of a source may name their encoding in a comment on the first line, or on the second
  when the first begins with `#!`.  That name comes first, the caller's default second, UTF-8
  last.  A byte-order mark at the beginning is dropped.  Decoding fails when the name is unknown,
  or at the first byte that cannot be read; the report gives its offset.
-/
import RubySyntax.Text.Letters

namespace RubySyntax.Source

/-- The encodings that can be read. -/
inductive Encoding where
  /-- One to four bytes a character. -/
  | utf8
  /-- The bytes below 128, each one a character. -/
  | usAscii
  /-- Every byte one character. -/
  | binary
  /-- Every byte the character of the same number. -/
  | latin1
deriving DecidableEq, Repr

/-! ## §1. Names. -/

namespace Encoding

/-- The encoding of a name, in either case and with the usual other names. -/
def ofName? (name : String) : Option Encoding :=
  match String.ofList (name.toList.map Text.lowerCase) with
  | "utf-8" | "utf8" => some .utf8
  | "us-ascii" | "ascii" | "ansi_x3.4-1968" | "646" => some .usAscii
  | "ascii-8bit" | "binary" => some .binary
  | "iso-8859-1" | "iso8859-1" | "latin1" | "latin-1" => some .latin1
  | _ => none

/-- The canonical name. -/
def name : Encoding → String
  | .utf8 => "UTF-8"
  | .usAscii => "US-ASCII"
  | .binary => "ASCII-8BIT"
  | .latin1 => "ISO-8859-1"

end Encoding

/-! ## §2. Reading UTF-8. -/

/-- Whether a byte lies between two bounds, both included. -/
def inRange (low high b : UInt8) : Bool := low ≤ b && b ≤ high

/-- The payload of a continuation byte. -/
def payload (b : UInt8) : Nat := b.toNat % 64

/-- A byte that continues a character. -/
def isContinuation (b : UInt8) : Bool := inRange 0x80 0xBF b

/-- Whether `b` may come second after the first byte `a`: a continuation byte with which the
character needs all its bytes, is no surrogate, and is not past the last code point. -/
def isSecond (a b : UInt8) : Bool :=
  if a == 0xE0 then inRange 0xA0 0xBF b
  else if a == 0xED then inRange 0x80 0x9F b
  else if a == 0xF0 then inRange 0x90 0xBF b
  else if a == 0xF4 then inRange 0x80 0x8F b
  else isContinuation b

/-- The first character of some bytes in UTF-8, and the bytes after it. -/
def nextChar? : List UInt8 → Option (Char × List UInt8)
  | [] => none
  | a :: rest =>
    if a < 0x80 then some (Char.ofNat a.toNat, rest)
    else if inRange 0xC2 0xDF a then
      match rest with
      | b :: rest =>
        if isSecond a b then some (Char.ofNat ((a.toNat % 32) * 64 + payload b), rest) else none
      | [] => none
    else if inRange 0xE0 0xEF a then
      match rest with
      | b :: c :: rest =>
        if isSecond a b && isContinuation c then
          some (Char.ofNat ((a.toNat % 16) * 4096 + payload b * 64 + payload c), rest)
        else none
      | _ => none
    else if inRange 0xF0 0xF4 a then
      match rest with
      | b :: c :: d :: rest =>
        if isSecond a b && isContinuation c && isContinuation d then
          some (Char.ofNat
            ((a.toNat % 8) * 262144 + payload b * 4096 + payload c * 64 + payload d), rest)
        else none
      | _ => none
    else none

theorem length_lt_of_nextChar? {bytes rest : List UInt8} {c : Char}
    (h : nextChar? bytes = some (c, rest)) : rest.length < bytes.length := by
  unfold nextChar? at h
  repeat' split at h
  all_goals simp only [Option.some.injEq, Prod.mk.injEq, reduceCtorEq] at h
  all_goals obtain ⟨_, rfl⟩ := h
  all_goals simp only [List.length_cons]
  all_goals omega

/-- The text of some bytes in UTF-8, or the offset at which they cannot be read further. -/
def readUtf8 (offset : Nat) (bytes : List UInt8) : Except Nat (List Char) :=
  if bytes.isEmpty then .ok []
  else match _h : nextChar? bytes with
    | none => .error offset
    | some (c, rest) => (readUtf8 (offset + c.utf8Size) rest).map (c :: ·)
termination_by bytes.length
decreasing_by exact length_lt_of_nextChar? _h

/-- The text of bytes below 128, or the offset of the first larger one. -/
def readAscii (offset : Nat) : List UInt8 → Except Nat (List Char)
  | [] => .ok []
  | b :: rest =>
    if b < 0x80 then (readAscii (offset + 1) rest).map (Char.ofNat b.toNat :: ·)
    else .error offset

/-- The text in which every byte is the character of its number. -/
def readBytes (bytes : List UInt8) : List Char := bytes.map fun b => Char.ofNat b.toNat

/-- The text of some bytes in an encoding, or the offset of the first fault. -/
def Encoding.read : Encoding → List UInt8 → Except Nat (List Char)
  | .utf8, bytes => readUtf8 0 bytes
  | .usAscii, bytes => readAscii 0 bytes
  | .binary, bytes | .latin1, bytes => .ok (readBytes bytes)

/-- How many bytes at the beginning of bytes that are no character belong together: a first byte
and the bytes that may follow it, or one byte. -/
def faultLength : List UInt8 → Nat
  | a :: b :: rest =>
    let more := if inRange 0xF0 0xF4 a then 1 else 0
    if inRange 0xE0 0xF4 a && isSecond a b then
      2 + ((rest.take more).takeWhile isContinuation).length
    else 1
  | _ => 1

/-- The character that stands for bytes that cannot be read. -/
def replacement : Char := '\uFFFD'

/-- The text of some bytes in UTF-8, whatever they are: bytes that belong together but are no
character are replaced. -/
def readLossy (bytes : List UInt8) : List Char :=
  match _h : bytes with
  | [] => []
  | b :: rest => match _h : nextChar? (b :: rest) with
    | some (c, rest) => c :: readLossy rest
    | none => replacement :: readLossy (rest.drop (faultLength (b :: rest) - 1))
termination_by bytes.length
decreasing_by
  · exact length_lt_of_nextChar? _h
  · simp only [List.length_drop, List.length_cons]; omega

/-! ## §3. The comment that names an encoding. -/

/-- The bytes without a byte-order mark at their beginning. -/
def dropByteOrderMark : List UInt8 → List UInt8
  | 0xEF :: 0xBB :: 0xBF :: rest => rest
  | bytes => bytes

/-- A character of an encoding's name, as a byte. -/
def isNameByte (b : UInt8) : Bool :=
  let c := Char.ofNat b.toNat
  Text.isLetter c || Text.isDigit c || c == '_' || c == '.' || c == '-'

/-- The bytes of an ASCII text. -/
def asciiBytes (text : String) : List UInt8 := text.toList.map fun c => UInt8.ofNat c.toNat

/-- The name that follows right after the word `coding`: a colon or an equals sign, blanks, and
the name. -/
def nameAfterCoding? (line : List UInt8) : Option (List UInt8) :=
  match line with
  | mark :: rest =>
    if mark == 0x3A || mark == 0x3D then
      let name := (rest.dropWhile fun b => b == 0x20 || b == 0x09).takeWhile isNameByte
      if name.isEmpty then none else some name
    else none
  | [] => none

/-- The name after the last place in the line where `coding` introduces one. -/
def lastCoding? : List UInt8 → Option (List UInt8)
  | [] => none
  | b :: rest =>
    match lastCoding? rest with
    | some name => some name
    | none =>
      let word := asciiBytes "coding"
      if word.isPrefixOf (b :: rest) then nameAfterCoding? ((b :: rest).drop word.length) else none

/-- The bytes of the first line, and those after its newline if it has one. -/
def firstLine (bytes : List UInt8) : List UInt8 × Option (List UInt8) :=
  match bytes.dropWhile (· != 0x0A) with
  | [] => (bytes, none)
  | _ :: rest => (bytes.takeWhile (· != 0x0A), some rest)

/-- The line that may name the encoding: the first, or the second after a `#!` line. -/
def magicLine? (bytes : List UInt8) : Option (List UInt8) :=
  let (first, rest) := firstLine bytes
  if (asciiBytes "#!").isPrefixOf first then rest.map fun bytes => (firstLine bytes).1
  else some first

/-- The encoding's name as a comment of the source gives it. -/
def magicComment? (raw : List UInt8) : Option String :=
  match magicLine? (dropByteOrderMark raw) with
  | some (0x23 :: line) => (lastCoding? line).map fun name => String.ofList (readBytes name)
  | _ => none

/-! ## §4. Decoding a source. -/

/-- Why some bytes have no text. -/
inductive DecodeError where
  /-- No encoding has this name. -/
  | unknownName (name : String)
  /-- The bytes cannot be read at this offset. -/
  | invalidBytes (encoding : Encoding) (offset : Nat)
deriving DecidableEq, Repr

/-- The name of the encoding that the failure is about. -/
def DecodeError.encoding : DecodeError → String
  | .unknownName name => name
  | .invalidBytes encoding _ => encoding.name

/-- The report of a failure. -/
def DecodeError.message : DecodeError → String
  | .unknownName name => s!"unknown encoding name - {name}"
  | .invalidBytes encoding offset =>
    s!"invalid byte sequence in {encoding.name} at offset {offset}"

/-- The encoding of a source: by its own comment, else by the default, else UTF-8. -/
def encodingOf (raw : List UInt8) (default? : Option String) : Except DecodeError Encoding :=
  match (magicComment? raw).or default? with
  | none => .ok .utf8
  | some name => match Encoding.ofName? name with
    | some encoding => .ok encoding
    | none => .error (.unknownName name)

/-- The text of a source and its encoding. -/
def decode (raw : List UInt8) (default? : Option String) :
    Except DecodeError (String × Encoding) := do
  let encoding ← encodingOf raw default?
  match encoding.read (dropByteOrderMark raw) with
  | .ok text => return (String.ofList text, encoding)
  | .error offset => throw (.invalidBytes encoding offset)

end RubySyntax.Source
