/-
  RubySyntax.Proofs.Source.Encoding
  ─────────────────────────────────
  **DECODING UNDOES ENCODING.**

  An encoding writes each character that it has with some bytes, never as the beginning of those
  of another one.  So bytes are the writing of at most one text, and a reader that goes from
  character to character finds it, or is stuck where no character is written; what it has read
  by then is the longest part at the beginning that can be read at all.  The four readers are this
  one, each with its own characters.

      read bytes = text     ⇔   bytes = bytes of the text
      read bytes = fault    ⇒   offset of the fault = length of the longest valid beginning

  The encoding of a source is named by a comment, which stands on the first line or, after a line
  for the system's shell, on the second; the byte-order mark at the beginning is dropped for the
  comment and for the text alike.

  Main results:
    • `Encoding.read_eq_ok_iff`, `Encoding.read_eq_error_iff` — reading in one encoding,
    • `magicComment?_eq` — the lines that the comment's name depends on,
    • `decode_exact` — decoding a source.
-/
import Mathlib.Data.List.TakeWhile
import RubySyntax.Proofs.Text.Utf8

namespace RubySyntax.Source

open RubySyntax.Text

/-! ## §1. Writing. -/

namespace Encoding

/-- The bytes of a character, in an encoding that has it. -/
def encodeChar? : Encoding → Char → Option (List UInt8)
  | .utf8, c => some (String.utf8EncodeChar c)
  | .usAscii, c => if c.toNat < 0x80 then some [UInt8.ofNat c.toNat] else none
  | .binary, c | .latin1, c => if c.toNat < 0x100 then some [UInt8.ofNat c.toNat] else none

/-- The bytes of a text, in an encoding that has its characters. -/
def encode? (e : Encoding) : List Char → Option (List UInt8)
  | [] => some []
  | c :: text => do return (← e.encodeChar? c) ++ (← e.encode? text)

/-- Some bytes are those of a text. -/
def Valid (e : Encoding) (bytes : List UInt8) : Prop := ∃ text, e.encode? text = some bytes

/-- The longest valid beginning of some bytes has `n` of them. -/
structure LongestValid (e : Encoding) (bytes : List UInt8) (n : Nat) : Prop where
  le : n ≤ bytes.length
  valid : e.Valid (bytes.take n)
  longest : ∀ m ≤ bytes.length, e.Valid (bytes.take m) → m ≤ n

/-- A character of an encoding is written at the beginning of some bytes. -/
def Begins (e : Encoding) (bytes : List UInt8) : Prop :=
  ∃ c front, e.encodeChar? c = some front ∧ front <+: bytes

variable {e : Encoding} {c d : Char} {text more : List Char} {bytes front rest : List UInt8}

theorem encode?_cons : e.encode? (c :: text) = some bytes ↔
    ∃ front rest, e.encodeChar? c = some front ∧ e.encode? text = some rest ∧
      bytes = front ++ rest := by
  rw [encode?, Option.bind_eq_bind, Option.bind_eq_some_iff]
  constructor
  · rintro ⟨front, hfront, h⟩
    obtain ⟨rest, hrest, h⟩ := Option.bind_eq_some_iff.mp h
    exact ⟨front, rest, hfront, hrest, (Option.some.inj h).symm⟩
  · rintro ⟨front, rest, hfront, hrest, rfl⟩
    exact ⟨front, hfront, Option.bind_eq_some_iff.mpr ⟨rest, hrest, rfl⟩⟩

/-- All encodings but UTF-8 write a character with the byte of its number. -/
theorem eq_singleton_of_encodeChar? (he : e ≠ .utf8) (h : e.encodeChar? c = some front) :
    c.toNat < 0x100 ∧ front = [UInt8.ofNat c.toNat] := by
  cases e with
  | utf8 => exact absurd rfl he
  | usAscii | binary | latin1 =>
      rw [encodeChar?, Option.ite_none_right_eq_some] at h
      exact ⟨by omega, (Option.some.inj h.2).symm⟩

theorem ne_nil_of_encodeChar? (h : e.encodeChar? c = some front) : front ≠ [] := by
  by_cases he : e = .utf8
  · subst he
    rw [← Option.some.inj h, ← List.length_pos_iff, String.length_utf8EncodeChar]
    exact c.utf8Size_pos
  · rw [(eq_singleton_of_encodeChar? he h).2]
    exact List.cons_ne_nil _ _

/-- **No character is written as the beginning of another one.** -/
theorem encodeChar?_append_inj {x y s t : List UInt8} (hc : e.encodeChar? c = some x)
    (hd : e.encodeChar? d = some y) (h : x ++ s = y ++ t) : c = d ∧ s = t := by
  by_cases he : e = .utf8
  · subst he
    obtain rfl := Option.some.inj hc
    obtain rfl := Option.some.inj hd
    have hnext := nextChar?_append c s
    rw [h, nextChar?_append, Option.some.injEq, Prod.mk.injEq] at hnext
    exact ⟨hnext.1.symm, hnext.2.symm⟩
  · obtain ⟨hclt, rfl⟩ := eq_singleton_of_encodeChar? he hc
    obtain ⟨hdlt, rfl⟩ := eq_singleton_of_encodeChar? he hd
    obtain ⟨hbyte, hrest⟩ := List.cons.inj h
    have hnumber := congrArg UInt8.toNat hbyte
    rw [UInt8.toNat_ofNat_of_lt' hclt, UInt8.toNat_ofNat_of_lt' hdlt] at hnumber
    exact ⟨Char.toNat_inj.mp hnumber, hrest⟩

/-- **A text whose bytes begin with those of another one begins with it.** -/
theorem exists_more_of_encode? (h : e.encode? more = some front) :
    ∀ {text}, e.encode? text = some (front ++ rest) →
      ∃ after, text = more ++ after ∧ e.encode? after = some rest := by
  induction more generalizing front with
  | nil =>
      intro text htext
      obtain rfl := Option.some.inj h
      exact ⟨text, rfl, htext⟩
  | cons c more ih =>
      intro text htext
      obtain ⟨x, s, hx, hs, rfl⟩ := encode?_cons.mp h
      rw [List.append_assoc] at htext
      cases text with
      | nil =>
          -- no character is written with no byte
          have hnil := (Option.some.inj htext).symm
          exact absurd (List.append_eq_nil_iff.mp hnil).1 (ne_nil_of_encodeChar? hx)
      | cons d text =>
          obtain ⟨y, t, hy, ht, heq⟩ := encode?_cons.mp htext
          obtain ⟨rfl, rfl⟩ := encodeChar?_append_inj hx hy heq
          obtain ⟨after, rfl, hafter⟩ := ih hs ht
          exact ⟨after, rfl, hafter⟩

theorem encode?_inj (h : e.encode? text = some bytes) (hmore : e.encode? more = some bytes) :
    text = more := by
  rw [← List.append_nil bytes] at h
  obtain ⟨after, rfl, hafter⟩ := exists_more_of_encode? hmore h
  cases after with
  | nil => exact List.append_nil more
  | cons c after =>
      obtain ⟨x, s, hx, -, hnil⟩ := encode?_cons.mp hafter
      exact absurd (List.append_eq_nil_iff.mp hnil.symm).1 (ne_nil_of_encodeChar? hx)

theorem begins_of_valid (h : e.Valid bytes) (hne : bytes ≠ []) : e.Begins bytes := by
  obtain ⟨text, htext⟩ := h
  cases text with
  | nil => exact absurd (Option.some.inj htext).symm hne
  | cons c text =>
      obtain ⟨x, s, hx, -, rfl⟩ := encode?_cons.mp htext
      exact ⟨c, x, hx, List.prefix_append x s⟩

theorem Begins.of_shorter (h : e.Begins front) (hbefore : front <+: bytes) : e.Begins bytes := by
  obtain ⟨c, x, hx, hfront⟩ := h
  exact ⟨c, x, hx, hfront.trans hbefore⟩

/-- **What stands before a place where no character is written is the longest valid beginning.** -/
theorem longestValid_append (h : e.encode? text = some front) (hrest : ¬ e.Begins rest) :
    e.LongestValid (front ++ rest) front.length where
  le := by
    rw [List.length_append]
    exact Nat.le_add_right _ _
  valid := ⟨text, by rw [List.take_left, h]⟩
  longest m hm hvalid := by
    by_contra hlonger
    rw [List.length_append] at hm
    obtain ⟨longer, hlong⟩ := hvalid
    rw [List.take_append, List.take_of_length_le (by omega)] at hlong
    -- the characters behind the shorter beginning are written where none is
    obtain ⟨after, -, hafter⟩ := exists_more_of_encode? h hlong
    have hne : rest.take (m - front.length) ≠ [] := by
      rw [← List.length_pos_iff, List.length_take]
      omega
    exact hrest ((begins_of_valid ⟨after, hafter⟩ hne).of_shorter (List.take_prefix _ _))

theorem LongestValid.unique {m n : Nat} (hm : e.LongestValid bytes m)
    (hn : e.LongestValid bytes n) : m = n :=
  Nat.le_antisymm (hn.longest m hm.le hm.valid) (hm.longest n hn.le hn.valid)

end Encoding

/-! ## §2. Reading. -/

/-- How bytes at an offset are read, character by character. -/
inductive Reads (e : Encoding) : Nat → List UInt8 → Except Nat (List Char) → Prop where
  | done {offset : Nat} : Reads e offset [] (.ok [])
  | stuck {offset : Nat} {bytes : List UInt8} (hne : bytes ≠ []) (h : ¬ e.Begins bytes) :
      Reads e offset bytes (.error offset)
  | next {offset : Nat} {c : Char} {front rest : List UInt8} {result : Except Nat (List Char)}
      (h : e.encodeChar? c = some front) (hrest : Reads e (offset + front.length) rest result) :
      Reads e offset (front ++ rest) (result.map (c :: ·))

theorem reads_utf8 (offset : Nat) (bytes : List UInt8) :
    Reads .utf8 offset bytes (readUtf8 offset bytes) := by
  rw [readUtf8]
  split
  next hnil =>
    rw [List.isEmpty_iff.mp hnil]
    exact .done
  next hne =>
    rw [List.isEmpty_iff] at hne
    split
    next hnone =>
      -- were there a character in front, it would have been read
      refine .stuck hne ?_
      rintro ⟨c, front, hfront, rest, rfl⟩
      obtain rfl := Option.some.inj hfront
      rw [nextChar?_append] at hnone
      cases hnone
    next c rest hnext =>
      have hless := length_lt_of_nextChar? hnext
      have hrest := reads_utf8 (offset + c.utf8Size) rest
      rw [← String.length_utf8EncodeChar] at hrest ⊢
      rw [eq_append_of_nextChar? hnext]
      exact .next rfl hrest
termination_by bytes.length

/-- A byte is the character of its number. -/
theorem toNat_ofNat_byte (b : UInt8) : (Char.ofNat b.toNat).toNat = b.toNat := by
  have hvalid : b.toNat.isValidChar := .inl (Nat.lt_trans b.toNat_lt (by decide))
  rw [Char.ofNat, dif_pos hvalid]
  rfl

theorem reads_usAscii (offset : Nat) (bytes : List UInt8) :
    Reads .usAscii offset bytes (readAscii offset bytes) := by
  induction bytes generalizing offset with
  | nil => exact .done
  | cons b rest ih =>
      rw [readAscii]
      split
      next hlow =>
        have hchar : Encoding.encodeChar? .usAscii (Char.ofNat b.toNat) = some [b] := by
          have hlow : b.toNat < 0x80 := UInt8.lt_iff_toNat_lt.mp hlow
          rw [Encoding.encodeChar?, toNat_ofNat_byte, if_pos hlow, UInt8.ofNat_toNat]
        exact .next hchar (ih (offset + 1))
      next hhigh =>
        -- a byte beyond the seven bits is no character
        refine .stuck (List.cons_ne_nil _ _) ?_
        rintro ⟨c, front, hfront, after, hafter⟩
        rw [Encoding.encodeChar?, Option.ite_none_right_eq_some] at hfront
        obtain ⟨hlow, hfront⟩ := hfront
        obtain rfl := Option.some.inj hfront
        obtain ⟨rfl, -⟩ := List.cons.inj hafter
        refine hhigh (UInt8.lt_iff_toNat_lt.mpr ?_)
        rwa [UInt8.toNat_ofNat_of_lt' (Nat.lt_trans hlow (by decide))]

theorem reads_bytes {e : Encoding} (he : e = .binary ∨ e = .latin1) (offset : Nat)
    (bytes : List UInt8) : Reads e offset bytes (.ok (readBytes bytes)) := by
  induction bytes generalizing offset with
  | nil => exact .done
  | cons b rest ih =>
      have hchar : e.encodeChar? (Char.ofNat b.toNat) = some [b] := by
        rcases he with rfl | rfl
        all_goals
          rw [Encoding.encodeChar?, toNat_ofNat_byte, if_pos b.toNat_lt, UInt8.ofNat_toNat]
      exact .next hchar (ih (offset + 1))

/-- **The four readers go from character to character.** -/
theorem Encoding.reads_read (e : Encoding) (bytes : List UInt8) :
    Reads e 0 bytes (e.read bytes) := by
  cases e with
  | utf8 => exact reads_utf8 0 bytes
  | usAscii => exact reads_usAscii 0 bytes
  | binary => exact reads_bytes (.inl rfl) 0 bytes
  | latin1 => exact reads_bytes (.inr rfl) 0 bytes

section Reads

variable {e : Encoding} {offset : Nat} {bytes : List UInt8} {result : Except Nat (List Char)}

/-- What is read is what is written. -/
theorem Reads.encode?_eq_some (h : Reads e offset bytes result) :
    ∀ {text}, result = .ok text → e.encode? text = some bytes := by
  induction h with
  | done =>
      rintro _ ⟨⟩
      rfl
  | stuck => exact fun h => nomatch h
  | @next offset c front rest result h hrest ih =>
      intro text htext
      cases result with
      | error => cases htext
      | ok more =>
          cases htext
          exact Encoding.encode?_cons.mpr ⟨front, rest, h, ih rfl, rfl⟩

/-- Where a reader is stuck no character is written, but before that a text is. -/
theorem Reads.exists_of_error (h : Reads e offset bytes result) :
    ∀ {n}, result = .error n → ∃ text front rest, e.encode? text = some front ∧
      bytes = front ++ rest ∧ n = offset + front.length ∧ rest ≠ [] ∧ ¬ e.Begins rest := by
  induction h with
  | done => exact fun h => nomatch h
  | @stuck offset bytes hne h =>
      rintro _ ⟨⟩
      exact ⟨[], [], bytes, rfl, rfl, rfl, hne, h⟩
  | @next offset c x rest result h hrest ih =>
      intro n hn
      cases result with
      | ok => cases hn
      | error n' =>
          cases hn
          obtain ⟨text, front, after, htext, rfl, rfl, hne, hafter⟩ := ih rfl
          refine ⟨c :: text, x ++ front, after, ?_, ?_, ?_, hne, hafter⟩
          · exact Encoding.encode?_cons.mpr ⟨x, front, h, htext, rfl⟩
          · rw [List.append_assoc]
          · rw [List.length_append, Nat.add_assoc]

end Reads

namespace Encoding

variable {e : Encoding} {bytes : List UInt8} {text : List Char} {n : Nat}

/-- A fault is behind the longest valid beginning, and there is more. -/
theorem longestValid_of_read (h : e.read bytes = .error n) :
    ¬ e.Valid bytes ∧ e.LongestValid bytes n := by
  obtain ⟨text, front, rest, htext, rfl, rfl, hne, hrest⟩ := (e.reads_read bytes).exists_of_error h
  rw [Nat.zero_add]
  have hlongest := longestValid_append htext hrest
  refine ⟨fun hvalid => ?_, hlongest⟩
  have hall := hlongest.longest _ (Nat.le_refl _) (by rwa [List.take_length])
  rw [List.length_append] at hall
  have hpos := List.length_pos_iff.mpr hne
  omega

/-- **What is read is the text whose bytes they are.** -/
theorem read_eq_ok_iff : e.read bytes = .ok text ↔ e.encode? text = some bytes := by
  constructor
  · exact fun h => (e.reads_read bytes).encode?_eq_some h
  · intro h
    cases hread : e.read bytes with
    | ok more => rw [encode?_inj h ((e.reads_read bytes).encode?_eq_some hread)]
    | error n => exact absurd ⟨text, h⟩ (longestValid_of_read hread).1

/-- **Bytes that are no text are reported at the end of their longest valid beginning.** -/
theorem read_eq_error_iff : e.read bytes = .error n ↔ ¬ e.Valid bytes ∧ e.LongestValid bytes n := by
  constructor
  · exact longestValid_of_read
  · rintro ⟨hinvalid, hlongest⟩
    cases hread : e.read bytes with
    | ok text => exact absurd ⟨text, read_eq_ok_iff.mp hread⟩ hinvalid
    | error m => rw [(longestValid_of_read hread).2.unique hlongest]

end Encoding

/-! ## §3. The byte-order mark. -/

/-- The bytes of the byte-order mark. -/
def byteOrderMark : List UInt8 := [0xEF, 0xBB, 0xBF]

/-- Some bytes without one byte-order mark at their beginning. -/
inductive Unmarked : List UInt8 → List UInt8 → Prop where
  | marked (body : List UInt8) : Unmarked (byteOrderMark ++ body) body
  | plain {body : List UInt8} (h : ¬ byteOrderMark <+: body) : Unmarked body body

theorem unmarked_dropByteOrderMark (raw : List UInt8) : Unmarked raw (dropByteOrderMark raw) := by
  unfold dropByteOrderMark
  split
  next rest => exact .marked rest
  next hplain =>
    refine .plain ?_
    rintro ⟨rest, rfl⟩
    exact hplain rest rfl

theorem Unmarked.dropByteOrderMark_eq {raw body : List UInt8} (h : Unmarked raw body) :
    dropByteOrderMark raw = body := by
  cases h with
  | marked => rfl
  | plain h =>
      have hdrop := unmarked_dropByteOrderMark raw
      generalize dropByteOrderMark raw = body at hdrop
      cases hdrop with
      | marked body => exact absurd (List.prefix_append _ _) h
      | plain => rfl

/-! ## §4. The comment that names an encoding. -/

/-- A line of some bytes, without its newline; nothing if there is no such line. -/
def lineAt (bytes : List UInt8) (i : Nat) : List UInt8 := (bytes.splitOn newline).getD i []

/-- The encoding's name as a line gives it. -/
def nameIn? : List UInt8 → Option String
  | 0x23 :: line => (lastCoding? line).map fun name => String.ofList (readBytes name)
  | _ => none

/-- Bytes with a newline are a first line and the rest. -/
theorem firstLine_eq (bytes : List UInt8) :
    (firstLine bytes = (bytes, none) ∧ bytes.splitOn newline = [bytes]) ∨
      ∃ rest, firstLine bytes = (lineAt bytes 0, some rest) ∧
        bytes.splitOn newline = lineAt bytes 0 :: rest.splitOn newline := by
  have hsplit := bytes.takeWhile_append_dropWhile (p := (· != newline))
  have hline : newline ∉ bytes.takeWhile (· != newline) := fun hmem => by
    simpa using List.mem_takeWhile_imp hmem
  unfold firstLine
  split
  next hnil =>
    rw [show bytes.dropWhile (· != newline) = [] from hnil, List.append_nil] at hsplit
    rw [hsplit] at hline
    exact .inl ⟨rfl, List.splitOn_eq_singleton hline⟩
  next b rest hmore =>
    -- what ends the first line is a newline
    obtain rfl : b = newline := by
      have hhead := List.head?_dropWhile_not (· != newline) bytes
      rw [show bytes.dropWhile (· != newline) = b :: rest from hmore] at hhead
      simpa using hhead
    rw [show bytes.dropWhile (· != newline) = newline :: rest from hmore] at hsplit
    have hlines := List.splitOn_append_cons_self_of_not_mem hline rest
    rw [hsplit] at hlines
    refine .inr ⟨rest, ?_, ?_⟩
    · rw [lineAt, hlines]
      rfl
    · rw [lineAt, hlines]
      rfl

/-- What the line is that may name the encoding does not matter if there is none. -/
theorem magicComment?_eq_nameIn? (raw : List UInt8) :
    magicComment? raw = nameIn? ((magicLine? (dropByteOrderMark raw)).getD []) := by
  unfold magicComment? nameIn?
  cases magicLine? (dropByteOrderMark raw) with
  | none => rfl
  | some line =>
      rw [Option.getD_some]
      split <;> split <;> simp_all

/-- **The name is looked for on the first line, or on the second after one for the shell.** -/
theorem magicComment?_eq {raw body : List UInt8} (h : Unmarked raw body) : magicComment? raw =
    nameIn? (lineAt body (if asciiBytes "#!" <+: lineAt body 0 then 1 else 0)) := by
  rw [magicComment?_eq_nameIn?, h.dropByteOrderMark_eq, magicLine?]
  congr 1
  rcases firstLine_eq body with ⟨hfirst, hlines⟩ | ⟨rest, hfirst, hlines⟩
  · -- there is no second line, and an empty one names nothing
    have hzero : lineAt body 0 = body := by rw [lineAt, hlines]; rfl
    have hone : lineAt body 1 = [] := by rw [lineAt, hlines]; rfl
    simp only [hfirst, hzero, Option.map_none, List.isPrefixOf_iff_prefix]
    split
    · exact hone.symm
    · exact hzero.symm
  · -- there is a second line, which counts if the first one names an interpreter
    have hone : lineAt body 1 = lineAt rest 0 := by rw [lineAt, hlines]; rfl
    have hrest : (firstLine rest).1 = lineAt rest 0 := by
      rcases firstLine_eq rest with ⟨hfirst, hlines⟩ | ⟨more, hfirst, -⟩
      · rw [hfirst, lineAt, hlines]
        rfl
      · rw [hfirst]
    simp only [hfirst, Option.map_some, List.isPrefixOf_iff_prefix]
    split
    · rw [Option.getD_some, hrest, hone]
    · rfl

/-! ## §5. Decoding. -/

/-- An encoding is named for a source: by its comment, or else by the default. -/
inductive Names (raw : List UInt8) (default? : Option String) (name : String) : Prop where
  | comment (h : magicComment? raw = some name)
  | default (hnone : magicComment? raw = none) (h : default? = some name)

/-- The encoding of a source is the one that is named, or UTF-8 if none is. -/
inductive Chooses (raw : List UInt8) (default? : Option String) : Encoding → Prop where
  | named {name : String} {e : Encoding} (h : Names raw default? name)
      (he : Encoding.ofName? name = some e) : Chooses raw default? e
  | unnamed (hnone : magicComment? raw = none) (h : default? = none) : Chooses raw default? .utf8

section Decode

variable {raw : List UInt8} {default? : Option String} {e : Encoding}

theorem names_iff {name : String} :
    Names raw default? name ↔ (magicComment? raw).or default? = some name := by
  constructor
  · rintro (h | ⟨hnone, h⟩)
    · rw [h, Option.some_or]
    · rw [hnone, Option.none_or, h]
  · intro h
    cases hcomment : magicComment? raw with
    | none => exact .default hcomment (by rwa [hcomment, Option.none_or] at h)
    | some found => exact .comment (by rwa [hcomment, Option.some_or, ← hcomment] at h)

theorem encodingOf_eq_ok_iff : encodingOf raw default? = .ok e ↔ Chooses raw default? e := by
  unfold encodingOf
  split
  next hnone =>
    obtain ⟨hcomment, hdefault⟩ := Option.or_eq_none_iff.mp hnone
    -- no name in the text and none from outside
    constructor
    · rintro ⟨⟩
      exact .unnamed hcomment hdefault
    · rintro (⟨h, -⟩ | -)
      · rw [names_iff, hnone] at h
        cases h
      · rfl
  next name hname =>
    -- the name that was found decides, and it may be unknown
    constructor
    · intro h
      split at h
      next e' he' =>
        cases h
        exact .named (names_iff.mpr hname) he'
      next => cases h
    · rintro (⟨h, he⟩ | ⟨hcomment, hdefault⟩)
      · rw [names_iff, hname, Option.some.injEq] at h
        rw [h, he]
      · rw [hcomment, hdefault] at hname
        cases hname

theorem encodingOf_eq_error_iff {fault : DecodeError} : encodingOf raw default? = .error fault ↔
    ∃ name, Names raw default? name ∧ Encoding.ofName? name = none ∧ fault = .unknownName name := by
  simp only [names_iff]
  unfold encodingOf
  split
  next hnone => simp [hnone]
  next name hname =>
    simp only [hname, Option.some.injEq, exists_eq_left']
    split
    next e he => simp [he]
    next hunknown => simp [hunknown, eq_comm]

theorem decode_of_unknown {fault : DecodeError} (h : encodingOf raw default? = .error fault) :
    decode raw default? = .error fault := by
  rw [decode, h]
  rfl

theorem decode_of_chosen {body : List UInt8} (hbody : Unmarked raw body)
    (h : encodingOf raw default? = .ok e) : decode raw default? = match e.read body with
      | .ok text => .ok (String.ofList text, e)
      | .error offset => .error (.invalidBytes e offset) := by
  rw [decode, h, hbody.dropByteOrderMark_eq]
  rfl

theorem decode_eq_ok_iff {body : List UInt8} (hbody : Unmarked raw body) {text : String} :
    decode raw default? = .ok (text, e) ↔
      Chooses raw default? e ∧ e.encode? text.toList = some body := by
  rw [← encodingOf_eq_ok_iff, ← Encoding.read_eq_ok_iff]
  cases hchosen : encodingOf raw default? with
  | error =>
      rw [decode_of_unknown hchosen]
      exact iff_of_false nofun fun h => nomatch h.1
  | ok chosen =>
      rw [decode_of_chosen hbody hchosen]
      constructor
      · intro h
        split at h
        next chars hread =>
          cases h
          rw [String.toList_ofList]
          exact ⟨rfl, hread⟩
        next => cases h
      · rintro ⟨⟨⟩, hread⟩
        simp only [hread, String.ofList_toList]

theorem decode_eq_error_iff {body : List UInt8} (hbody : Unmarked raw body)
    {fault : DecodeError} : decode raw default? = .error fault ↔
      (∃ name, Names raw default? name ∧ Encoding.ofName? name = none ∧
        fault = .unknownName name) ∨
      ∃ e n, Chooses raw default? e ∧ ¬ e.Valid body ∧ e.LongestValid body n ∧
        fault = .invalidBytes e n := by
  rw [← encodingOf_eq_error_iff]
  simp only [← encodingOf_eq_ok_iff]
  cases hchosen : encodingOf raw default? with
  | error unknown =>
      rw [decode_of_unknown hchosen]
      simp
  | ok chosen =>
      rw [decode_of_chosen hbody hchosen]
      constructor
      · intro h
        split at h
        next => cases h
        next n hread =>
          cases h
          obtain ⟨hinvalid, hlongest⟩ := Encoding.read_eq_error_iff.mp hread
          exact .inr ⟨chosen, n, rfl, hinvalid, hlongest, rfl⟩
      · rintro (h | ⟨_, n, ⟨⟩, hinvalid, hlongest, rfl⟩)
        · cases h
        · simp only [Encoding.read_eq_error_iff.mpr ⟨hinvalid, hlongest⟩]

/-- A byte-order mark makes no difference to bytes that have none. -/
theorem decode_byteOrderMark (h : ¬ byteOrderMark <+: raw) :
    decode (byteOrderMark ++ raw) default? = decode raw default? := by
  have hmarked := (Unmarked.marked raw).dropByteOrderMark_eq
  have hplain := (Unmarked.plain h).dropByteOrderMark_eq
  have hcomment : magicComment? (byteOrderMark ++ raw) = magicComment? raw := by
    rw [magicComment?, hmarked, magicComment?, hplain]
  rw [decode, encodingOf, hcomment, hmarked, decode, encodingOf, hplain]

/-- Two sources agree in their first lines, and in their second ones if the first is one for the
system's shell. -/
structure SameHead (a b : List UInt8) : Prop where
  first : lineAt a 0 = lineAt b 0
  second : asciiBytes "#!" <+: lineAt a 0 → lineAt a 1 = lineAt b 1

theorem SameHead.magicComment?_eq {raw' body body' : List UInt8} (h : SameHead body body')
    (hbody : Unmarked raw body) (hbody' : Unmarked raw' body') :
    magicComment? raw = magicComment? raw' := by
  rw [Source.magicComment?_eq hbody, Source.magicComment?_eq hbody', ← h.first]
  split
  next hshell => rw [h.second hshell]
  next => rw [h.first]

/-- **A source is decoded exactly if its bytes, a byte-order mark aside, are those of a text in the
encoding that is named by its comment, or else by the default, or else is UTF-8**; the result is
that text.  Otherwise the name is unknown, or the longest part at the beginning that is valid is
reported.  The comment is one on the first line, or on the second after one for the shell. -/
theorem decode_exact (raw : List UInt8) (default? : Option String) :
    (∃ body, Unmarked raw body ∧
      (∀ text e, decode raw default? = .ok (text, e) ↔
        Chooses raw default? e ∧ e.encode? text.toList = some body) ∧
      (∀ fault, decode raw default? = .error fault ↔
        (∃ name, Names raw default? name ∧ Encoding.ofName? name = none ∧
          fault = .unknownName name) ∨
        ∃ e n, Chooses raw default? e ∧ ¬ e.Valid body ∧ e.LongestValid body n ∧
          fault = .invalidBytes e n ∧
            fault.message = s!"invalid byte sequence in {e.name} at offset {n}") ∧
      ∀ raw' body', Unmarked raw' body' → SameHead body body' →
        magicComment? raw = magicComment? raw') ∧
    (¬ byteOrderMark <+: raw → decode (byteOrderMark ++ raw) default? = decode raw default?) := by
  have hbody := unmarked_dropByteOrderMark raw
  refine ⟨⟨_, hbody, fun text e => decode_eq_ok_iff hbody, fun fault => ?_, ?_⟩,
    decode_byteOrderMark⟩
  · rw [decode_eq_error_iff hbody]
    refine or_congr_right (exists₂_congr fun e n => and_congr_right fun _ =>
      and_congr_right fun _ => and_congr_right fun _ => ?_)
    refine (and_iff_left_of_imp ?_).symm
    rintro rfl
    rfl
  · exact fun raw' body' hbody' hsame => hsame.magicComment?_eq hbody hbody'

end Decode

/-- A character is cut off behind a comment for the shell and one that names the encoding. -/
theorem decode_exact_truncated :
    ¬ byteOrderMark <+: asciiBytes "#!a\n# coding: utf8\n" ++ [0xE2, 0x82] ∧
      decode (byteOrderMark ++ (asciiBytes "#!a\n# coding: utf8\n" ++ [0xE2, 0x82])) none =
        .error (.invalidBytes .utf8 19) ∧
      Encoding.LongestValid .utf8 (asciiBytes "#!a\n# coding: utf8\n" ++ [0xE2, 0x82]) 19 ∧
      magicComment? (asciiBytes "#!a\n# coding: utf8\n" ++ [0xE2, 0x82]) =
        magicComment? (byteOrderMark ++ asciiBytes "#!a\n# coding: utf8\nx") := by
  have hmark : ¬ byteOrderMark <+: asciiBytes "#!a\n# coding: utf8\n" ++ [0xE2, 0x82] := by decide
  have hfault : decode (asciiBytes "#!a\n# coding: utf8\n" ++ [0xE2, 0x82]) none =
      .error (.invalidBytes .utf8 19) := by decide +kernel
  obtain ⟨⟨body, hbody, -, hfaults, hcomment⟩, hmarked⟩ :=
    decode_exact (asciiBytes "#!a\n# coding: utf8\n" ++ [0xE2, 0x82]) none
  obtain rfl := (Unmarked.plain hmark).dropByteOrderMark_eq.symm.trans hbody.dropByteOrderMark_eq
  refine ⟨hmark, (hmarked hmark).trans hfault, ?_, hcomment _ _ (.marked _) ⟨by decide, ?_⟩⟩
  · obtain ⟨_, _, _, h⟩ | ⟨e, n, -, -, hlongest, h, -⟩ := (hfaults _).mp hfault
    · cases h
    · cases h
      exact hlongest
  · exact fun _ => by decide

end RubySyntax.Source
