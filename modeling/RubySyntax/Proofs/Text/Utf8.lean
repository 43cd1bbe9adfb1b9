/-
  RubySyntax.Proofs.Text.Utf8
  ───────────────────────────
  **CHARACTERS AND THEIR BYTES.**

  A code point is written with one to four bytes.  The first byte tells how many, and with it the
  range of the second one, so that no code point is written with more bytes than it needs and no
  surrogate is written at all.  `Written` lists the four ways.  They are exactly what is read as
  the first character of some bytes, and exactly the bytes of a character; so no character is
  written as the beginning of another one, and no byte of a character past ASCII looks like one of
  ASCII.

      v        bytes
      0000     0vvvvvvv
      0080     110vvvvv 10vvvvvv
      0800     1110vvvv 10vvvvvv 10vvvvvv
      10000    11110vvv 10vvvvvv 10vvvvvv 10vvvvvv

  Main results:
    • `nextChar?_append`, `eq_append_of_nextChar?` — the first character of some bytes is the one
      whose bytes they begin with,
    • `length_utf8`, `count_utf8` — offsets and newlines of a text are those of its bytes.
-/
import Mathlib.Data.List.Basic
import RubySyntax.Source.Encoding
import RubySyntax.Text.Bytes

namespace RubySyntax

namespace Source

/-! ## §1. Classes of bytes. -/

theorem inRange_iff {low high b : UInt8} :
    inRange low high b = true ↔ low.toNat ≤ b.toNat ∧ b.toNat ≤ high.toNat := by
  rw [inRange, Bool.and_eq_true, decide_eq_true_eq, decide_eq_true_eq, UInt8.le_iff_toNat_le,
    UInt8.le_iff_toNat_le]

theorem isContinuation_iff {b : UInt8} :
    isContinuation b = true ↔ 0x80 ≤ b.toNat ∧ b.toNat ≤ 0xBF := inRange_iff

/-- The four first bytes that narrow the range of the second one. -/
theorem isSecond_iff {a b : UInt8} : isSecond a b = true ↔
    (0x80 ≤ b.toNat ∧ b.toNat ≤ 0xBF) ∧ (a.toNat = 0xE0 → 0xA0 ≤ b.toNat) ∧
      (a.toNat = 0xED → b.toNat ≤ 0x9F) ∧ (a.toNat = 0xF0 → 0x90 ≤ b.toNat) ∧
        (a.toNat = 0xF4 → b.toNat ≤ 0x8F) := by
  unfold isSecond isContinuation
  simp only [beq_iff_eq, ← UInt8.toNat_inj]
  repeat' split
  all_goals
    rw [inRange_iff]
    simp only [UInt8.reduceToNat] at *
    omega

/-! ## §2. A character as it is written. -/

/-- The bytes with which a code point is written. -/
inductive Written (v : Nat) : List UInt8 → Prop where
  | one {a : UInt8} (ha : a.toNat < 0x80) (hv : v = a.toNat) : Written v [a]
  | two {a b : UInt8} (ha : 0xC2 ≤ a.toNat ∧ a.toNat ≤ 0xDF) (hb : isContinuation b = true)
      (hv : v = a.toNat % 32 * 64 + payload b) : Written v [a, b]
  | three {a b c : UInt8} (ha : 0xE0 ≤ a.toNat ∧ a.toNat ≤ 0xEF) (hb : isSecond a b = true)
      (hc : isContinuation c = true)
      (hv : v = a.toNat % 16 * 4096 + payload b * 64 + payload c) : Written v [a, b, c]
  | four {a b c d : UInt8} (ha : 0xF0 ≤ a.toNat ∧ a.toNat ≤ 0xF4) (hb : isSecond a b = true)
      (hc : isContinuation c = true) (hd : isContinuation d = true)
      (hv : v = a.toNat % 8 * 262144 + payload b * 4096 + payload c * 64 + payload d) :
      Written v [a, b, c, d]

theorem payload_eq (b : UInt8) : payload b = b.toNat % 64 := rfl

/-- Each character is written so. -/
theorem written_utf8EncodeChar (c : Char) : Written c.toNat (String.utf8EncodeChar c) := by
  have hvalid : c.toNat < 0xD800 ∨ 0xDFFF < c.toNat ∧ c.toNat < 0x110000 := c.valid
  have hval : c.val.toNat = c.toNat := rfl
  have hbyte : ∀ n < 256, (UInt8.ofNat n).toNat = n := fun n hn => UInt8.toNat_ofNat_of_lt' hn
  simp only [String.utf8EncodeChar, hval]
  generalize c.toNat = v at hvalid
  -- a case for each number of bytes; a byte that continues the character has six bits of it
  split
  next =>
    have ha := hbyte v (by omega)
    exact .one (by omega) ha.symm
  split
  next =>
    have ha := hbyte (v / 64 % 32 + 192) (by omega)
    have hb := hbyte (v % 64 + 128) (by omega)
    refine .two (by omega) (isContinuation_iff.mpr (by omega)) ?_
    rw [payload_eq]
    omega
  split
  next =>
    -- the second byte is narrowed by the least code point and by the surrogates
    have ha := hbyte (v / 4096 % 16 + 224) (by omega)
    have hb := hbyte (v / 64 % 64 + 128) (by omega)
    have hc := hbyte (v % 64 + 128) (by omega)
    refine .three (by omega) (isSecond_iff.mpr (by omega)) (isContinuation_iff.mpr (by omega)) ?_
    rw [payload_eq, payload_eq]
    omega
  next =>
    have ha := hbyte (v / 262144 % 8 + 240) (by omega)
    have hb := hbyte (v / 4096 % 64 + 128) (by omega)
    have hc := hbyte (v / 64 % 64 + 128) (by omega)
    have hd := hbyte (v % 64 + 128) (by omega)
    refine .four (by omega) (isSecond_iff.mpr (by omega)) (isContinuation_iff.mpr (by omega))
      (isContinuation_iff.mpr (by omega)) ?_
    rw [payload_eq, payload_eq, payload_eq]
    omega

section Written

variable {v : Nat} {front : List UInt8}

/-- What is written so are the bytes of a character. -/
theorem Written.utf8EncodeChar_ofNat (h : Written v front) :
    String.utf8EncodeChar (Char.ofNat v) = front := by
  have hbyte : ∀ {n : Nat} (a : UInt8), n = a.toNat → UInt8.ofNat n = a := by
    rintro _ a rfl
    exact UInt8.ofNat_toNat
  have hval : v.isValidChar → (Char.ofNat v).val.toNat = v := by
    intro hv
    rw [Char.ofNat, dif_pos hv]
    rfl
  -- what the bytes may be bounds the code point, which tells the number of bytes again
  cases h with
  | one ha hv =>
      simp only [String.utf8EncodeChar, hval (by unfold Nat.isValidChar; omega)]
      rw [if_pos (by omega), hbyte _ hv]
  | @two a b ha hb hv =>
      rw [isContinuation_iff] at hb
      rw [payload_eq] at hv
      simp only [String.utf8EncodeChar, hval (by unfold Nat.isValidChar; omega)]
      rw [if_neg (by omega), if_pos (by omega), hbyte a (by omega), hbyte b (by omega)]
  | @three a b c ha hb hc hv =>
      rw [isSecond_iff] at hb
      rw [isContinuation_iff] at hc
      rw [payload_eq, payload_eq] at hv
      simp only [String.utf8EncodeChar, hval (by unfold Nat.isValidChar; omega)]
      rw [if_neg (by omega), if_neg (by omega), if_pos (by omega), hbyte a (by omega),
        hbyte b (by omega), hbyte c (by omega)]
  | @four a b c d ha hb hc hd hv =>
      rw [isSecond_iff] at hb
      rw [isContinuation_iff] at hc hd
      rw [payload_eq, payload_eq, payload_eq] at hv
      simp only [String.utf8EncodeChar, hval (by unfold Nat.isValidChar; omega)]
      rw [if_neg (by omega), if_neg (by omega), if_neg (by omega), hbyte a (by omega),
        hbyte b (by omega), hbyte c (by omega), hbyte d (by omega)]

/-- A code point past ASCII is written with bytes past ASCII. -/
theorem Written.le_of_mem (h : Written v front) (hv : 0x80 ≤ v) : ∀ b ∈ front, 0x80 ≤ b.toNat := by
  cases h with
  | one ha hone => omega
  | two ha hb _ =>
      rw [isContinuation_iff] at hb
      simp only [List.mem_cons, List.not_mem_nil, or_false, forall_eq_or_imp, forall_eq]
      omega
  | three ha hb hc _ =>
      rw [isSecond_iff] at hb
      rw [isContinuation_iff] at hc
      simp only [List.mem_cons, List.not_mem_nil, or_false, forall_eq_or_imp, forall_eq]
      omega
  | four ha hb hc hd _ =>
      rw [isSecond_iff] at hb
      rw [isContinuation_iff] at hc hd
      simp only [List.mem_cons, List.not_mem_nil, or_false, forall_eq_or_imp, forall_eq]
      omega

/-! ## §3. The first character of some bytes. -/

/-- What is written at the front is read. -/
theorem Written.nextChar?_append (h : Written v front) (rest : List UInt8) :
    nextChar? (front ++ rest) = some (Char.ofNat v, rest) := by
  have hlow : ∀ a : UInt8, a < 0x80 ↔ a.toNat < 0x80 := fun a => UInt8.lt_iff_toNat_lt
  have htwo : ∀ a : UInt8, inRange 0xC2 0xDF a = true ↔ 0xC2 ≤ a.toNat ∧ a.toNat ≤ 0xDF :=
    fun a => inRange_iff
  have hthree : ∀ a : UInt8, inRange 0xE0 0xEF a = true ↔ 0xE0 ≤ a.toNat ∧ a.toNat ≤ 0xEF :=
    fun a => inRange_iff
  have hfour : ∀ a : UInt8, inRange 0xF0 0xF4 a = true ↔ 0xF0 ≤ a.toNat ∧ a.toNat ≤ 0xF4 :=
    fun a => inRange_iff
  -- the first byte tells how many there are: the ranges of first bytes do not meet
  cases h with
  | one ha hv =>
      simp only [List.cons_append, List.nil_append, nextChar?, hlow]
      rw [if_pos ha, hv]
  | two ha hb hv =>
      simp only [List.cons_append, List.nil_append, nextChar?, hlow, htwo]
      rw [isContinuation_iff] at hb
      rw [if_neg (by omega), if_pos ha, if_pos (isSecond_iff.mpr (by omega)), hv]
  | three ha hb hc hv =>
      simp only [List.cons_append, List.nil_append, nextChar?, hlow, htwo, hthree]
      rw [if_neg (by omega), if_neg (by omega), if_pos ha, if_pos (by rw [hb, hc]; rfl), hv]
  | four ha hb hc hd hv =>
      simp only [List.cons_append, List.nil_append, nextChar?, hlow, htwo, hthree, hfour]
      rw [if_neg (by omega), if_neg (by omega), if_neg (by omega), if_pos ha,
        if_pos (by rw [hb, hc, hd]; rfl), hv]

end Written

/-- What is read is written at the front. -/
theorem exists_written_of_nextChar? {bytes rest : List UInt8} {c : Char}
    (h : nextChar? bytes = some (c, rest)) :
    ∃ v front, Written v front ∧ c = Char.ofNat v ∧ bytes = front ++ rest := by
  -- the first byte tells which of the ways it must be
  unfold nextChar? at h
  split at h
  · cases h
  next a more =>
  split at h
  next ha =>
    cases h
    exact ⟨_, [a], .one (UInt8.lt_iff_toNat_lt.mp ha) rfl, rfl, rfl⟩
  split at h
  next ha =>
    split at h
    · split at h
      next hb =>
        cases h
        have hb := isContinuation_iff.mpr (isSecond_iff.mp hb).1
        exact ⟨_, [a, _], .two (inRange_iff.mp ha) hb rfl, rfl, rfl⟩
      · cases h
    · cases h
  split at h
  next ha =>
    split at h
    · split at h
      next hmore =>
        cases h
        rw [Bool.and_eq_true] at hmore
        exact ⟨_, [a, _, _], .three (inRange_iff.mp ha) hmore.1 hmore.2 rfl, rfl, rfl⟩
      · cases h
    · cases h
  split at h
  next ha =>
    split at h
    · split at h
      next hmore =>
        cases h
        rw [Bool.and_eq_true, Bool.and_eq_true] at hmore
        exact ⟨_, [a, _, _, _], .four (inRange_iff.mp ha) hmore.1.1 hmore.1.2 hmore.2 rfl, rfl, rfl⟩
      · cases h
    · cases h
  · cases h

/-- **The bytes of a character are read as that character**, whatever follows. -/
theorem nextChar?_append (c : Char) (rest : List UInt8) :
    nextChar? (String.utf8EncodeChar c ++ rest) = some (c, rest) := by
  rw [(written_utf8EncodeChar c).nextChar?_append, Char.ofNat_toNat]

/-- **What is read as a character are its bytes.** -/
theorem eq_append_of_nextChar? {bytes rest : List UInt8} {c : Char}
    (h : nextChar? bytes = some (c, rest)) : bytes = String.utf8EncodeChar c ++ rest := by
  obtain ⟨v, front, hwritten, rfl, rfl⟩ := exists_written_of_nextChar? h
  rw [hwritten.utf8EncodeChar_ofNat]

end Source

/-! ## §4. The bytes of a text. -/

namespace Text

/-- The bytes of a text. -/
def utf8 (text : List Char) : List UInt8 := text.flatMap String.utf8EncodeChar

@[simp] theorem utf8_nil : utf8 [] = [] := rfl

@[simp] theorem utf8_cons (c : Char) (text : List Char) :
    utf8 (c :: text) = String.utf8EncodeChar c ++ utf8 text := rfl

theorem utf8_append (a b : List Char) : utf8 (a ++ b) = utf8 a ++ utf8 b := List.flatMap_append

/-- **Offsets count bytes.** -/
theorem length_utf8 (text : List Char) : (utf8 text).length = byteLength text := by
  induction text with
  | nil => rfl
  | cons c text ih =>
      rw [utf8_cons, List.length_append, String.length_utf8EncodeChar, ih, byteLength]

/-- The byte of a newline. -/
def newline : UInt8 := 0x0A

theorem utf8EncodeChar_newline : String.utf8EncodeChar '\n' = [newline] := rfl

/-- Only a newline has its byte. -/
theorem newline_notMem_utf8EncodeChar {c : Char} (hc : c ≠ '\n') :
    newline ∉ String.utf8EncodeChar c := by
  have hten : newline.toNat = 0x0A := rfl
  intro hmem
  have hwritten := Source.written_utf8EncodeChar c
  -- the bytes of a longer character are all too large; else there is one byte
  by_cases hlow : 0x80 ≤ c.toNat
  · have := hwritten.le_of_mem hlow _ hmem
    omega
  · generalize String.utf8EncodeChar c = front at *
    cases hwritten with
    | one ha hv =>
        rw [List.mem_singleton.mp hmem] at hten
        exact hc (Char.toNat_inj.mp (hv.trans hten))
    | two ha hb hv => omega
    | three ha hb hc hv =>
        rw [Source.isSecond_iff] at hb
        rw [Source.payload_eq] at hv
        omega
    | four ha hb hc hd hv =>
        rw [Source.isSecond_iff] at hb
        rw [Source.payload_eq] at hv
        omega

/-- **The newlines of a text are those of its bytes.** -/
theorem count_utf8 (text : List Char) : (utf8 text).count newline = text.count '\n' := by
  induction text with
  | nil => rfl
  | cons c text ih =>
      rw [utf8_cons, List.count_append, ih]
      by_cases hc : c = '\n'
      · rw [hc, utf8EncodeChar_newline, List.count_singleton_self, List.count_cons_self,
          Nat.add_comm]
      · rw [List.count_eq_zero_of_not_mem (newline_notMem_utf8EncodeChar hc), Nat.zero_add,
          List.count_cons_of_ne hc]

theorem newline_mem_utf8 {text : List Char} : newline ∈ utf8 text ↔ '\n' ∈ text := by
  rw [← List.count_pos_iff, count_utf8, List.count_pos_iff]

end Text

end RubySyntax
