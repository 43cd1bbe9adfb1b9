/-
  RubySyntax.Proofs.Version
  ─────────────────────────
  **WHICH TEXTS NAME A VERSION.**

  A text that names a version consists of two numbers with a point between them, or of three, of
  which the last one is dropped.  A number is a run of decimal digits, with zeros before it or
  none, and has a greatest value.  White space around the text does not matter.  What is read is
  that, and one thing more: a number may have a plus sign before it.

      3.4    03.4.17        named and read
      +3.+4                 read
      3.    3.256    -3.4   neither

  Main results:
    • `readNumber?_eq_some_iff` — which characters are read as a number,
    • `ofPieces?_splitPoints_eq_some_iff` — which are read as a version,
    • `parse_accepts` — which texts are read as a version, which of them name one, and what is
      reported about the others.
-/
import Mathlib.Data.List.TakeWhile
import Mathlib.Data.Nat.Digits.Defs
import RubySyntax.Version

namespace RubySyntax.Version

open RubySyntax.Text

/-! ## §1. Names of versions. -/

/-- How a number of at most `limit` is written. -/
abbrev Notation := (limit : Nat) → List Char → Nat → Prop

/-- Decimal digits, at least one. -/
def Numeral : Notation := fun limit text n =>
  ∃ ds : List (Fin 10), ds ≠ [] ∧ text = ds.map (fun d => Nat.digitChar d.val) ∧
    n = Nat.ofDigits 10 (ds.map (·.val)).reverse ∧ n ≤ limit

/-- Decimal digits, perhaps after a plus sign. -/
def SignedNumeral : Notation := fun limit text n =>
  Numeral limit text n ∨ ∃ digits, text = '+' :: digits ∧ Numeral limit digits n

/-- A version as two numbers with a point between them, or as three. -/
inductive Dotted (number : Notation) : List Char → Version → Prop where
  | minor {a b : List Char} {major minor : Nat} (ha : number maxPart a major)
      (hb : number maxPart b minor) : Dotted number (a ++ '.' :: b) ⟨major, minor⟩
  | patch {a b c : List Char} {major minor patch : Nat} (ha : number maxPart a major)
      (hb : number maxPart b minor) (hc : number maxPatch c patch) :
      Dotted number (a ++ '.' :: (b ++ '.' :: c)) ⟨major, minor⟩

/-- A text is a version with white space around it. -/
def Named (number : Notation) (text : String) (v : Version) : Prop :=
  ∃ before core after, text.toList = before ++ core ++ after ∧
    (∀ c ∈ before, isBlank c = true) ∧ (∀ c ∈ after, isBlank c = true) ∧ Dotted number core v

/-! ## §2. Numbers. -/

section Numbers

variable {limit n : Nat} {text : List Char}

/-- The digits are ten characters. -/
theorem isDigit_iff {c : Char} : isDigit c = true ↔ ∃ d : Fin 10, c = Nat.digitChar d.val := by
  refine ⟨fun h => ?_, ?_⟩
  · rw [isDigit, Bool.and_eq_true, decide_eq_true_eq, decide_eq_true_eq] at h
    obtain ⟨hlow, hhigh⟩ : 48 ≤ c.toNat ∧ c.toNat ≤ 57 := h
    have hall : ∀ n < 10, Nat.digitChar n = Char.ofNat (n + 48) := by decide
    refine ⟨⟨c.toNat - 48, by omega⟩, ?_⟩
    rw [hall _ (by omega), Nat.sub_add_cancel hlow, Char.ofNat_toNat]
  · rintro ⟨d, rfl⟩
    revert d
    decide

/-- The value of some characters, read from the left, is what the digits say. -/
theorem decimalValue_eq (ds : List (Fin 10)) :
    decimalValue (ds.map fun d => Nat.digitChar d.val) =
      Nat.ofDigits 10 (ds.map (·.val)).reverse := by
  have hdigit : ∀ d : Fin 10, (Nat.digitChar d.val).toNat - '0'.toNat = d.val := by decide
  rw [decimalValue, Nat.ofDigits_eq_foldr, List.foldr_reverse, List.foldl_map, List.foldl_map]
  simp only [hdigit, Nat.cast_id, Nat.add_comm, Nat.mul_comm]

theorem exists_digits : ∀ {text : List Char}, text.all isDigit = true →
    ∃ ds : List (Fin 10), text = ds.map fun d => Nat.digitChar d.val
  | [], _ => ⟨[], rfl⟩
  | c :: text, h => by
      rw [List.all_cons, Bool.and_eq_true] at h
      obtain ⟨d, rfl⟩ := isDigit_iff.mp h.1
      obtain ⟨ds, rfl⟩ := exists_digits h.2
      exact ⟨d :: ds, rfl⟩

/-- Digits alone are read as a number if they are a numeral. -/
theorem numeral_iff : Numeral limit text n ↔
    (text.isEmpty || !text.all isDigit) = false ∧ decimalValue text = n ∧ n ≤ limit := by
  rw [Bool.or_eq_false_iff, Bool.not_eq_false', List.isEmpty_eq_false_iff]
  constructor
  · rintro ⟨ds, hds, rfl, rfl, hn⟩
    refine ⟨⟨?_, ?_⟩, decimalValue_eq ds, hn⟩
    · rwa [ne_eq, List.map_eq_nil_iff]
    · rw [List.all_map, List.all_eq_true]
      exact fun d _ => isDigit_iff.mpr ⟨d, rfl⟩
  · rintro ⟨⟨hne, hall⟩, hvalue, hn⟩
    obtain ⟨ds, rfl⟩ := exists_digits hall
    refine ⟨ds, ?_, rfl, ?_, hn⟩
    · rwa [ne_eq, List.map_eq_nil_iff] at hne
    · rw [← hvalue, decimalValue_eq]

/-- A numeral has none but digits. -/
theorem Numeral.isDigit_of_mem (h : Numeral limit text n) : ∀ c ∈ text, isDigit c = true := by
  obtain ⟨ds, -, rfl, -⟩ := h
  intro c hc
  obtain ⟨d, -, rfl⟩ := List.mem_map.mp hc
  exact isDigit_iff.mpr ⟨d, rfl⟩

/-- **A numeral is read as its number**, and so it is after a plus sign; nothing else is. -/
theorem readNumber?_eq_some_iff : readNumber? limit text = some n ↔ SignedNumeral limit text n := by
  have hdigits : ∀ digits : List Char,
      (if digits.isEmpty || !digits.all isDigit then none
        else if decimalValue digits ≤ limit then some (decimalValue digits) else none) = some n ↔
      Numeral limit digits n := by
    intro digits
    rw [numeral_iff]
    cases digits.isEmpty || !digits.all isDigit with
    | true => simp
    | false =>
        simp only [Bool.false_eq_true, if_false, Option.ite_none_right_eq_some, Option.some.injEq,
          true_and]
        exact ⟨fun ⟨hle, hvalue⟩ => ⟨hvalue, hvalue ▸ hle⟩,
          fun ⟨hvalue, hle⟩ => ⟨hvalue ▸ hle, hvalue⟩⟩
  -- a text that begins with a plus sign is no numeral itself
  have hplus : ∀ rest : List Char, ¬ Numeral limit ('+' :: rest) n := fun rest h =>
    absurd (h.isDigit_of_mem _ List.mem_cons_self) (by decide)
  unfold readNumber? SignedNumeral
  split
  next rest =>
    refine (hdigits rest).trans ⟨fun h => .inr ⟨rest, rfl, h⟩, ?_⟩
    rintro (h | ⟨digits, heq, h⟩)
    · exact absurd h (hplus rest)
    · cases heq
      exact h
  next hne =>
    refine (hdigits text).trans ⟨.inl, ?_⟩
    rintro (h | ⟨digits, rfl, -⟩)
    · exact h
    · exact absurd rfl (hne digits)

/-- What numbers are made of: neither points nor white space. -/
theorem SignedNumeral.of_mem (h : SignedNumeral limit text n) :
    text ≠ [] ∧ ∀ c ∈ text, c ≠ '.' ∧ isBlank c = false := by
  have hdigit : ∀ c, isDigit c = true → c ≠ '.' ∧ isBlank c = false := by
    intro c hc
    obtain ⟨d, rfl⟩ := isDigit_iff.mp hc
    revert d
    decide
  have hnumeral : ∀ {digits}, Numeral limit digits n → ∀ c ∈ digits, c ≠ '.' ∧ isBlank c = false :=
    fun h c hc => hdigit c (h.isDigit_of_mem c hc)
  rcases h with h | ⟨digits, rfl, h⟩
  · have hne := (Bool.or_eq_false_iff.mp (numeral_iff.mp h).1).1
    exact ⟨List.isEmpty_eq_false_iff.mp hne, hnumeral h⟩
  · exact ⟨List.cons_ne_nil _ _, List.forall_mem_cons.mpr ⟨by decide, hnumeral h⟩⟩

/-- Of the numbers that are read the numerals are those without a plus sign. -/
theorem numeral_iff_signedNumeral :
    Numeral limit text n ↔ SignedNumeral limit text n ∧ '+' ∉ text := by
  refine ⟨fun h => ⟨.inl h, fun hplus => ?_⟩, ?_⟩
  · exact absurd (h.isDigit_of_mem _ hplus) (by decide)
  · rintro ⟨h | ⟨digits, rfl, -⟩, hplus⟩
    · exact h
    · exact absurd List.mem_cons_self hplus

end Numbers

/-! ## §3. Numbers with points between them. -/

section Pieces

variable {cs : List Char} {v : Version}

theorem splitPoints_eq_splitOn : ∀ cs : List Char, splitPoints cs = cs.splitOn '.'
  | [] => rfl
  | c :: cs => by
      have hne : cs.splitOn '.' ≠ [] := List.splitOn_ne_nil _ _
      have hsplit : (c :: cs).splitOn '.' = (c :: cs).splitOnP (· == '.') := List.splitOn_eq_splitOnP
      rw [splitPoints, splitPoints_eq_splitOn cs, hsplit, List.splitOnP_cons_eq_if_modifyHead,
        ← List.splitOn_eq_splitOnP]
      split
      next => rfl
      next =>
        cases hpieces : cs.splitOn '.' with
        | nil => exact absurd hpieces hne
        | cons piece pieces => rfl

/-- The pieces of a text with points are those that have been put together. -/
theorem splitPoints_eq_iff {pieces : List (List Char)} (hne : pieces ≠ [])
    (hpoint : ∀ piece ∈ pieces, '.' ∉ piece) :
    splitPoints cs = pieces ↔ cs = ['.'].intercalate pieces := by
  rw [splitPoints_eq_splitOn]
  constructor
  · rintro rfl
    exact (List.intercalate_splitOn (x := '.')).symm
  · rintro rfl
    exact List.splitOn_intercalate '.' hpoint hne

theorem ofPieces?_eq_some_iff {pieces : List (List Char)} : ofPieces? pieces = some v ↔
    (∃ a b, pieces = [a, b] ∧ SignedNumeral maxPart a v.major ∧ SignedNumeral maxPart b v.minor) ∨
      ∃ a b c patch, pieces = [a, b, c] ∧ SignedNumeral maxPart a v.major ∧
        SignedNumeral maxPart b v.minor ∧ SignedNumeral maxPatch c patch := by
  obtain ⟨major, minor⟩ := v
  simp only [← readNumber?_eq_some_iff]
  unfold ofPieces?
  split
  next a b => simp [Option.bind_eq_some_iff, and_assoc]
  next a b c => simp [Option.bind_eq_some_iff, and_assoc, and_left_comm]
  next h2 h3 =>
    refine ⟨nofun, ?_⟩
    rintro (⟨a, b, rfl, -⟩ | ⟨a, b, c, patch, rfl, -⟩)
    · exact absurd rfl (h2 a b)
    · exact absurd rfl (h3 a b c)

/-- **Two or three numbers are read as a version.** -/
theorem ofPieces?_splitPoints_eq_some_iff :
    ofPieces? (splitPoints cs) = some v ↔ Dotted SignedNumeral cs v := by
  have hpoint : ∀ {limit piece n}, SignedNumeral limit piece n → '.' ∉ piece :=
    fun h hmem => (h.of_mem.2 _ hmem).1 rfl
  rw [ofPieces?_eq_some_iff]
  constructor
  · rintro (⟨a, b, hpieces, ha, hb⟩ | ⟨a, b, c, patch, hpieces, ha, hb, hc⟩)
    · rw [splitPoints_eq_iff (by simp) (by simp [hpoint ha, hpoint hb])] at hpieces
      simpa [hpieces] using Dotted.minor ha hb
    · rw [splitPoints_eq_iff (by simp) (by simp [hpoint ha, hpoint hb, hpoint hc])] at hpieces
      simpa [hpieces] using Dotted.patch ha hb hc
  · rintro (@⟨a, b, major, minor, ha, hb⟩ | @⟨a, b, c, major, minor, patch, ha, hb, hc⟩)
    · refine .inl ⟨a, b, ?_, ha, hb⟩
      rw [splitPoints_eq_iff (by simp) (by simp [hpoint ha, hpoint hb])]
      simp
    · refine .inr ⟨a, b, c, patch, ?_, ha, hb, hc⟩
      rw [splitPoints_eq_iff (by simp) (by simp [hpoint ha, hpoint hb, hpoint hc])]
      simp

/-- A version begins and ends with characters that are not white space. -/
theorem Dotted.ends (h : Dotted SignedNumeral cs v) :
    (∃ c ∈ cs.head?, isBlank c = false) ∧ ∃ c ∈ cs.getLast?, isBlank c = false := by
  have hhead : ∀ {limit piece n}, SignedNumeral limit piece n → ∀ after : List Char,
      ∃ c ∈ (piece ++ after).head?, isBlank c = false := by
    intro limit piece n h after
    obtain ⟨hne, hall⟩ := h.of_mem
    obtain ⟨c, more, rfl⟩ := List.exists_cons_of_ne_nil hne
    exact ⟨c, rfl, (hall c List.mem_cons_self).2⟩
  have hlast : ∀ {limit piece n}, SignedNumeral limit piece n → ∀ before : List Char,
      ∃ c ∈ (before ++ piece).getLast?, isBlank c = false := by
    intro limit piece n h before
    obtain ⟨hne, hall⟩ := h.of_mem
    refine ⟨piece.getLast hne, ?_, (hall _ (List.getLast_mem hne)).2⟩
    rw [List.getLast?_append, List.getLast?_eq_some_getLast hne]
    rfl
  cases h with
  | @minor a b _ _ ha hb =>
      refine ⟨hhead ha _, ?_⟩
      simpa using hlast hb (a ++ ['.'])
  | @patch a b c _ _ _ ha _ hc =>
      refine ⟨hhead ha _, ?_⟩
      simpa using hlast hc (a ++ '.' :: (b ++ ['.']))

/-- A version is written without plus signs if all its numbers are. -/
theorem dotted_numeral_iff :
    Dotted Numeral cs v ↔ Dotted SignedNumeral cs v ∧ '+' ∉ cs := by
  constructor
  · rintro (@⟨a, b, _, _, ha, hb⟩ | @⟨a, b, c, _, _, _, ha, hb, hc⟩)
    · obtain ⟨ha, hplusA⟩ := numeral_iff_signedNumeral.mp ha
      obtain ⟨hb, hplusB⟩ := numeral_iff_signedNumeral.mp hb
      exact ⟨.minor ha hb, by simp [hplusA, hplusB]⟩
    · obtain ⟨ha, hplusA⟩ := numeral_iff_signedNumeral.mp ha
      obtain ⟨hb, hplusB⟩ := numeral_iff_signedNumeral.mp hb
      obtain ⟨hc, hplusC⟩ := numeral_iff_signedNumeral.mp hc
      exact ⟨.patch ha hb hc, by simp [hplusA, hplusB, hplusC]⟩
  · rintro ⟨@⟨a, b, _, _, ha, hb⟩ | @⟨a, b, c, _, _, _, ha, hb, hc⟩, hplus⟩
    · simp only [List.mem_append, List.mem_cons, not_or] at hplus
      exact .minor (numeral_iff_signedNumeral.mpr ⟨ha, hplus.1⟩)
        (numeral_iff_signedNumeral.mpr ⟨hb, hplus.2.2⟩)
    · simp only [List.mem_append, List.mem_cons, not_or] at hplus
      exact .patch (numeral_iff_signedNumeral.mpr ⟨ha, hplus.1⟩)
        (numeral_iff_signedNumeral.mpr ⟨hb, hplus.2.2.1⟩)
        (numeral_iff_signedNumeral.mpr ⟨hc, hplus.2.2.2.2⟩)

end Pieces

/-! ## §4. Texts. -/

/-- Trimming takes away characters of the class at the two ends of a text. -/
theorem exists_trimBoth (p : Char → Bool) (text : List Char) : ∃ before after,
    text = before ++ trimBoth p text ++ after ∧ (∀ c ∈ before, p c = true) ∧
      ∀ c ∈ after, p c = true := by
  refine ⟨text.takeWhile p, ((text.dropWhile p).reverse.takeWhile p).reverse, ?_, ?_, ?_⟩
  · rw [List.append_assoc, trimBoth, ← List.reverse_append, List.takeWhile_append_dropWhile,
      List.reverse_reverse, List.takeWhile_append_dropWhile]
  · exact fun c hc => List.mem_takeWhile_imp hc
  · exact fun c hc => List.mem_takeWhile_imp (List.mem_reverse.mp hc)

/-- Nothing more is taken away. -/
theorem trimBoth_append {p : Char → Bool} {before core after : List Char}
    (hbefore : ∀ c ∈ before, p c = true) (hafter : ∀ c ∈ after, p c = true)
    (hhead : ∃ c ∈ core.head?, p c = false) (hlast : ∃ c ∈ core.getLast?, p c = false) :
    trimBoth p (before ++ core ++ after) = core := by
  obtain ⟨c, hc, hp⟩ := hhead
  obtain ⟨more, rfl⟩ := List.head?_eq_some_iff.mp hc
  obtain ⟨d, hd, hq⟩ := hlast
  obtain ⟨init, hinit⟩ := List.getLast?_eq_some_iff.mp hd
  have hfront : (before ++ (c :: more) ++ after).dropWhile p = (c :: more) ++ after := by
    rw [List.append_assoc, List.dropWhile_append_of_pos hbefore, List.cons_append,
      List.dropWhile_cons_of_neg (by simp [hp])]
  have hback : ((c :: more) ++ after).reverse.dropWhile p = (c :: more).reverse := by
    rw [List.reverse_append,
      List.dropWhile_append_of_pos fun c hc => hafter c (List.mem_reverse.mp hc),
      hinit, List.reverse_append, List.reverse_singleton, List.singleton_append,
      List.dropWhile_cons_of_neg (by simp [hq])]
  rw [trimBoth, hfront, hback, List.reverse_reverse]

/-- A text is read as a version if what is between its white space is. -/
theorem ofPieces?_trimBoth_eq_some_iff {text : String} {v : Version} :
    ofPieces? (splitPoints (trimBoth isBlank text.toList)) = some v ↔
      Named SignedNumeral text v := by
  rw [ofPieces?_splitPoints_eq_some_iff]
  constructor
  · intro h
    obtain ⟨before, after, htext, hbefore, hafter⟩ := exists_trimBoth isBlank text.toList
    exact ⟨before, _, after, htext, hbefore, hafter, h⟩
  · rintro ⟨before, core, after, htext, hbefore, hafter, h⟩
    obtain ⟨hhead, hlast⟩ := h.ends
    rwa [htext, trimBoth_append hbefore hafter hhead hlast]

/-- A plus sign is no white space. -/
theorem named_numeral_iff {text : String} {v : Version} :
    Named Numeral text v ↔ Named SignedNumeral text v ∧ '+' ∉ text.toList := by
  have hblank : ∀ {cs : List Char}, (∀ c ∈ cs, isBlank c = true) → '+' ∉ cs :=
    fun h hmem => absurd (h _ hmem) (by decide)
  constructor
  · rintro ⟨before, core, after, htext, hbefore, hafter, h⟩
    obtain ⟨h, hplus⟩ := dotted_numeral_iff.mp h
    refine ⟨⟨before, core, after, htext, hbefore, hafter, h⟩, ?_⟩
    rw [htext, List.mem_append, List.mem_append, not_or, not_or]
    exact ⟨⟨hblank hbefore, hplus⟩, hblank hafter⟩
  · rintro ⟨⟨before, core, after, htext, hbefore, hafter, h⟩, hplus⟩
    rw [htext, List.mem_append, List.mem_append, not_or, not_or] at hplus
    exact ⟨before, core, after, htext, hbefore, hafter, dotted_numeral_iff.mpr ⟨h, hplus.1.2⟩⟩

/-- **Which texts are read as a version**: those that name one, with plus signs before their numbers
or without.  Without plus signs the texts that are read are those that name a version.  About any
other text the report is the text as it was given. -/
theorem parse_accepts (text : String) :
    (∀ v, parse text = .ok v ↔ Named SignedNumeral text v) ∧
    (∀ v, Named Numeral text v ↔ parse text = .ok v ∧ '+' ∉ text.toList) ∧
    ∀ e, parse text = .error e ↔ e = ⟨text⟩ ∧ ∀ v, ¬ Named SignedNumeral text v := by
  have hok : ∀ v, parse text = .ok v ↔ Named SignedNumeral text v := by
    intro v
    rw [← ofPieces?_trimBoth_eq_some_iff, parse]
    split
    next w hw => simp [hw]
    next hnone => simp [hnone]
  refine ⟨hok, fun v => named_numeral_iff.trans (and_congr_left fun _ => (hok v).symm), fun e => ?_⟩
  simp only [← hok]
  unfold parse
  split
  next w _ => exact ⟨nofun, fun h => absurd rfl (h.2 w)⟩
  next =>
    refine ⟨fun h => ⟨(Except.error.inj h).symm, nofun⟩, ?_⟩
    rintro ⟨rfl, -⟩
    rfl

/-- Zeros may stand before a number, and white space around the text. -/
example : parse " 003.4.65535\n" = .ok ⟨3, 4⟩ := by decide +kernel

/-- A plus sign is read, a number beyond the greatest one is not. -/
example : parse "+3.+4" = .ok ⟨3, 4⟩ ∧ parse "3.256 " = .error ⟨"3.256 "⟩ := by decide +kernel

end RubySyntax.Version
