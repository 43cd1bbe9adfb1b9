/-
  RubySyntax.Proofs.Text.LineStart
  ────────────────────────────────
  **THE TABLE OF LINES, BYTE BY BYTE.**

  The table of a text is made from its characters, but offsets may fall inside of a character.
  Only the byte of a newline ends a line, and no other character has that byte; so the table is
  the one that is made from the bytes, and for it any offset is as good as any other.

      starts of front ++ back up to the end of front   =   starts of front

  Main results:
    • `afterNewlines_eq` — the lines of a text begin where those of its bytes do,
    • `LineTable.pairwise_starts` — the starts rise, so that a search by halves finds its way,
    • `LineTable.exists_start_of_lineCol` — line and column of any offset,
    • `LineTable.lineStart?_of_lt`, `LineTable.lineCount_ofChars` — the table and the lines of a
      text.
-/
import Mathlib.Data.List.Induction
import RubySyntax.Proofs.Text.Lines
import RubySyntax.Proofs.Text.Utf8

namespace RubySyntax.Text

/-! ## §1. Newlines among bytes. -/

/-- The offsets just after each newline, for bytes that begin at `offset`. -/
def newlineEnds (offset : Nat) : List UInt8 → List Nat
  | [] => []
  | b :: rest =>
    if b = newline then (offset + 1) :: newlineEnds (offset + 1) rest
    else newlineEnds (offset + 1) rest

section NewlineEnds

variable {a b bytes : List UInt8} {offset begun : Nat}

theorem newlineEnds_append (a b : List UInt8) (offset : Nat) : newlineEnds offset (a ++ b) =
    newlineEnds offset a ++ newlineEnds (offset + a.length) b := by
  induction a generalizing offset with
  | nil => rfl
  | cons c a ih =>
      rw [List.cons_append, newlineEnds, newlineEnds, List.length_cons, Nat.add_comm a.length,
        ← Nat.add_assoc, ih]
      split <;> rfl

theorem newlineEnds_eq_nil (h : newline ∉ a) : newlineEnds offset a = [] := by
  induction a generalizing offset with
  | nil => rfl
  | cons c a ih =>
      rw [List.mem_cons, not_or] at h
      rw [newlineEnds, if_neg (Ne.symm h.1), ih h.2]

theorem length_newlineEnds (offset : Nat) (bytes : List UInt8) :
    (newlineEnds offset bytes).length = bytes.count newline := by
  induction bytes generalizing offset with
  | nil => rfl
  | cons c bytes ih =>
      rw [newlineEnds, List.count_cons]
      split
      next hc => rw [List.length_cons, ih, if_pos (beq_iff_eq.mpr hc)]
      next hc => rw [ih, if_neg (fun h => hc (beq_iff_eq.mp h)), Nat.add_zero]

theorem lt_of_mem_newlineEnds (h : begun ∈ newlineEnds offset bytes) :
    offset < begun ∧ begun ≤ offset + bytes.length := by
  induction bytes generalizing offset with
  | nil => cases h
  | cons c bytes ih =>
      rw [newlineEnds] at h
      rw [List.length_cons]
      split at h
      · rcases List.mem_cons.mp h with rfl | h
        · omega
        · have := ih h
          omega
      · have := ih h
        omega

theorem pairwise_newlineEnds (offset : Nat) (bytes : List UInt8) :
    (newlineEnds offset bytes).Pairwise (· < ·) := by
  induction bytes generalizing offset with
  | nil => exact .nil
  | cons c bytes ih =>
      rw [newlineEnds]
      split
      · exact .cons (fun _ h => (lt_of_mem_newlineEnds h).1) (ih _)
      · exact ih _

/-- **The lines of a text begin where those of its bytes do.** -/
theorem afterNewlines_eq (offset : Nat) (text : List Char) :
    afterNewlines offset text = newlineEnds offset (utf8 text) := by
  -- a character other than a newline has no byte of one, and only moves the offset
  induction text generalizing offset with
  | nil => rfl
  | cons c text ih =>
      rw [afterNewlines, utf8_cons, newlineEnds_append, String.length_utf8EncodeChar, ← ih]
      split
      next hc =>
        rw [beq_iff_eq.mp hc]
        rfl
      next hc =>
        rw [newlineEnds_eq_nil (newline_notMem_utf8EncodeChar fun h => hc (beq_iff_eq.mpr h)),
          List.nil_append]

/-- The last line of some bytes, with the offset at which it begins. -/
theorem exists_lastLine (bytes : List UInt8) : ∃ initial line, bytes = initial ++ line ∧
    newline ∉ line ∧ (0 :: newlineEnds 0 bytes).getLast? = some initial.length := by
  induction bytes using List.reverseRecOn with
  | nil => exact ⟨[], [], rfl, List.not_mem_nil, rfl⟩
  | append_singleton bytes c ih =>
      have hends : newlineEnds 0 (bytes ++ [c]) =
          newlineEnds 0 bytes ++ if c = newline then [bytes.length + 1] else [] := by
        rw [newlineEnds_append, Nat.zero_add]
        rfl
      by_cases hc : c = newline
      · refine ⟨bytes ++ [c], [], (List.append_nil _).symm, List.not_mem_nil, ?_⟩
        rw [hends, if_pos hc, ← List.cons_append, List.getLast?_append, List.length_append]
        rfl
      · obtain ⟨initial, line, rfl, hline, hlast⟩ := ih
        refine ⟨initial, line ++ [c], List.append_assoc .., ?_, ?_⟩
        · rw [List.mem_append, List.mem_singleton, not_or]
          exact ⟨hline, Ne.symm hc⟩
        · rw [hends, if_neg hc, List.append_nil, hlast]

end NewlineEnds

/-! ## §2. Lines and columns. -/

namespace LineTable

variable {text : List Char} {offset line : Nat}

theorem starts_ofChars (text : List Char) :
    (ofChars text).starts = 0 :: newlineEnds 0 (utf8 text) := by
  rw [ofChars, afterNewlines_eq]

/-- **The starts of lines rise.** -/
theorem pairwise_starts (text : List Char) : (ofChars text).starts.Pairwise (· < ·) := by
  rw [starts_ofChars]
  exact .cons (fun _ h => (lt_of_mem_newlineEnds h).1) (pairwise_newlineEnds _ _)

/-- The lines that begin up to an offset are those of the bytes before it. -/
theorem takeWhile_starts (text : List Char) (offset : Nat) :
    (ofChars text).starts.takeWhile (· ≤ min offset (byteLength text)) =
      0 :: newlineEnds 0 ((utf8 text).take offset) := by
  have hlength : ((utf8 text).take offset).length = min offset (byteLength text) := by
    rw [List.length_take, length_utf8]
  have hsplit := newlineEnds_append ((utf8 text).take offset) ((utf8 text).drop offset) 0
  rw [List.take_append_drop, Nat.zero_add, hlength] at hsplit
  rw [starts_ofChars, hsplit, ← List.cons_append, List.takeWhile_append_of_pos,
    List.append_right_eq_self, List.takeWhile_eq_nil_iff]
  · -- those of the other bytes are behind the offset
    intro hmore
    rw [decide_eq_true_eq, Nat.not_le]
    exact (lt_of_mem_newlineEnds (List.getElem_mem hmore)).1
  · intro begun hbegun
    rw [decide_eq_true_eq]
    rcases List.mem_cons.mp hbegun with rfl | hbegun
    · exact Nat.zero_le _
    · have := (lt_of_mem_newlineEnds hbegun).2
      omega

/-- **A line begins before any offset, and between them there is no newline.**  The number of the
line counts the newlines before the offset. -/
theorem exists_start_of_lineCol (text : List Char) (offset : Nat) :
    ∃ start, (ofChars text).lineStart? ((ofChars text).lineCol offset).1 = some start ∧
      start + ((ofChars text).lineCol offset).2 = min offset (byteLength text) ∧
      newline ∉ ((utf8 text).take offset).drop start ∧
      ((ofChars text).lineCol offset).1 = ((utf8 text).take offset).count newline + 1 := by
  have hbegun := takeWhile_starts text offset
  obtain ⟨initial, line, hfront, hline, hlast⟩ := exists_lastLine ((utf8 text).take offset)
  have hlineCol : (ofChars text).lineCol offset = (((utf8 text).take offset).count newline + 1,
      min offset (byteLength text) - initial.length) := by
    refine Prod.ext ?_ ?_
    · show ((ofChars text).starts.takeWhile (· ≤ min offset (byteLength text))).length = _
      rw [hbegun, List.length_cons, length_newlineEnds]
    · show min offset (byteLength text) -
        ((ofChars text).starts.takeWhile (· ≤ min offset (byteLength text))).getLastD 0 = _
      rw [hbegun, List.getLastD_eq_getLast?, hlast, Option.getD_some]
  have hlength := congrArg List.length hfront
  rw [List.length_take, length_utf8, List.length_append] at hlength
  rw [hlineCol]
  refine ⟨initial.length, ?_, by omega, ?_, rfl⟩
  · -- the last of the starts up to the offset, which are the first of all starts
    obtain ⟨more, hmore⟩ := List.takeWhile_prefix (l := (ofChars text).starts)
      (· ≤ min offset (byteLength text))
    rw [hbegun] at hmore
    rw [List.getLast?_eq_getElem?, List.length_cons, Nat.add_sub_cancel,
      length_newlineEnds] at hlast
    rw [lineStart?, if_neg (by simp), Nat.add_sub_cancel, ← hmore, List.getElem?_append_left, hlast]
    rw [List.length_cons, length_newlineEnds]
    exact Nat.lt_succ_self _
  · rw [hfront, List.drop_left]
    exact hline

/-- **A later line begins behind the offset.** -/
theorem lt_of_lineCol_lt {start : Nat} (h : ((ofChars text).lineCol offset).1 < line)
    (hstart : (ofChars text).lineStart? line = some start) :
    min offset (byteLength text) < start := by
  rw [lineStart?, if_neg (by rw [beq_iff_eq]; omega)] at hstart
  have hcut := List.takeWhile_append_dropWhile (p := (· ≤ min offset (byteLength text)))
    (l := (ofChars text).starts)
  have hrise := pairwise_starts text
  have hbegun : ((ofChars text).starts.takeWhile (· ≤ min offset (byteLength text))).length ≤
      line - 1 := Nat.le_sub_one_of_lt h
  rw [← hcut] at hrise hstart
  rw [List.getElem?_append_right hbegun] at hstart
  have hmem := List.mem_of_getElem? hstart
  have hrise := (List.pairwise_append.mp hrise).2.1
  -- the first of the starts that are left is behind the offset, and the others are behind it
  have hfirst := List.head?_dropWhile_not (· ≤ min offset (byteLength text)) (ofChars text).starts
  cases hleft : (ofChars text).starts.dropWhile (· ≤ min offset (byteLength text)) with
  | nil =>
      rw [hleft] at hmem
      cases hmem
  | cons first more =>
      rw [hleft] at hmem hrise hfirst
      have hfirst : min offset (byteLength text) < first := by
        rw [List.head?_cons] at hfirst
        exact Nat.not_le.mp (of_decide_eq_false hfirst)
      rcases List.mem_cons.mp hmem with rfl | hmem
      · exact hfirst
      · exact Nat.lt_trans hfirst (List.rel_of_pairwise_cons hrise hmem)

theorem one_le_lineCol (text : List Char) (offset : Nat) :
    1 ≤ ((ofChars text).lineCol offset).1 := by
  obtain ⟨-, -, -, -, hcount⟩ := exists_start_of_lineCol text offset
  omega

theorem length_starts (text : List Char) :
    (ofChars text).starts.length = (utf8 text).count newline + 1 := by
  rw [starts_ofChars, List.length_cons, length_newlineEnds]

/-- **There is a start for each newline, and one more.** -/
theorem isSome_lineStart? : ((ofChars text).lineStart? line).isSome ↔
    1 ≤ line ∧ line ≤ (utf8 text).count newline + 1 := by
  have hlength := length_starts text
  rw [lineStart?]
  split
  next hzero =>
    rw [beq_iff_eq] at hzero
    simp [hzero]
  next hpos =>
    rw [beq_iff_eq] at hpos
    rw [Option.isSome_iff_ne_none, ne_eq, List.getElem?_eq_none_iff, hlength]
    omega

end LineTable

/-! ## §3. The lines of a text. -/

section Lines

variable {text line : List Char}

/-- A newline is the last character of its line. -/
theorem newline_notMem_dropLast (h : line ∈ splitLines text) : '\n' ∉ line.dropLast := by
  induction text generalizing line with
  | nil => cases h
  | cons c rest ih =>
      rw [splitLines] at h
      split at h
      next =>
        rcases List.mem_cons.mp h with rfl | h
        · exact List.not_mem_nil
        · exact ih h
      next hc =>
        rw [beq_iff_eq] at hc
        split at h
        next =>
          rw [List.mem_singleton.mp h]
          exact List.not_mem_nil
        next first lines hlines =>
          -- the first character is before the line that the rest begins with, so it is not the last
          rcases List.mem_cons.mp h with rfl | h
          · have hfirst : first ∈ splitLines rest := hlines ▸ List.mem_cons_self
            rw [List.dropLast_cons_of_ne_nil (ne_nil_of_mem_splitLines hfirst), List.mem_cons,
              not_or]
            exact ⟨Ne.symm hc, ih hfirst⟩
          · exact ih (hlines ▸ List.mem_cons_of_mem _ h)

/-- All lines but the last one end with a newline. -/
theorem getLast?_of_mem_dropLast (h : line ∈ (splitLines text).dropLast) :
    line.getLast? = some '\n' := by
  obtain ⟨before, after, hlines⟩ := List.append_of_mem h
  have hne : splitLines text ≠ [] := fun hnil => by
    rw [hnil] at h
    cases h
  have hcut : splitLines text =
      (before ++ [line]) ++ (after ++ [(splitLines text).getLast hne]) := by
    rw [← List.append_assoc, List.append_assoc before, List.singleton_append, ← hlines,
      List.dropLast_concat_getLast]
  have hmem : line ∈ splitLines text := List.dropLast_subset _ h
  -- a line begins behind this one
  have hbegins := (beginsLine_of_splitLines_eq hcut (by simp)).1
  rw [List.flatten_append, List.flatten_singleton,
    beginsLine_append (ne_nil_of_mem_splitLines hmem)] at hbegins
  exact hbegins.resolve_left (ne_nil_of_mem_splitLines hmem)

/-- The byte of a newline is the last byte of its line. -/
theorem newline_notMem_dropLast_utf8 (h : '\n' ∉ line.dropLast) :
    newline ∉ (utf8 line).dropLast := by
  rcases List.eq_nil_or_concat line with rfl | ⟨initial, c, rfl⟩
  · exact List.not_mem_nil
  · rw [List.concat_eq_append, List.dropLast_concat] at h
    have hne : utf8 [c] ≠ [] := by
      rw [← List.length_pos_iff, length_utf8]
      exact byteLength_pos (List.cons_ne_nil _ _)
    rw [List.concat_eq_append, utf8_append, List.dropLast_append_of_ne_nil hne, List.mem_append,
      not_or, newline_mem_utf8]
    refine ⟨h, ?_⟩
    rw [utf8_cons, utf8_nil, List.append_nil]
    by_cases hc : c = '\n'
    · rw [hc]
      exact List.not_mem_nil
    · exact fun hmem => newline_notMem_utf8EncodeChar hc (List.dropLast_subset _ hmem)

theorem join_map_ofList (lines : List (List Char)) :
    String.join (lines.map String.ofList) = String.ofList lines.flatten := by
  rw [← String.toList_inj, String.toList_join, String.toList_ofList, List.flatMap_map]
  simp

theorem getLast?_utf8 (h : line.getLast? = some '\n') : (utf8 line).getLast? = some newline := by
  obtain ⟨initial, rfl⟩ := List.getLast?_eq_some_iff.mp h
  rw [utf8_append, List.getLast?_append]
  rfl

end Lines

namespace LineTable

variable {text : List Char} {i : Nat}

/-- **Each line begins behind those before it.** -/
theorem lineStart?_of_lt (h : i < (splitLines text).length) :
    (ofChars text).lineStart? (i + 1) = some (byteLength ((splitLines text).take i).flatten) := by
  have hcut := (List.take_append_drop i (splitLines text)).symm
  have hmore : (splitLines text).drop i ≠ [] := by
    rw [← List.length_pos_iff, List.length_drop]
    omega
  obtain ⟨hbegins, hbefore⟩ := beginsLine_of_splitLines_eq hcut hmore
  have hcount := length_splitLines_of_beginsLine hbegins
  rw [hbefore, List.length_take, Nat.min_eq_left (Nat.le_of_lt h)] at hcount
  have htext : text =
      ((splitLines text).take i).flatten ++ ((splitLines text).drop i).flatten := by
    rw [← List.flatten_append, List.take_append_drop, flatten_splitLines]
  generalize ((splitLines text).take i).flatten = before at *
  -- as many lines begin in what is before as there are newlines in it, and the last one behind it
  have hlast := getLastD_afterNewlines hbegins
  have hlength : (0 :: afterNewlines 0 before).length = i + 1 := by
    rw [List.length_cons, afterNewlines_eq, length_newlineEnds, count_utf8, hcount]
  rw [List.getLastD_eq_getLast?, List.getLast?_eq_getElem?, hlength, Nat.add_sub_cancel,
    List.getElem?_eq_getElem (by omega), Option.getD_some] at hlast
  rw [lineStart?, if_neg (by simp), Nat.add_sub_cancel, htext]
  show (0 :: afterNewlines 0 (before ++ _))[i]? = _
  rw [afterNewlines_append, ← List.cons_append, List.getElem?_append_left (by omega),
    List.getElem?_eq_getElem (by omega), hlast]

/-- **The table counts the lines of a text.** -/
theorem lineCount_ofChars (text : List Char) :
    (ofChars text).lineCount = (splitLines text).length := by
  have hlength : (ofChars text).starts.length = text.count '\n' + 1 := by
    rw [length_starts, count_utf8]
  rw [lineCount, hlength, length_splitLines]
  show (if byteLength text == 0 then 0 else
    if (0 :: afterNewlines 0 text).getLastD 0 == byteLength text then _ else _) = _
  split
  next hzero =>
    rw [beq_iff_eq] at hzero
    have hnil : text = [] := by
      by_contra hne
      have := byteLength_pos hne
      omega
    rw [hnil]
    rfl
  split
  next hlast =>
    rw [beq_iff_eq] at hlast
    by_cases hbegins : BeginsLine text
    · rw [if_pos hbegins]
      rfl
    · -- else the last line has a character
      obtain ⟨hline, initial, htext, hinitial⟩ := exists_append_lastLine text
      rw [htext, afterNewlines_append, afterNewlines_eq_nil hline, List.append_nil,
        getLastD_afterNewlines hinitial, byteLength_append] at hlast
      have hnil : lastLine text = [] := by
        by_contra hne
        have := byteLength_pos hne
        omega
      rw [hnil, List.append_nil] at htext
      exact absurd (htext ▸ hinitial) hbegins
  next hlast =>
    rw [if_neg fun hbegins => hlast (beq_iff_eq.mpr (getLastD_afterNewlines hbegins))]

end LineTable

end RubySyntax.Text
