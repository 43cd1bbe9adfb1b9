/-
  RubySyntax.Proofs.Text.Lines
  ────────────────────────────
  **WHERE LINES BEGIN.**

  A line begins at the beginning of a text and after each newline.  At such a place the lines of
  a text can be cut in two, and the number of newlines before it says how many lines there are
  before it; so the newlines, the lines and the table of a text count the same.

      before ++ after,  a line begins after `before`   ⇒   lines = lines before ++ lines after

  Main results:
    • `splitLines_append` — the lines of a text are those before a line, and those from there on,
    • `length_splitLines` — how many lines there are,
    • `exists_of_splitLines_eq` — each cut between lines is a place where a line begins,
    • `LineTable.lineCol_ofChars` — the table counts the newlines before an offset.
-/
import Mathlib.Data.List.Basic
import Mathlib.Data.List.TakeWhile
import RubySyntax.Text.Lines

namespace RubySyntax.Text

/-! ## §1. Beginnings. -/

/-- After some characters a line begins: there are none, or the last of them is a newline. -/
def BeginsLine (before : List Char) : Prop := before = [] ∨ before.getLast? = some '\n'

instance (before : List Char) : Decidable (BeginsLine before) :=
  inferInstanceAs (Decidable (_ ∨ _))

theorem beginsLine_nil : BeginsLine [] := .inl rfl

/-- After some more characters a line begins if it begins after these. -/
theorem beginsLine_append {before : List Char} (hne : before ≠ []) (start : List Char) :
    BeginsLine (start ++ before) ↔ BeginsLine before := by
  unfold BeginsLine
  rw [List.getLast?_append_of_ne_nil start hne]
  simp [hne]

theorem beginsLine_newline_cons {before : List Char} (h : BeginsLine before) :
    BeginsLine ('\n' :: before) := by
  rcases List.eq_nil_or_concat before with rfl | ⟨_, _, rfl⟩
  · exact .inr rfl
  · exact (beginsLine_append (by simp) ['\n']).mpr h

/-- A line that begins after some characters and more begins after a newline among the latter. -/
theorem newline_mem_of_beginsLine {start before : List Char} (hne : before ≠ [])
    (h : BeginsLine (start ++ before)) : '\n' ∈ before := by
  rcases (beginsLine_append hne start).mp h with rfl | hlast
  · exact absurd rfl hne
  · exact List.mem_of_getLast? hlast

/-! ## §2. Lines. -/

@[simp] theorem splitLines_nil : splitLines [] = [] := rfl

@[simp] theorem splitLines_newline (rest : List Char) :
    splitLines ('\n' :: rest) = ['\n'] :: splitLines rest := rfl

/-- A character that is no newline is in the first line. -/
theorem splitLines_cons {c : Char} (hc : c ≠ '\n') {rest line : List Char} {lines : List (List Char)}
    (h : splitLines rest = line :: lines) : splitLines (c :: rest) = (c :: line) :: lines := by
  rw [splitLines, if_neg (by simpa using hc), h]

theorem splitLines_singleton (c : Char) : splitLines [c] = [[c]] := by
  rw [splitLines]
  split <;> rfl

theorem exists_splitLines_cons (c : Char) (rest : List Char) :
    ∃ line lines, splitLines (c :: rest) = (c :: line) :: lines := by
  rw [splitLines]
  split
  · exact ⟨[], _, rfl⟩
  · split
    · exact ⟨[], [], rfl⟩
    · exact ⟨_, _, rfl⟩

/-- **The lines of a text are those before a line, and those from there on.** -/
theorem splitLines_append {before : List Char} (h : BeginsLine before) (after : List Char) :
    splitLines (before ++ after) = splitLines before ++ splitLines after := by
  induction before with
  | nil => rfl
  | cons c before ih =>
      by_cases hnil : before = []
      · subst hnil
        obtain rfl : c = '\n' := by simpa [BeginsLine] using h
        rfl
      have hmore := ih ((beginsLine_append hnil [c]).mp h)
      by_cases hc : c = '\n'
      · subst hc
        rw [List.cons_append, splitLines_newline, hmore, splitLines_newline, List.cons_append]
      · -- the character is put before the first line, which there is
        obtain ⟨d, before, rfl⟩ := List.exists_cons_of_ne_nil hnil
        obtain ⟨line, lines, hlines⟩ := exists_splitLines_cons d before
        rw [hlines, List.cons_append] at hmore
        rw [List.cons_append, splitLines_cons hc hlines]
        exact splitLines_cons hc hmore

/-- **How many lines there are**: one for each newline, and one more if the text does not end
where a line begins. -/
theorem length_splitLines (text : List Char) :
    (splitLines text).length = text.count '\n' + if BeginsLine text then 0 else 1 := by
  induction text with
  | nil => rfl
  | cons c rest ih =>
      by_cases hnil : rest = []
      · subst hnil
        rw [splitLines_singleton]
        by_cases hc : c = '\n' <;> simp [BeginsLine, hc]
      have hbegins := beginsLine_append hnil [c]
      rw [List.singleton_append] at hbegins
      simp only [hbegins]
      by_cases hc : c = '\n'
      · subst hc
        rw [splitLines_newline, List.length_cons, ih, List.count_cons_self]
        omega
      · -- a character that is no newline joins the line that follows it
        obtain ⟨d, rest, rfl⟩ := List.exists_cons_of_ne_nil hnil
        obtain ⟨line, lines, hlines⟩ := exists_splitLines_cons d rest
        rw [splitLines_cons hc hlines, List.count_cons_of_ne hc, ← ih, hlines]
        rfl

theorem length_splitLines_of_beginsLine {text : List Char} (h : BeginsLine text) :
    (splitLines text).length = text.count '\n' := by
  rw [length_splitLines, if_pos h, Nat.add_zero]

/-- The lines put together are the text. -/
theorem flatten_splitLines (text : List Char) : (splitLines text).flatten = text := by
  induction text with
  | nil => rfl
  | cons c rest ih =>
      rw [splitLines]
      split
      · rw [List.flatten_cons, ih, List.singleton_append]
      · split
        next hlines =>
          rw [hlines, List.flatten_nil] at ih
          rw [← ih]
          rfl
        next line lines hlines =>
          rw [hlines, List.flatten_cons] at ih
          rw [List.flatten_cons, List.cons_append, ih]

/-- No line is empty, not even one without a content: it has its newline. -/
theorem ne_nil_of_mem_splitLines {text line : List Char} (h : line ∈ splitLines text) :
    line ≠ [] := by
  induction text generalizing line with
  | nil => cases h
  | cons c rest ih =>
      rw [splitLines] at h
      split at h
      · rcases List.mem_cons.mp h with rfl | h
        · exact List.cons_ne_nil _ _
        · exact ih h
      · split at h
        · rw [List.mem_singleton.mp h]
          exact List.cons_ne_nil _ _
        next hlines =>
          rcases List.mem_cons.mp h with rfl | h
          · exact List.cons_ne_nil _ _
          · exact ih (hlines ▸ List.mem_cons_of_mem _ h)

/-- **At each cut between lines a line begins**, and the lines before the cut are those of what is
before it. -/
theorem beginsLine_of_splitLines_eq {text : List Char} :
    ∀ {before after : List (List Char)}, splitLines text = before ++ after → after ≠ [] →
      BeginsLine before.flatten ∧ splitLines before.flatten = before := by
  induction text with
  | nil =>
      intro before after h hne
      rw [splitLines_nil, eq_comm, List.append_eq_nil_iff] at h
      exact absurd h.2 hne
  | cons c rest ih =>
      intro before after h hne
      match before with
      | [] => exact ⟨beginsLine_nil, rfl⟩
      | line :: before =>
          rw [List.cons_append] at h
          by_cases hc : c = '\n'
          · subst hc
            rw [splitLines_newline, List.cons.injEq] at h
            obtain ⟨hbegins, hlines⟩ := ih h.2 hne
            rw [List.flatten_cons, ← h.1]
            refine ⟨beginsLine_newline_cons hbegins, ?_⟩
            show ['\n'] :: splitLines before.flatten = _
            rw [hlines]
          · rw [splitLines, if_neg (by simpa using hc)] at h
            split at h
            next =>
              -- the text has one line, so the cut is not after it
              rw [List.cons.injEq, eq_comm (a := []), List.append_eq_nil_iff] at h
              exact absurd h.2.2 hne
            next first lines hlines =>
              rw [List.cons.injEq] at h
              have hfirst : first ≠ [] :=
                @ne_nil_of_mem_splitLines rest _ (hlines ▸ List.mem_cons_self)
              obtain ⟨hbegins, hbefore⟩ := @ih (first :: before) after (by rw [hlines, h.2]; rfl) hne
              rw [List.flatten_cons] at hbegins hbefore
              rw [List.flatten_cons, ← h.1, List.cons_append]
              exact ⟨(beginsLine_append (List.append_ne_nil_of_left_ne_nil hfirst _) [c]).mpr hbegins,
                splitLines_cons hc hbefore⟩

/-- **Each line has a place**: the lines before it are those of what is before it. -/
theorem exists_of_splitLines_eq {text line : List Char} {before after : List (List Char)}
    (h : splitLines text = before ++ line :: after) :
    ∃ start rest, text = start ++ rest ∧ BeginsLine start ∧ splitLines start = before ∧
      splitLines rest = line :: after := by
  obtain ⟨hbegins, hbefore⟩ := beginsLine_of_splitLines_eq h (List.cons_ne_nil _ _)
  have htext : text = before.flatten ++ (line :: after).flatten := by
    rw [← List.flatten_append, ← h, flatten_splitLines]
  have hlines := splitLines_append hbegins (line :: after).flatten
  rw [← htext, h, hbefore] at hlines
  exact ⟨_, _, htext, hbegins, hbefore, (List.append_cancel_left hlines).symm⟩

/-- **A line is its content and its terminator**, if it has one. -/
theorem eq_chompChars_append (line : List Char) :
    line = chompChars line ∨ line = chompChars line ++ ['\n'] ∨
      line = chompChars line ++ ['\r', '\n'] := by
  have hline := line.reverse_reverse
  unfold chompChars
  split
  next body h =>
    rw [h, List.reverse_cons, List.reverse_cons, List.append_assoc] at hline
    exact .inr (.inr hline.symm)
  next body h =>
    rw [h, List.reverse_cons] at hline
    exact .inr (.inl hline.symm)
  next => exact .inl rfl

theorem logicalLines_eq (text : String) :
    logicalLines text =
      (splitLines text.toList).map fun line => String.ofList (chompChars line) := by
  simp [logicalLines, rawLines, chomp]

theorem mem_logicalLines {text line : String} :
    line ∈ logicalLines text ↔ ∃ raw ∈ splitLines text.toList, chompChars raw = line.toList := by
  rw [logicalLines_eq, List.mem_map]
  constructor
  · rintro ⟨raw, hraw, rfl⟩
    exact ⟨raw, hraw, String.toList_ofList.symm⟩
  · rintro ⟨raw, hraw, hline⟩
    exact ⟨raw, hraw, by rw [hline, String.ofList_toList]⟩

/-! ## §3. The line table. -/

theorem lt_of_mem_afterNewlines {offset begun : Nat} {cs : List Char}
    (h : begun ∈ afterNewlines offset cs) : offset < begun := by
  induction cs generalizing offset with
  | nil => cases h
  | cons c rest ih =>
      have hpos := c.utf8Size_pos
      unfold afterNewlines at h
      dsimp only at h
      split at h
      · rcases List.mem_cons.mp h with rfl | h
        · omega
        · have := ih h
          omega
      · have := ih h
        omega

/-- As many lines begin up to an offset as there are newlines before it. -/
theorem length_takeWhile_afterNewlines (before after : List Char) :
    ∀ offset : Nat, ((afterNewlines offset (before ++ after)).takeWhile
      (· ≤ offset + byteLength before)).length = before.count '\n' := by
  induction before with
  | nil =>
      intro offset
      rw [List.nil_append, byteLength, Nat.add_zero, List.count_nil, List.length_eq_zero_iff,
        List.takeWhile_eq_nil_iff]
      -- the starts behind the text before are too large
      intro hlength
      have hlater := lt_of_mem_afterNewlines (List.getElem_mem hlength)
      simpa using hlater
  | cons c before ih =>
      intro offset
      have hmore := ih (offset + c.utf8Size)
      rw [Nat.add_assoc] at hmore
      rw [List.cons_append, byteLength]
      unfold afterNewlines
      dsimp only
      split
      next hc =>
        rw [List.takeWhile_cons_of_pos (by simp), List.length_cons, hmore, beq_iff_eq.mp hc,
          List.count_cons_self]
      next hc =>
        rw [hmore, List.count_cons_of_ne (by simpa using hc)]

/-- **The table counts the newlines before an offset.** -/
theorem LineTable.lineCol_ofChars (before after : List Char) :
    ((LineTable.ofChars (before ++ after)).lineCol (byteLength before)).1 =
      before.count '\n' + 1 := by
  have hle : byteLength before ≤ byteLength (before ++ after) := by
    rw [byteLength_append]
    exact Nat.le_add_right _ _
  have hcount := length_takeWhile_afterNewlines before after 0
  rw [Nat.zero_add] at hcount
  show ((0 :: afterNewlines 0 (before ++ after)).takeWhile
    (· ≤ min (byteLength before) (byteLength (before ++ after)))).length = _
  rw [Nat.min_eq_left hle, List.takeWhile_cons_of_pos (by simp), List.length_cons, hcount]

/-! ## §4. Columns. -/

/-- The characters behind the last newline. -/
def lastLine (before : List Char) : List Char := (before.reverse.takeWhile (· != '\n')).reverse

/-- The last line begins where a line does, and goes to the end. -/
theorem exists_append_lastLine (before : List Char) :
    '\n' ∉ lastLine before ∧ ∃ initial, before = initial ++ lastLine before ∧ BeginsLine initial := by
  refine ⟨fun h => ?_, (before.reverse.dropWhile (· != '\n')).reverse, ?_, ?_⟩
  · simpa using List.mem_takeWhile_imp (List.mem_reverse.mp h)
  · rw [lastLine, ← List.reverse_append, List.takeWhile_append_dropWhile, List.reverse_reverse]
  · rw [BeginsLine, List.getLast?_reverse, List.reverse_eq_nil_iff]
    cases h : before.reverse.dropWhile (· != '\n') with
    | nil => exact .inl rfl
    | cons c rest =>
        have hc := List.head?_dropWhile_not (· != '\n') before.reverse
        rw [h] at hc
        exact .inr (by simpa using hc)

theorem afterNewlines_append (a b : List Char) : ∀ offset : Nat,
    afterNewlines offset (a ++ b)
      = afterNewlines offset a ++ afterNewlines (offset + byteLength a) b := by
  induction a with
  | nil => exact fun offset => rfl
  | cons c a ih =>
      intro offset
      rw [List.cons_append, afterNewlines, afterNewlines, byteLength, ← Nat.add_assoc]
      split
      · rw [ih, List.cons_append]
      · rw [ih]

theorem afterNewlines_eq_nil {a : List Char} (h : '\n' ∉ a) (offset : Nat) :
    afterNewlines offset a = [] := by
  induction a generalizing offset with
  | nil => rfl
  | cons c a ih =>
      rw [List.mem_cons, not_or] at h
      rw [afterNewlines, if_neg (by simpa using Ne.symm h.1)]
      exact ih h.2 _

theorem le_of_mem_afterNewlines {offset begun : Nat} {a : List Char}
    (h : begun ∈ afterNewlines offset a) : begun ≤ offset + byteLength a := by
  induction a generalizing offset with
  | nil => cases h
  | cons c a ih =>
      rw [afterNewlines] at h
      rw [byteLength]
      split at h
      · rcases List.mem_cons.mp h with rfl | h
        · omega
        · have := ih h
          omega
      · have := ih h
        omega

/-- Where a line begins, that is the last of the lines that begin up to there. -/
theorem getLastD_afterNewlines {initial : List Char} (h : BeginsLine initial) :
    (0 :: afterNewlines 0 initial).getLastD 0 = byteLength initial := by
  rcases h with rfl | hlast
  · rfl
  · obtain ⟨start, rfl⟩ := List.getLast?_eq_some_iff.mp hlast
    rw [afterNewlines_append, byteLength_append]
    show (0 :: (afterNewlines 0 start ++ [0 + byteLength start + 1])).getLastD 0
      = byteLength start + 1
    rw [← List.cons_append, List.getLastD_concat, Nat.zero_add]

/-- **The column counts the bytes behind the last newline.** -/
theorem LineTable.lineCol_eq (before after : List Char) :
    (LineTable.ofChars (before ++ after)).lineCol (byteLength before) =
      (before.count '\n' + 1, byteLength (lastLine before)) := by
  refine Prod.ext (lineCol_ofChars before after) ?_
  obtain ⟨hlast, initial, hbefore, hbegins⟩ := exists_append_lastLine before
  have hlength : byteLength before = byteLength initial + byteLength (lastLine before) := by
    rw [← byteLength_append, ← hbefore]
  have hle : byteLength before ≤ byteLength (before ++ after) := by
    rw [byteLength_append]
    exact Nat.le_add_right _ _
  have hlines : afterNewlines 0 (before ++ after)
      = afterNewlines 0 initial ++ afterNewlines (byteLength before) after := by
    rw [afterNewlines_append, Nat.zero_add, hbefore, afterNewlines_append,
      afterNewlines_eq_nil hlast, List.append_nil, ← hbefore]
  -- the starts up to here are those of the lines that have begun before
  have hstarts : (0 :: afterNewlines 0 (before ++ after)).takeWhile (· ≤ byteLength before)
      = 0 :: afterNewlines 0 initial := by
    rw [hlines, ← List.cons_append, List.takeWhile_append_of_pos, List.append_right_eq_self,
      List.takeWhile_eq_nil_iff]
    · intro hmore
      have := lt_of_mem_afterNewlines (List.getElem_mem hmore)
      simpa using this
    · intro begun hbegun
      rw [decide_eq_true_eq]
      rcases List.mem_cons.mp hbegun with rfl | hbegun
      · exact Nat.zero_le _
      · have := le_of_mem_afterNewlines hbegun
        omega
  show min (byteLength before) (byteLength (before ++ after)) -
    (((0 :: afterNewlines 0 (before ++ after)).takeWhile
      (· ≤ min (byteLength before) (byteLength (before ++ after)))).getLastD 0) = _
  rw [Nat.min_eq_left hle, hstarts, getLastD_afterNewlines hbegins]
  omega

end RubySyntax.Text
