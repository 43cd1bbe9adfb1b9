/-
  RubySyntax.Proofs.Diagnostic.Window
  ───────────────────────────────────
  **THE WINDOW OF A DIAGNOSTIC IS CUT BETWEEN LINES.**

  A diagnostic may say anything about its place: offsets in the wrong order or past the end, a
  line that the text does not have.  The window is cut all the same.  Both of its ends are where
  lines begin or the text ends, and the marks are put between them.

  A line number that is too great stands for the end of the text, and this is what makes the two
  ends come in order: the beginning of line `n + 1` is the end of the first `n` lines, however
  many there are.

      lineBegin (n + 1)   =   byteLength (first n lines)

  Where the line is the one on which the place begins, nothing is moved: the window shows this
  line with the two beside it, and the marks begin at the place.

  Main results:
    • `lineBegin_eq` — the beginning of a line is the one of the table, or the end of the text,
    • `lineBegin_eq_byteLength` — it is behind the lines before it,
    • `window_shows` — what the window of any place shows.
-/
import RubySyntax.Diagnostic.Snippet
import RubySyntax.Proofs.Text.LineStart

namespace RubySyntax.Diagnostic

open Text

/-! ## §1. Beginnings of lines. -/

section LineBegin

variable {text : List Char} {line : Nat}

theorem lineBegin_eq_getD (offset n : Nat) (text : List Char) : lineBegin offset (n + 1) text =
    ((offset :: afterNewlines offset text)[n]?).getD (offset + byteLength text) := by
  induction text generalizing offset n with
  | nil =>
      cases n with
      | zero => rfl
      | succ n => rfl
  | cons c rest ih =>
      cases n with
      | zero => rfl
      | succ n =>
          rw [lineBegin, afterNewlines, byteLength, ← Nat.add_assoc, List.getElem?_cons_succ]
          split
          next => exact ih ..
          next => exact ih ..

/-- **The beginning of a line is the one of the table**, or the end of the text if the table has no
such line. -/
theorem lineBegin_eq (h : 1 ≤ line) (text : List Char) :
    lineBegin 0 line text = ((LineTable.ofChars text).lineStart? line).getD (byteLength text) := by
  obtain ⟨n, rfl⟩ := Nat.exists_eq_add_of_le' h
  rw [lineBegin_eq_getD, Nat.zero_add, LineTable.lineStart?, if_neg (by simp),
    Nat.add_sub_cancel]
  rfl

/-- A line begins where the table says, or the text ends there. -/
theorem lineBegin_begins (h : 1 ≤ line) (text : List Char) :
    lineBegin 0 line text = byteLength text ∨
      (LineTable.ofChars text).lineStart? line = some (lineBegin 0 line text) := by
  rw [lineBegin_eq h]
  cases hstart : (LineTable.ofChars text).lineStart? line with
  | none => exact .inl rfl
  | some start => exact .inr rfl

/-- **A line begins behind the lines before it**, however many there are. -/
theorem lineBegin_eq_byteLength (offset n : Nat) (text : List Char) :
    lineBegin offset (n + 1) text = offset + byteLength ((splitLines text).take n).flatten := by
  induction text generalizing offset n with
  | nil => cases n <;> rfl
  | cons c rest ih =>
      cases n with
      | zero => rfl
      | succ n =>
          rw [lineBegin]
          by_cases hc : c = '\n'
          · subst hc
            rw [splitLines_newline, List.take_succ_cons, List.flatten_cons, byteLength_append,
              ← Nat.add_assoc]
            exact ih ..
          · -- the character belongs to the first line, which the rest may have or not
            rw [if_neg (by simpa using hc), ih, Nat.add_assoc]
            congr 1
            cases rest with
            | nil => rw [splitLines_singleton]; cases n <;> rfl
            | cons d rest =>
                obtain ⟨line, lines, hlines⟩ := exists_splitLines_cons d rest
                rw [splitLines_cons hc hlines, hlines]
                rfl

/-- An offset on a line is between the beginning of that line and the beginning of the next. -/
theorem lineBegin_le_of_lineCol {offset : Nat} (h : offset ≤ byteLength text)
    (hline : ((LineTable.ofChars text).lineCol offset).1 = line) :
    lineBegin 0 line text ≤ offset ∧ offset ≤ lineBegin 0 (line + 1) text := by
  obtain ⟨start, hstart, hle, -, hcount⟩ := LineTable.exists_start_of_lineCol text offset
  rw [Nat.min_eq_left h] at hle
  rw [hline] at hstart hcount
  have hpos : 1 ≤ line := by omega
  rw [lineBegin_eq hpos, lineBegin_eq (Nat.le_add_left 1 line), hstart, Option.getD_some]
  refine ⟨by omega, ?_⟩
  cases hnext : (LineTable.ofChars text).lineStart? (line + 1) with
  | none => exact h
  | some next =>
      have hlt := LineTable.lt_of_lineCol_lt (Nat.lt_succ_of_le (Nat.le_of_eq hline)) hnext
      rw [Nat.min_eq_left h] at hlt
      exact Nat.le_of_lt hlt

end LineBegin

/-! ## §2. The lines between. -/

section Between

variable {n m : Nat}

/-- The lines before a later line are those before an earlier one and those between. -/
theorem flatten_take_append (h : n ≤ m) (text : List Char) :
    ((splitLines text).take n).flatten ++ (((splitLines text).take m).drop n).flatten =
      ((splitLines text).take m).flatten := by
  have htake := List.take_append_drop n ((splitLines text).take m)
  rw [List.take_take, Nat.min_eq_left h] at htake
  rw [← List.flatten_append, htake]

/-- A later line begins behind the lines between. -/
theorem lineBegin_eq_add (h : n ≤ m) (text : List Char) : lineBegin 0 (m + 1) text =
    lineBegin 0 (n + 1) text + byteLength (((splitLines text).take m).drop n).flatten := by
  rw [lineBegin_eq_byteLength, lineBegin_eq_byteLength, Nat.zero_add, Nat.zero_add,
    ← byteLength_append, flatten_take_append h]

theorem lineBegin_mono (h : n ≤ m) (text : List Char) :
    lineBegin 0 (n + 1) text ≤ lineBegin 0 (m + 1) text := by
  rw [lineBegin_eq_add h]
  exact Nat.le_add_right _ _

/-- All lines begin in the text. -/
theorem lineBegin_le (n : Nat) (text : List Char) :
    lineBegin 0 (n + 1) text ≤ byteLength text := by
  have htext := congrArg byteLength (flatten_splitLines text)
  rw [← List.take_append_drop n (splitLines text), List.flatten_append, byteLength_append] at htext
  rw [lineBegin_eq_byteLength]
  omega

/-- **Between the beginnings of two lines are the lines from the one to the other.** -/
theorem slice?_lineBegin (h : n ≤ m) (text : List Char) :
    slice? text (lineBegin 0 (n + 1) text) (lineBegin 0 (m + 1) text) =
      some (((splitLines text).take m).drop n).flatten := by
  have hslice := slice?_append ((splitLines text).take n).flatten
    (((splitLines text).take m).drop n).flatten ((splitLines text).drop m).flatten
  rw [flatten_take_append h, ← List.flatten_append, List.take_append_drop,
    flatten_splitLines] at hslice
  rw [lineBegin_eq_add h, lineBegin_eq_byteLength, Nat.zero_add]
  exact hslice

end Between

/-! ## §3. The window. -/

section Clamp

variable {low high n m : Nat}

theorem clamp_le (h : low ≤ high) : clamp low high n ≤ high :=
  Nat.max_le.mpr ⟨h, Nat.min_le_right _ _⟩

theorem clamp_eq (hlow : low ≤ n) (hhigh : n ≤ high) : clamp low high n = n := by
  rw [clamp, Nat.min_eq_left hhigh, Nat.max_eq_right hlow]

theorem clamp_mono (h : n ≤ m) : clamp low high n ≤ clamp low high m := by
  unfold clamp
  omega

end Clamp

/-- Marks in a text of some length: no mark ends more than a byte behind the text, and marks that
are in order begin where they did and are not empty. -/
theorem marks_of_widened {length first last start stop : Nat} (hlast : last ≤ length)
    (hstart : start = min first stop)
    (hstop : stop = if first == last then min (last + 1) (length + 1) else last) :
    start ≤ stop ∧ stop ≤ length + 1 ∧ (first ≤ last → start = first ∧ start < stop) := by
  split at hstop
  next hempty =>
    rw [beq_iff_eq] at hempty
    omega
  next hwide =>
    rw [beq_iff_eq] at hwide
    omega

/-- A window that shows a place of a source, from the offset `low` to the offset `high`. -/
structure Window.Shows (w : Window) (span : Span) (source : String) (low high : Nat) : Prop where
  ordered : low ≤ high
  high_le : high ≤ byteLength source.toList
  /-- It begins where a line begins, or where the source ends. -/
  low_begins : low = byteLength source.toList ∨
    (LineTable.ofText source).lineStart? w.firstLine = some low
  /-- It ends where a line begins, or where the source ends. -/
  high_begins : high = byteLength source.toList ∨
    (LineTable.ofText source).lineStart? (span.line + 2) = some high
  firstLine_eq : w.firstLine = max 1 (span.line - 1)
  /-- The source can be cut at both ends, and the text is what is between them. -/
  slice : slice? source.toList low high = some w.text
  /-- These are the lines from the first one to the one after that of the place. -/
  lines : String.ofList w.text =
    String.join (((rawLines source).take (span.line + 1)).drop (w.firstLine - 1))
  /-- The marks are in order. -/
  marks_ordered : w.start ≤ w.stop
  /-- They end in the text, or one byte behind it. -/
  marks_le : w.stop ≤ byteLength w.text + 1
  /-- There is a mark for each place that is in order, be it empty or outside. -/
  marked : span.start ≤ span.stop → w.start < w.stop
  /-- The marks begin at the place, if the line is the one of the place. -/
  marks_begin : ((LineTable.ofText source).lineCol span.start).1 = span.line →
    span.start ≤ span.stop → span.start ≤ byteLength source.toList → low + w.start = span.start

/-- **The window of any place shows it**: lines of the source, cut at their ends, with marks inside
of them. -/
theorem window_shows (span : Span) (source : String) :
    (window span source.toList).Shows span source
      (lineBegin 0 (max 1 (span.line - 1)) source.toList)
      (lineBegin 0 (span.line + 2) source.toList) := by
  -- the first line shown has `before` lines before it, the end has those up to the line after
  obtain ⟨before, hbefore⟩ := Nat.exists_eq_add_of_le' (Nat.le_max_left 1 (span.line - 1))
  have hle : before ≤ span.line + 1 := by omega
  have hslice := slice?_lineBegin hle source.toList
  have hlength := lineBegin_eq_add hle source.toList
  have hordered := lineBegin_mono hle source.toList
  rw [← hbefore] at hslice hlength hordered
  have htext : (window span source.toList).text =
      (((splitLines source.toList).take (span.line + 1)).drop before).flatten := by
    show (slice? _ _ _).getD [] = _
    rw [hslice, Option.getD_some]
  rw [← htext] at hslice hlength
  have hlast : clamp (lineBegin 0 (max 1 (span.line - 1)) source.toList)
      (lineBegin 0 (span.line + 2) source.toList) span.stop -
        lineBegin 0 (max 1 (span.line - 1)) source.toList ≤
      byteLength (window span source.toList).text := by
    rw [Nat.sub_le_iff_le_add']
    exact (clamp_le hordered).trans_eq hlength
  obtain ⟨hmarks, hwithin, hbegins⟩ := marks_of_widened hlast
    (rfl : (window span source.toList).start = _) (rfl : (window span source.toList).stop = _)
  exact {
    ordered := hordered
    high_le := lineBegin_le _ _
    low_begins := lineBegin_begins (Nat.le_max_left 1 _) _
    high_begins := lineBegin_begins (Nat.le_add_left 1 _) _
    firstLine_eq := rfl
    slice := hslice
    lines := by
      show _ = String.join (((rawLines source).take (span.line + 1)).drop
        (max 1 (span.line - 1) - 1))
      rw [htext, hbefore, Nat.add_sub_cancel, rawLines, ← List.map_take, ← List.map_drop,
        join_map_ofList]
    marks_ordered := hmarks
    marks_le := hwithin
    marked := fun h => (hbegins (Nat.sub_le_sub_right (clamp_mono h) _)).2
    marks_begin := by
      intro hline h hstart
      -- the place is on its line, and this line is shown, so that clamping does not move it
      have hplace := lineBegin_le_of_lineCol hstart hline
      have hpos : 1 ≤ span.line := hline ▸ LineTable.one_le_lineCol source.toList span.start
      have hlow : lineBegin 0 (max 1 (span.line - 1)) source.toList ≤
          lineBegin 0 span.line source.toList := by
        obtain ⟨line, hline⟩ := Nat.exists_eq_add_of_le' hpos
        rw [hbefore, hline]
        exact lineBegin_mono (by omega) _
      have hhigh := lineBegin_mono (Nat.le_succ span.line) source.toList
      rw [(hbegins (Nat.sub_le_sub_right (clamp_mono h) _)).1,
        clamp_eq (hlow.trans hplace.1) (hplace.2.trans hhigh)]
      exact Nat.add_sub_cancel' (hlow.trans hplace.1) }

/-- An empty place at the end of a text whose last line has no newline: the mark is the byte behind
the text. -/
theorem window_shows_end : (LineTable.ofText "ab\nc").lineCol 4 = (2, 1) ∧
    window ⟨4, 4, 2, 1⟩ "ab\nc".toList = ⟨1, "ab\nc".toList, 4, 5⟩ ∧
    lineBegin 0 (max 1 (2 - 1)) "ab\nc".toList + (window ⟨4, 4, 2, 1⟩ "ab\nc".toList).start = 4 :=
  ⟨by decide, by decide,
    (window_shows ⟨4, 4, 2, 1⟩ "ab\nc").marks_begin (by decide) (by decide) (by decide)⟩

/-- Where the offsets are in the wrong order, nothing is marked. -/
example : window ⟨3, 1, 1, 3⟩ "ab\nc".toList = ⟨1, "ab\nc".toList, 1, 1⟩ := by decide

end RubySyntax.Diagnostic
