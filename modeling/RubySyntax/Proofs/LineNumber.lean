/-
  RubySyntax.Proofs.LineNumber
  ────────────────────────────
  **ALL COUNTING OF LINES AGREES.**

  Lines are counted in four ways: a text is split after its newlines; a table holds where lines
  begin, and is searched for an offset; a diagnostic runs over the newlines to find the lines
  around it; and the place at the end of a text is found from behind.  They see a final line
  without a newline, a final newline and a text without a byte each in their own way, and yet no
  two of them differ.

      number of the line of an offset   =   newlines before the offset + 1

  Main results:
    • `Text.lines_agree` — the lines, the table, the search for a line and the end of the text say
      the same about each text, line and offset.
-/
import RubySyntax.Proofs.Diagnostic.Window
import RubySyntax.Program

namespace RubySyntax.Text

/-- The ways of counting the lines of a text agree. -/
structure LinesAgree (text : String) : Prop where
  /-- The lines put together are the text. -/
  joined : String.join (rawLines text) = text
  /-- No line is empty. -/
  nonempty : ∀ line ∈ rawLines text, line ≠ ""
  /-- A newline is the last byte of its line. -/
  last_only : ∀ line ∈ rawLines text, newline ∉ (utf8 line.toList).dropLast
  /-- All lines but the last one have a newline. -/
  ended : ∀ line ∈ (rawLines text).dropLast, (utf8 line.toList).getLast? = some newline
  /-- The table counts the lines. -/
  count : (rawLines text).length = (LineTable.ofText text).lineCount
  /-- In the table each line begins behind the lines before it. -/
  begins : ∀ i < (rawLines text).length, (LineTable.ofText text).lineStart? (i + 1) =
    some (byteLength (String.join ((rawLines text).take i)).toList)
  /-- The starts rise, so that they can be searched by halves. -/
  rise : (LineTable.ofText text).starts.Pairwise (· < ·)
  /-- The line and the column of any offset: a line begins as many bytes before the offset as the
  column says, no newline is between, and the number of the line counts the newlines before. -/
  place : ∀ offset, ∃ start,
    (LineTable.ofText text).lineStart? ((LineTable.ofText text).lineCol offset).1 = some start ∧
      start + ((LineTable.ofText text).lineCol offset).2 = min offset (byteLength text.toList) ∧
      newline ∉ ((utf8 text.toList).take offset).drop start ∧
      ((LineTable.ofText text).lineCol offset).1 =
        ((utf8 text.toList).take offset).count newline + 1
  /-- The table has a start for each newline, and one more. -/
  present : ∀ line, ((LineTable.ofText text).lineStart? line).isSome ↔
    1 ≤ line ∧ line ≤ 1 + (utf8 text.toList).count newline
  /-- A diagnostic finds the starts that the table has, and the end of the text for others. -/
  found : ∀ line, 1 ≤ line → Diagnostic.lineBegin 0 line text.toList =
    ((LineTable.ofText text).lineStart? line).getD (byteLength text.toList)
  /-- The end of the text is where the table says. -/
  finish : ((Program.endOf text).start, (Program.endOf text).stop) =
      (byteLength text.toList, byteLength text.toList) ∧
    ((Program.endOf text).line, (Program.endOf text).column) =
      (LineTable.ofText text).lineCol (byteLength text.toList)

variable {text line : String}

theorem mem_rawLines : line ∈ rawLines text ↔ line.toList ∈ splitLines text.toList := by
  rw [rawLines, List.mem_map]
  constructor
  · rintro ⟨raw, hraw, rfl⟩
    rwa [String.toList_ofList]
  · exact fun h => ⟨_, h, String.ofList_toList⟩

/-- **All counting of lines agrees.** -/
theorem lines_agree (text : String) : LinesAgree text where
  joined := by
    rw [rawLines, join_map_ofList, flatten_splitLines, String.ofList_toList]
  nonempty := by
    rintro line hline rfl
    exact ne_nil_of_mem_splitLines (mem_rawLines.mp hline) rfl
  last_only := fun line hline =>
    newline_notMem_dropLast_utf8 (newline_notMem_dropLast (mem_rawLines.mp hline))
  ended := by
    intro line hline
    rw [rawLines, ← List.map_dropLast, List.mem_map] at hline
    obtain ⟨raw, hraw, rfl⟩ := hline
    rw [String.toList_ofList]
    exact getLast?_utf8 (getLast?_of_mem_dropLast hraw)
  count := by
    rw [rawLines, List.length_map]
    exact (LineTable.lineCount_ofChars _).symm
  begins := by
    intro i hi
    rw [rawLines, List.length_map] at hi
    rw [rawLines, ← List.map_take, join_map_ofList, String.toList_ofList]
    exact LineTable.lineStart?_of_lt hi
  rise := LineTable.pairwise_starts _
  place := LineTable.exists_start_of_lineCol _
  present := by
    intro line
    rw [Nat.add_comm 1]
    exact LineTable.isSome_lineStart?
  found := fun line h => Diagnostic.lineBegin_eq h _
  finish := by
    have hposition := LineTable.lineCol_eq text.toList []
    rw [List.append_nil] at hposition
    exact ⟨rfl, hposition.symm⟩

/-- A character of two bytes, a line without a content, and a line without a newline. -/
example : rawLines "é\n\nb" = ["é\n", "\n", "b"] ∧
    (LineTable.ofText "é\n\nb").starts = [0, 3, 4] ∧ Program.endOf "é\n\nb" = ⟨5, 5, 3, 1⟩ := by
  decide

end RubySyntax.Text
