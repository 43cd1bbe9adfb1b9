/-
  RubySyntax.Proofs.Token.Line
  ────────────────────────────
  **A TOKEN OF CODE STAYS ON ITS LINE.**

  The counts by which the scan takes numbers, words, spellings and characters from the front of a
  text never reach past a newline: the last character that is counted may be one, no other is.

  Main results:
    • `numberLength_line`, `symbolLength_line`, … — there is no newline among the characters that
      are counted,
    • `readEscape_line` — nor before the last character of an escape.
-/
import Mathlib.Data.List.Infix
import Mathlib.Data.List.TakeWhile
import RubySyntax.Proofs.Token.Length

namespace RubySyntax.Token.Lexer

open RubySyntax.Text

/-! ## §1. Stretches without a newline. -/

/-- None of the first `n` characters is a newline. -/
def OneLine (cs : List Char) (n : Nat) : Prop := '\n' ∉ cs.take n

section OneLine

variable {p : Char → Bool} {c : Char} {rest cs : List Char} {m n : Nat}

theorem oneLine_zero (cs : List Char) : OneLine cs 0 := List.not_mem_nil

theorem OneLine.mono (h : OneLine cs n) (hm : m ≤ n) : OneLine cs m :=
  fun hmem => h ((List.take_prefix_take_left hm).subset hmem)

theorem OneLine.add (h : OneLine cs m) (h' : OneLine (cs.drop m) n) : OneLine cs (m + n) := by
  rw [OneLine, List.take_add, List.mem_append]
  exact not_or.mpr ⟨h, h'⟩

theorem OneLine.cons (hc : c ≠ '\n') (h : OneLine rest n) : OneLine (c :: rest) (n + 1) := by
  rw [OneLine, List.take_succ_cons, List.mem_cons]
  exact not_or.mpr ⟨hc.symm, h⟩

/-- One character more, if it is no newline. -/
theorem OneLine.snoc (h : OneLine cs n) {d : Char} (hd : (cs.drop n).head? = some d)
    (hline : d ≠ '\n') : OneLine cs (n + 1) := by
  refine h.add ?_
  obtain ⟨more, hmore⟩ := List.head?_eq_some_iff.mp hd
  rw [hmore]
  exact (oneLine_zero more).cons hline

theorem oneLine_of_isPrefix {start : List Char} (h : start <+: cs) (hstart : '\n' ∉ start) :
    OneLine cs start.length := by
  rw [OneLine, ← List.prefix_iff_eq_take.mp h]
  exact hstart

theorem oneLine_takeWhile (hp : p '\n' = false) (cs : List Char) :
    OneLine cs (cs.takeWhile p).length := by
  refine oneLine_of_isPrefix (List.takeWhile_prefix p) fun hmem => ?_
  rw [List.mem_takeWhile_imp hmem] at hp
  cases hp

end OneLine

variable {α : Type} {c : Char} {rest cs : List Char} {n : Nat}

/-! ## §2. Numbers. -/

theorem fractionLength_line (cs : List Char) : OneLine cs (fractionLength cs) := by
  unfold fractionLength
  split
  next rest =>
    split
    · rw [Nat.add_comm]
      exact (oneLine_takeWhile (by decide) rest).cons (by decide)
    · exact oneLine_zero _
  next => exact oneLine_zero _

theorem exponentLength_line (cs : List Char) : OneLine cs (exponentLength cs) := by
  unfold exponentLength
  split
  next mark rest =>
    split
    next hmark =>
      have hline : mark ≠ '\n' := by
        rintro rfl
        revert hmark
        decide
      split
      · rw [Nat.add_comm]
        exact (oneLine_takeWhile (by decide) rest).cons hline
      · split
        next sign digits _ =>
          split
          next hsign =>
            have hline' : sign ≠ '\n' := by
              rintro rfl
              simp at hsign
            rw [show 2 + (digits.takeWhile isDigitOrLine).length =
              (digits.takeWhile isDigitOrLine).length + 1 + 1 by omega]
            exact ((oneLine_takeWhile (by decide) digits).cons hline').cons hline
          next => exact oneLine_zero _
        next => exact oneLine_zero _
    next => exact oneLine_zero _
  next => exact oneLine_zero _

theorem bodyLength_line (cs : List Char) : OneLine cs (bodyLength cs).2 := by
  unfold bodyLength
  split
  next hradix =>
    rw [Bool.and_eq_true, beq_iff_eq] at hradix
    obtain ⟨rest, rfl⟩ := List.head?_eq_some_iff.mp hradix.1
    obtain ⟨letter, digits, rfl, hletter⟩ := exists_cons_of_nextIs hradix.2
    have hline : letter ≠ '\n' := by
      rintro rfl
      revert hletter
      decide
    have hmark : OneLine ('0' :: letter :: digits) 2 :=
      ((oneLine_zero digits).cons hline).cons (by decide)
    exact hmark.add (oneLine_takeWhile (by decide) _)
  next =>
    exact ((oneLine_takeWhile (by decide) cs).add (fractionLength_line _)).add
      (exponentLength_line _)

/-- **A number is on one line.** -/
theorem numberLength_line (cs : List Char) : OneLine cs (numberLength cs).2 := by
  have hbody := bodyLength_line cs
  have hletter : ∀ {n : Nat} {d : Char}, OneLine cs n → d ≠ '\n' → ∀ {more : Bool},
      ((cs.drop n).head? == some d && more) = true → OneLine cs (n + 1) := by
    intro n d hn hd more h
    rw [Bool.and_eq_true, beq_iff_eq] at h
    exact hn.snoc h.1 hd
  simp only [numberLength]
  split
  next hrational =>
    have hn := hletter hbody (by decide) hrational
    split
    next himaginary => exact hletter hn (by decide) himaginary
    next => exact hn
  next =>
    split
    next himaginary => exact hletter hbody (by decide) himaginary
    next => exact hbody

/-! ## §3. Words and spellings. -/

/-- **A word is on one line.** -/
theorem readWord_line (cs : List Char) : '\n' ∉ (readWord cs).chars := by
  have hname : '\n' ∉ cs.takeWhile isNameChar := fun hmem => by
    have := List.mem_takeWhile_imp hmem
    revert this
    decide
  simp only [readWord]
  split
  next mark rest hmark =>
    split
    next hends =>
      rw [List.mem_append, List.mem_singleton]
      refine not_or.mpr ⟨hname, ?_⟩
      rintro rfl
      rw [Bool.and_eq_true] at hends
      revert hends
      simp
    next => exact hname
  next => exact hname

theorem oneLine_of_isPrefixOf {spelling : String} (hspelling : '\n' ∉ spelling.toList)
    (h : spelling.toList.isPrefixOf cs = true) : OneLine cs spelling.length := by
  rw [← String.length_toList]
  exact oneLine_of_isPrefix (List.isPrefixOf_iff_prefix.mp h) hspelling

theorem findSpelling_line {table : List (String × α)}
    (htable : ∀ entry ∈ table, '\n' ∉ entry.1.toList) {entry : String × α}
    (h : findSpelling table cs = some entry) : OneLine cs entry.1.length :=
  oneLine_of_isPrefixOf (htable entry (List.mem_of_find?_eq_some h)) (List.find?_some h :)

/-- **A symbol is on one line**, but for its last character. -/
theorem symbolLength_line (cs : List Char) : OneLine cs (State.symbolLength cs - 1) := by
  unfold State.symbolLength
  split
  next rest =>
    refine OneLine.mono (n := (rest.takeWhile isNameChar).length + 1 + 1) ?_ (by omega)
    exact ((oneLine_takeWhile (by decide) rest).cons (by decide)).cons (by decide)
  next rest _ =>
    refine OneLine.mono (n := (rest.takeWhile isNameChar).length + 1) ?_ (by omega)
    exact (oneLine_takeWhile (by decide) rest).cons (by decide)
  next rest =>
    have hrun := (oneLine_takeWhile (p := isNameChar) (by decide) rest).cons
      (show '$' ≠ '\n' by decide)
    split
    · exact hrun.mono (by omega)
    split
    · exact hrun.mono (by omega)
    · exact hrun.mono (by omega)
  next =>
    split
    · have hname := oneLine_takeWhile (p := isNameChar) (by decide) cs
      simp only
      split
      · split
        · exact hname.mono (by omega)
        split
        · exact hname.mono (by omega)
        · exact hname.mono (by omega)
      · exact hname.mono (by omega)
    · cases hfound : findSpelling methodOperators cs with
      | none => exact oneLine_zero _
      | some entry => exact (findSpelling_line (by decide) hfound).mono (Nat.sub_le _ _)

/-- The name of a global variable is on one line, but for its last character. -/
theorem globalLength?_line {kind : Kind} (h : State.globalLength? cs = some (kind, n)) :
    OneLine cs (n - 1) := by
  unfold State.globalLength? at h
  split at h
  · cases h
  next c rest =>
    split at h
    · cases h
      exact (oneLine_takeWhile (by decide) _).mono (Nat.sub_le _ _)
    split at h
    · cases h
      exact (oneLine_takeWhile (by decide) _).mono (Nat.sub_le _ _)
    split at h
    · cases h
      exact oneLine_zero _
    split at h
    next hminus =>
      cases h
      rw [Bool.and_eq_true, beq_iff_eq] at hminus
      rw [hminus.1]
      exact (oneLine_zero rest).cons (by decide)
    split at h
    · cases h
      exact oneLine_zero _
    · cases h

/-! ## §4. Escapes. -/

theorem not_mem_digitsUpTo {p : Char → Bool} (hp : p '\n' = false) (most : Nat) (cs : List Char) :
    '\n' ∉ digitsUpTo p most cs := fun hmem => by
  rw [List.mem_takeWhile_imp hmem] at hp
  cases hp

theorem readCodePoints_line : ∀ cs : List Char, '\n' ∉ (readCodePoints cs).1
  | cs => by
      have hblanks : '\n' ∉ cs.takeWhile (· == ' ') := fun hmem => by
        have := List.mem_takeWhile_imp hmem
        revert this
        decide
      rw [readCodePoints]
      split
      next => exact hblanks
      next c rest hrest =>
        split
        next hbrace =>
          rw [beq_iff_eq.mp hbrace, List.mem_append]
          exact not_or.mpr ⟨hblanks, by decide⟩
        split
        next hdigit =>
          have hmore := readCodePoints_line (rest.drop (digitsUpTo isHexDigit 5 rest).length)
          have hnumber : '\n' ∉ cs.takeWhile (· == ' ') ++ c :: digitsUpTo isHexDigit 5 rest ++
              (readCodePoints (rest.drop (digitsUpTo isHexDigit 5 rest).length)).1 := by
            rw [List.mem_append, List.mem_append, List.mem_cons]
            refine not_or.mpr ⟨not_or.mpr ⟨hblanks, not_or.mpr ⟨?_, ?_⟩⟩, hmore⟩
            · rintro rfl
              revert hdigit
              decide
            · exact not_mem_digitsUpTo (by decide) 5 rest
          simp only
          split
          · exact hnumber
          · exact hnumber
        next => exact hblanks
termination_by cs => cs.length
decreasing_by
  rename_i hrest _ _
  have h := congrArg List.length hrest
  simp only [List.length_drop, List.length_cons] at h ⊢
  omega

theorem readUnicode_line {mark : List Char} (hmark : '\n' ∉ mark) (cs : List Char) :
    '\n' ∉ (readUnicode mark cs).source := by
  unfold readUnicode
  split
  next rest =>
    simp only
    rw [List.mem_append, List.mem_cons]
    exact not_or.mpr ⟨hmark, not_or.mpr ⟨by decide, readCodePoints_line rest⟩⟩
  next =>
    have hdigits : '\n' ∉ mark ++ digitsUpTo isHexDigit 4 cs := by
      rw [List.mem_append]
      exact not_or.mpr ⟨hmark, not_mem_digitsUpTo (by decide) 4 cs⟩
    simp only
    split
    · split
      · exact hdigits
      · exact hdigits
    · exact hdigits

theorem readHex_line {mark : List Char} (hmark : '\n' ∉ mark) (cs : List Char) :
    '\n' ∉ (readHex mark cs).source := by
  simp only [readHex]
  split
  · exact hmark
  · rw [List.mem_append]
    exact not_or.mpr ⟨hmark, not_mem_digitsUpTo (by decide) 2 cs⟩

/-- **An escape is on one line**, but for its last character. -/
theorem readEscape_line (style : EscapeStyle) (cs : List Char) :
    '\n' ∉ (readEscape style cs).source.dropLast := by
  have htwo : ∀ c : Char, '\n' ∉ ['\\', c].dropLast := fun c => by
    show '\n' ∉ ['\\']
    decide
  have hall : ∀ {source : List Char}, '\n' ∉ source → '\n' ∉ source.dropLast :=
    fun h hmem => h (List.mem_of_mem_dropLast hmem)
  unfold readEscape
  split
  · split
    · exact htwo _
    · exact List.not_mem_nil
  · exact List.not_mem_nil
  · split
    · exact htwo _
    · exact htwo _
  · exact List.not_mem_nil
  · exact List.not_mem_nil
  next c rest =>
    split
    next hc =>
      rw [beq_iff_eq.mp hc]
      exact hall (readUnicode_line (by decide) rest)
    split
    next hc =>
      rw [beq_iff_eq.mp hc]
      exact hall (readHex_line (by decide) rest)
    split
    · refine hall ?_
      rw [List.mem_cons]
      exact not_or.mpr ⟨by decide, not_mem_digitsUpTo (by decide) 3 _⟩
    · exact htwo _

/-- A character after its mark is on one line, but for its last character. -/
theorem characterPiece?_line {piece : Piece} (h : State.characterPiece? cs = some piece) :
    '\n' ∉ piece.source.dropLast := by
  unfold State.characterPiece? at h
  split at h
  · cases h
  · cases h
    exact readEscape_line .full _
  · split at h
    · cases h
    split at h
    · cases h
    · cases h
      exact List.not_mem_nil

end RubySyntax.Token.Lexer
