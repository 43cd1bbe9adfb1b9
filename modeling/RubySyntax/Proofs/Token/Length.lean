/-
  RubySyntax.Proofs.Token.Length
  ──────────────────────────────
  **WHAT THE SCAN ASKS FOR IS THERE.**

  Before it takes anything from the front of a text the scan counts the characters: of a number,
  a word, a comment, a spelling.  None of these counts exceeds what is left of the text, however
  the text breaks off, and none that begins with the right character is zero.

  Main results:
    • `numberLength_le`, `symbolLength_le`, `documentLength?_le`, … — a count is at most what is
      left,
    • `numberLength_pos`, `readWord_pos`, … — a count is not zero.
-/
import RubySyntax.Token.Lexer
import RubySyntax.Proofs.Token.Content
import RubySyntax.Proofs.Token.Ledger

namespace RubySyntax.Token.Lexer

open RubySyntax.Text

variable {α : Type} {p : Char → Bool} {c : Char} {rest cs : List Char} {n : Nat}

/-! ## §1. Runs of characters. -/

theorem length_takeWhile_pos (hc : p c = true) : 0 < ((c :: rest).takeWhile p).length := by
  rw [List.takeWhile_cons_of_pos hc, List.length_cons]
  omega

theorem length_takeWhile_le (p : Char → Bool) (cs : List Char) :
    (cs.takeWhile p).length ≤ cs.length :=
  (List.takeWhile_prefix p).length_le

/-- A run of characters behind others that are there. -/
theorem add_takeWhile_drop_le (p : Char → Bool) (h : n ≤ cs.length) :
    n + ((cs.drop n).takeWhile p).length ≤ cs.length := by
  have hrun := length_takeWhile_le p (cs.drop n)
  rw [List.length_drop] at hrun
  omega

/-- One character more, if one is there. -/
theorem add_one_le_of_head? (h : n ≤ cs.length) {d : Char} (hd : (cs.drop n).head? = some d) :
    n + 1 ≤ cs.length := by
  obtain ⟨more, hmore⟩ := List.head?_eq_some_iff.mp hd
  have hlength := congrArg List.length hmore
  rw [List.length_drop, List.length_cons] at hlength
  omega

theorem length_drop_of_cons (h : cs.drop n = c :: rest) : n + 1 + rest.length = cs.length := by
  have hlength := congrArg List.length h
  rw [List.length_drop, List.length_cons] at hlength
  omega

/-- Whatever the next character is in a class of, it is there. -/
theorem exists_cons_of_nextIs (h : nextIs p cs = true) : ∃ c rest, cs = c :: rest ∧ p c = true := by
  cases cs with
  | nil => cases h
  | cons c rest => exact ⟨c, rest, rfl, h⟩

/-! ## §2. Numbers. -/

theorem isDigitOrLine_of_isDigit (h : isDigit c = true) : isDigitOrLine c = true := by
  rw [isDigitOrLine, h, Bool.true_or]

theorem fractionLength_le (cs : List Char) : fractionLength cs ≤ cs.length := by
  unfold fractionLength
  split
  next rest =>
    split
    · have hrun := length_takeWhile_le isDigitOrLine rest
      rw [List.length_cons]
      omega
    · exact Nat.zero_le _
  next => exact Nat.zero_le _

theorem exponentLength_le (cs : List Char) : exponentLength cs ≤ cs.length := by
  unfold exponentLength
  split
  next mark rest =>
    rw [List.length_cons]
    split
    · split
      · have hrun := length_takeWhile_le isDigitOrLine rest
        omega
      · split
        next sign digits _ =>
          split
          · have hrun := length_takeWhile_le isDigitOrLine digits
            rw [List.length_cons]
            omega
          · exact Nat.zero_le _
        next => exact Nat.zero_le _
    · exact Nat.zero_le _
  next => exact Nat.zero_le _

theorem bodyLength_le (cs : List Char) : (bodyLength cs).2 ≤ cs.length := by
  unfold bodyLength
  split
  next hradix =>
    -- the zero and the letter are there
    rw [Bool.and_eq_true, beq_iff_eq] at hradix
    obtain ⟨rest, rfl⟩ := List.head?_eq_some_iff.mp hradix.1
    obtain ⟨letter, digits, rfl, -⟩ := exists_cons_of_nextIs hradix.2
    exact add_takeWhile_drop_le isHexOrLine (by simp)
  next =>
    have hwhole := length_takeWhile_le isDigitOrLine cs
    have hfraction := fractionLength_le (cs.drop (cs.takeWhile isDigitOrLine).length)
    have hexponent := exponentLength_le (cs.drop ((cs.takeWhile isDigitOrLine).length +
      fractionLength (cs.drop (cs.takeWhile isDigitOrLine).length)))
    rw [List.length_drop] at hfraction hexponent
    simp only
    omega

/-- **A number ends where the text ends, at the latest.** -/
theorem numberLength_le (cs : List Char) : (numberLength cs).2 ≤ cs.length := by
  have hbody := bodyLength_le cs
  -- a letter is counted where it stands
  have hletter : ∀ {n : Nat} {d : Char}, n ≤ cs.length → ∀ {more : Bool},
      ((cs.drop n).head? == some d && more) = true → n + 1 ≤ cs.length := by
    intro n d hn more h
    rw [Bool.and_eq_true, beq_iff_eq] at h
    exact add_one_le_of_head? hn h.1
  simp only [numberLength]
  split
  next hrational =>
    have hn := hletter hbody hrational
    split
    next himaginary => exact hletter hn himaginary
    next => exact hn
  next =>
    split
    next himaginary => exact hletter hbody himaginary
    next => exact hbody

/-- A number that begins with a digit has at least one character. -/
theorem bodyLength_pos (hc : isDigit c = true) : 0 < (bodyLength (c :: rest)).2 := by
  unfold bodyLength
  split
  · show 0 < 2 + _
    omega
  · have hwhole : 0 < ((c :: rest).takeWhile isDigitOrLine).length :=
      length_takeWhile_pos (isDigitOrLine_of_isDigit hc)
    show 0 < (List.takeWhile isDigitOrLine (c :: rest)).length + _ + _
    omega

theorem numberLength_pos (hc : isDigit c = true) : 0 < (numberLength (c :: rest)).2 := by
  have hbody : 0 < (bodyLength (c :: rest)).2 := bodyLength_pos hc
  simp only [numberLength]
  split
  · split
    · show 0 < _ + 1
      omega
    · show 0 < _ + 1
      omega
  · split
    · show 0 < _ + 1
      omega
    · exact hbody

/-! ## §3. Words and spellings. -/

/-- A word is read from the front of the text. -/
theorem readWord_isPrefix (cs : List Char) : (readWord cs).chars <+: cs := by
  have hname : cs.takeWhile isNameChar <+: cs := List.takeWhile_prefix _
  simp only [readWord]
  split
  next mark rest hmark =>
    split
    · refine ⟨rest, ?_⟩
      rw [List.append_assoc, List.singleton_append, ← hmark]
      exact append_drop_of_prefix hname
    · exact hname
  next => exact hname

/-- A word that begins with a character of a name has at least one character. -/
theorem readWord_pos (hc : isNameStart c = true) : 0 < (readWord (c :: rest)).chars.length := by
  have hname : isNameChar c = true := by rw [isNameChar, hc, Bool.true_or]
  have hchars : 0 < ((c :: rest).takeWhile isNameChar).length := length_takeWhile_pos hname
  simp only [readWord]
  split
  · split
    · show 0 < (_ ++ [_]).length
      rw [List.length_append]
      omega
    · exact hchars
  · exact hchars

theorem findSpelling_pos {table : List (String × α)} (htable : ∀ entry ∈ table, 0 < entry.1.length)
    {entry : String × α} (h : findSpelling table cs = some entry) : 0 < entry.1.length :=
  htable entry (List.mem_of_find?_eq_some h)

/-- A spelling that is seen is there. -/
theorem length_le_of_isPrefixOf {spelling : String} (h : spelling.toList.isPrefixOf cs = true) :
    spelling.length ≤ cs.length := by
  rw [← String.length_toList]
  exact (List.isPrefixOf_iff_prefix.mp h).length_le

theorem findSpelling_le {table : List (String × α)} {entry : String × α}
    (h : findSpelling table cs = some entry) : entry.1.length ≤ cs.length :=
  length_le_of_isPrefixOf (List.find?_some h :)

/-- **A symbol ends where the text ends, at the latest.** -/
theorem symbolLength_le (cs : List Char) : State.symbolLength cs ≤ cs.length := by
  unfold State.symbolLength
  split
  next rest =>
    have hrun := length_takeWhile_le isNameChar rest
    rw [List.length_cons, List.length_cons]
    omega
  next rest _ =>
    have hrun := length_takeWhile_le isNameChar rest
    rw [List.length_cons]
    omega
  next rest =>
    have hrun := length_takeWhile_le isNameChar rest
    rw [List.length_cons]
    split
    · omega
    split
    · omega
    next hrest =>
      -- a sign in front of one character, which is there
      have hpos := List.length_pos_iff.mpr (mt List.isEmpty_iff.mpr hrest)
      omega
  next =>
    split
    · have hname := length_takeWhile_le isNameChar cs
      simp only
      split
      next mark rest hmark =>
        have hlength := length_drop_of_cons hmark
        split
        · omega
        split
        · omega
        · omega
      next => exact hname
    · cases hfound : findSpelling methodOperators cs with
      | none => exact Nat.zero_le _
      | some entry => exact findSpelling_le hfound

/-- The name of a global variable has characters, and they are there. -/
theorem globalLength?_le {kind : Kind} (h : State.globalLength? cs = some (kind, n)) :
    n ≤ cs.length := by
  unfold State.globalLength? at h
  split at h
  · cases h
  next c rest =>
    have hone : 1 ≤ (c :: rest).length := Nat.succ_le_succ (Nat.zero_le _)
    split at h
    · cases h
      exact length_takeWhile_le _ _
    split at h
    · cases h
      exact length_takeWhile_le _ _
    split at h
    · cases h
      exact hone
    split at h
    next hminus =>
      cases h
      rw [Bool.and_eq_true] at hminus
      -- the sign and the character behind it are both there
      obtain ⟨d, more, rfl, -⟩ := exists_cons_of_nextIs hminus.2
      exact Nat.succ_le_succ (Nat.succ_le_succ (Nat.zero_le _))
    split at h
    · cases h
      exact hone
    · cases h

/-- What is wrong with a character after its mark is an error. -/
theorem characterPiece?_level {piece : Piece} (h : State.characterPiece? cs = some piece)
    {fault : Fault} (hfault : piece.fault? = some fault) : fault.level = .error := by
  unfold State.characterPiece? at h
  split at h
  · cases h
  · cases h
    exact readEscape_level .full _ hfault
  · split at h
    · cases h
    split at h
    · cases h
    · cases h
      cases hfault

/-- A character is read from behind its mark. -/
theorem characterPiece?_isPrefix {piece : Piece} (h : State.characterPiece? cs = some piece) :
    piece.source <+: cs := by
  unfold State.characterPiece? at h
  split at h
  · cases h
  · cases h
    exact readEscape_prefix .full _
  next c rest _ =>
    split at h
    · cases h
    split at h
    · cases h
    · cases h
      exact ⟨rest, rfl⟩

/-! ## §4. Comments and blanks. -/

theorem documentLength?_pos : ∀ {cs : List Char}, documentLength? cs = some n → 0 < n
  | [], h => by cases h
  | c :: rest, h => by
      rw [documentLength?] at h
      split at h
      · cases h
        omega
      · obtain ⟨m, -, rfl⟩ := Option.map_eq_some_iff.mp h
        omega

theorem lineLength_le : ∀ cs : List Char, lineLength cs ≤ cs.length
  | [] => Nat.le_refl _
  | c :: rest => by
      have hrest := lineLength_le rest
      rw [lineLength, List.length_cons]
      split
      · omega
      · omega

/-- **A document comment ends where the text ends, at the latest.** -/
theorem documentLength?_le : ∀ {cs : List Char} {n : Nat}, documentLength? cs = some n →
    n ≤ cs.length
  | [], n, h => by cases h
  | c :: rest, n, h => by
      rw [documentLength?] at h
      rw [List.length_cons]
      split at h
      · cases h
        have hline := lineLength_le rest
        omega
      · obtain ⟨m, hm, rfl⟩ := Option.map_eq_some_iff.mp h
        have hrest := documentLength?_le hm
        omega

/-- A blank separates tokens, has at least one character, and is there. -/
theorem separator_of_blankLength? (h : State.blankLength? cs = some n) :
    0 < n ∧ n ≤ cs.length ∧ Separator (cs.take n) := by
  unfold State.blankLength? at h
  split at h
  · cases h
    exact ⟨by omega, by simp, .hidden⟩
  · cases h
    exact ⟨by omega, by simp, .hiddenReturn⟩
  · split at h
    next hspace =>
      cases h
      rw [Bool.and_eq_true] at hspace
      exact ⟨by omega, by simp, .space hspace.1⟩
    next => cases h
  · cases h

end RubySyntax.Token.Lexer
