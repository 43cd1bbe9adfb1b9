/-
  RubySyntax.Proofs.Token.Content
  ───────────────────────────────
  **WHAT THE CONTENT OF A LITERAL IS READ FROM.**

  The pieces of a literal's content are read from the characters at the front of the text, in
  order and without a gap: put together, their sources are the beginning of the text, and what
  ends the content follows.  An escape is at least its backslash, so a content with a piece has
  characters.

  Main results:
    • `readEscape_prefix` — an escape is read from the front of the text,
    • `readContent_append` — and so is a whole content.
-/
import RubySyntax.Token.Lexer.Escape
import Mathlib.Data.List.Basic

namespace RubySyntax.Token.Lexer

open RubySyntax.Text

/-! ## §1. Escapes. -/

theorem digitsUpTo_isPrefix (p : Char → Bool) (most : Nat) (cs : List Char) :
    digitsUpTo p most cs <+: cs :=
  (List.takeWhile_prefix p).trans (List.take_prefix most cs)

/-- What remains after a prefix. -/
theorem append_drop_of_prefix {before cs : List Char} (h : before <+: cs) :
    before ++ cs.drop before.length = cs := by
  obtain ⟨after, rfl⟩ := h
  rw [List.drop_left]

theorem readCodePoints_prefix : ∀ cs : List Char, (readCodePoints cs).1 <+: cs
  | cs => by
      have hblanks := append_drop_of_prefix (List.takeWhile_prefix (l := cs) (· == ' '))
      have hend : cs.takeWhile (· == ' ') <+: cs := List.takeWhile_prefix _
      rw [readCodePoints]
      split
      next => exact hend
      next c rest hrest =>
        rw [hrest] at hblanks
        split
        · -- the closing brace
          refine ⟨rest, ?_⟩
          rw [List.append_assoc]
          exact hblanks
        split
        · -- a number, after which the reading goes on
          have hdigits := append_drop_of_prefix (digitsUpTo_isPrefix isHexDigit 5 rest)
          have hmore := readCodePoints_prefix (rest.drop (digitsUpTo isHexDigit 5 rest).length)
          have hnumber : cs.takeWhile (· == ' ') ++ c :: digitsUpTo isHexDigit 5 rest ++
              (readCodePoints (rest.drop (digitsUpTo isHexDigit 5 rest).length)).1 <+: cs := by
            obtain ⟨after, hafter⟩ := hmore
            refine ⟨after, ?_⟩
            rw [List.append_assoc, hafter, List.append_assoc, List.cons_append, hdigits, hblanks]
          simp only
          split
          · exact hnumber
          · exact hnumber
        · exact hend
termination_by cs => cs.length
decreasing_by
  rename_i hrest _ _
  have h := congrArg List.length hrest
  simp only [List.length_drop, List.length_cons] at h ⊢
  omega

theorem readUnicode_prefix (mark cs : List Char) : (readUnicode mark cs).source <+: mark ++ cs := by
  unfold readUnicode
  split
  next rest =>
    simp only
    exact (List.prefix_append_right_inj mark).mpr
      (List.cons_prefix_cons.mpr ⟨rfl, readCodePoints_prefix rest⟩)
  next =>
    have hdigits := (List.prefix_append_right_inj mark).mpr (digitsUpTo_isPrefix isHexDigit 4 cs)
    simp only
    split
    · split
      · exact hdigits
      · exact hdigits
    · exact hdigits

theorem readHex_prefix (mark cs : List Char) : (readHex mark cs).source <+: mark ++ cs := by
  simp only [readHex]
  split
  · exact List.prefix_append mark cs
  · exact (List.prefix_append_right_inj mark).mpr (digitsUpTo_isPrefix isHexDigit 2 cs)

/-- **An escape is read from the front of the text**, in any style. -/
theorem readEscape_prefix (style : EscapeStyle) (cs : List Char) :
    (readEscape style cs).source <+: '\\' :: cs := by
  have hone : ∀ c rest, ['\\', c] <+: '\\' :: c :: rest := fun c rest => ⟨rest, rfl⟩
  have hbackslash : ∀ cs, (Piece.plain '\\').source <+: '\\' :: cs := fun cs => ⟨cs, rfl⟩
  unfold readEscape
  split
  · split
    · exact hone _ _
    · exact hbackslash _
  · exact hbackslash _
  · split
    · exact hone _ _
    · exact hone _ _
  · exact hbackslash _
  · exact List.prefix_refl _
  next c rest =>
    split
    · exact readUnicode_prefix ['\\', c] rest
    split
    · exact readHex_prefix ['\\', c] rest
    split
    · exact List.cons_prefix_cons.mpr ⟨rfl, digitsUpTo_isPrefix isOctalDigit 3 (c :: rest)⟩
    · exact hone _ _

theorem readEscape_source_ne_nil (style : EscapeStyle) (cs : List Char) :
    (readEscape style cs).source ≠ [] := by
  -- whichever way an escape is read, its source has the backslash
  unfold readEscape
  split
  · split <;> simp [Piece.plain]
  · simp [Piece.plain]
  · split <;> simp
  · simp [Piece.plain]
  · simp
  · split
    · simp only [readUnicode]
      split
      · simp
      · split
        · split <;> simp
        · simp
    split
    · simp only [readHex]
      split <;> simp
    split
    · simp
    · simp

/-- **What is wrong with an escape is an error**, which does not end the reading. -/
theorem readEscape_level (style : EscapeStyle) (cs : List Char) {fault : Fault}
    (h : (readEscape style cs).fault? = some fault) : fault.level = .error := by
  unfold readEscape at h
  split at h
  · split at h <;> cases h
  · cases h
  · split at h <;> cases h
  · cases h
  · cases h
  · split at h
    · -- a code point in braces, or four digits
      unfold readUnicode at h
      split at h
      · simp only at h
        split at h
        · cases h
        · cases h
          rfl
      · simp only at h
        split at h
        · split at h
          · cases h
          · cases h
            rfl
        · cases h
          rfl
    split at h
    · simp only [readHex] at h
      split at h
      · cases h
        rfl
      · cases h
    split at h
    · cases h
    · cases h

/-! ## §2. Contents. -/

/-- What stands after a content that has an ending. -/
def Ending.Before (l : Literal) (after : List Char) : Ending → Prop
  | .close => after.head? = some l.close
  | .interpolation => ∃ more, after = '#' :: '\x7b' :: more
  | .endOfText => after = []

/-- The piece at the beginning of a content. -/
theorem piece_source (style : EscapeStyle) (c : Char) (rest : List Char) :
    (if c == '\\' then readEscape style rest else .plain c).source ≠ [] ∧
      (if c == '\\' then readEscape style rest else .plain c).source <+: c :: rest := by
  split
  next hc =>
    rw [beq_iff_eq.mp hc]
    exact ⟨readEscape_source_ne_nil _ _, readEscape_prefix _ _⟩
  next => exact ⟨List.cons_ne_nil _ _, rest, rfl⟩

/-- **A content is read from the front of the text**, and what ends it comes next. -/
theorem readContent_append (l : Literal) : ∀ cs : List Char, ∃ after,
    cs = sourceOf (readContent l cs).1 ++ after ∧ (readContent l cs).2.Before l after
  | [] => by
      rw [readContent]
      exact ⟨[], rfl, rfl⟩
  | c :: rest => by
      rw [readContent]
      split
      next hclose => exact ⟨c :: rest, rfl, by rw [beq_iff_eq.mp hclose]; rfl⟩
      split
      next hmark =>
        simp only [Bool.and_eq_true, beq_iff_eq] at hmark
        obtain ⟨⟨-, rfl⟩, hbrace⟩ := hmark
        obtain ⟨more, rfl⟩ := List.head?_eq_some_iff.mp hbrace
        exact ⟨_, rfl, more, rfl⟩
      next =>
        -- the content goes on after the source of its first piece
        obtain ⟨hne, hprefix⟩ := piece_source l.escapes c rest
        obtain ⟨d, source, hsource⟩ := List.exists_cons_of_ne_nil hne
        simp only
        generalize (if c == '\\' then readEscape l.escapes rest else .plain c) = piece at *
        have hdrop : (c :: rest).drop piece.source.length
            = rest.drop (piece.source.length - 1) := by
          rw [hsource]
          rfl
        obtain ⟨after, hafter, hending⟩ :=
          readContent_append l (rest.drop (piece.source.length - 1))
        refine ⟨after, ?_, hending⟩
        show c :: rest = (piece.source ++ sourceOf _) ++ after
        rw [List.append_assoc, ← hafter, ← hdrop, append_drop_of_prefix hprefix]
termination_by cs => cs.length
decreasing_by simp only [List.length_drop, List.length_cons]; omega

theorem readContent_isPrefix (l : Literal) (cs : List Char) :
    sourceOf (readContent l cs).1 <+: cs := by
  obtain ⟨after, hafter, -⟩ := readContent_append l cs
  exact ⟨after, hafter.symm⟩

/-- What is wrong with the pieces of a content are errors. -/
theorem readContent_level (l : Literal) : ∀ (cs : List Char), ∀ piece ∈ (readContent l cs).1,
    ∀ fault, piece.fault? = some fault → fault.level = .error
  | [] => by
      rw [readContent]
      exact fun piece h => absurd h List.not_mem_nil
  | c :: rest => by
      rw [readContent]
      split
      · exact fun piece h => absurd h List.not_mem_nil
      split
      · exact fun piece h => absurd h List.not_mem_nil
      · refine List.forall_mem_cons.mpr ⟨fun fault hfault => ?_, readContent_level l _⟩
        split at hfault
        · exact readEscape_level _ _ hfault
        · cases hfault
termination_by cs => cs.length
decreasing_by simp only [List.length_drop, List.length_cons]; omega

/-- The content of a literal is empty or has characters. -/
theorem readContent_cases (l : Literal) (cs : List Char) :
    (readContent l cs).1 = [] ∨ 0 < (sourceOf (readContent l cs).1).length := by
  cases cs with
  | nil =>
      rw [readContent]
      exact .inl rfl
  | cons c rest =>
      rw [readContent]
      split
      · exact .inl rfl
      split
      · exact .inl rfl
      · -- the first piece has characters, whether it is an escape or not
        refine .inr ?_
        have hpos := List.length_pos_iff.mpr (piece_source l.escapes c rest).1
        show 0 < (sourceOf
          ((if c == '\\' then readEscape l.escapes rest else .plain c) :: _)).length
        rw [sourceOf, List.flatMap_cons, List.length_append]
        omega

end RubySyntax.Token.Lexer
