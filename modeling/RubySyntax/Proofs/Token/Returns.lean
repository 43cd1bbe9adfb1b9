/-
  RubySyntax.Proofs.Token.Returns
  ───────────────────────────────
  **TEXTS WITH CARRIAGE RETURNS BEFORE THEIR NEWLINES.**

  `withReturns` puts a carriage return before each newline of a text.  Up to its first newline a
  text stays the same, and there it parts from the text with carriage returns in one of the ways
  that no look-ahead sees.  Two pieces of code reach past a newline, or up to it: a document
  comment, which takes whole lines, and a line comment, which leaves out the returns at its end.

      withReturns (line ++ "\n" ++ after) = line ++ "\r\n" ++ withReturns after

  Main results:
    • `blurred_withReturns` — a text and the text with returns part at the first newline,
    • `documentLength?_withReturns` — a document comment takes the same lines,
    • `dropReturns_snoc` — a line comment has the same text.
-/
import Mathlib.Data.List.Basic
import RubySyntax.Proofs.Token.Veil

namespace RubySyntax

/-! ## §1. Returns before newlines. -/

namespace Text

/-- A text with a carriage return before each newline. -/
def withReturns (cs : List Char) : List Char :=
  cs.flatMap fun c => if c = '\n' then ['\r', '\n'] else [c]

variable {cs line after : List Char} {c : Char}

@[simp] theorem withReturns_nil : withReturns [] = [] := rfl

@[simp] theorem withReturns_newline (cs : List Char) :
    withReturns ('\n' :: cs) = '\r' :: '\n' :: withReturns cs := rfl

theorem withReturns_cons (hc : c ≠ '\n') (cs : List Char) :
    withReturns (c :: cs) = c :: withReturns cs := by
  rw [withReturns, List.flatMap_cons, if_neg hc]
  rfl

theorem withReturns_append (cs ds : List Char) :
    withReturns (cs ++ ds) = withReturns cs ++ withReturns ds := List.flatMap_append

/-- One line stays the same. -/
theorem withReturns_line (h : '\n' ∉ line) : withReturns line = line := by
  induction line with
  | nil => rfl
  | cons c line ih =>
      rw [List.mem_cons, not_or] at h
      rw [withReturns_cons (Ne.symm h.1), ih h.2]

/-- The last character stays the same. -/
theorem getLast?_withReturns (cs : List Char) : (withReturns cs).getLast? = cs.getLast? := by
  rcases List.eq_nil_or_concat' cs with rfl | ⟨start, c, rfl⟩
  · rfl
  · rw [withReturns_append, List.getLast?_append, List.getLast?_append]
    by_cases hc : c = '\n'
    · rw [hc]
      rfl
    · rw [withReturns_line (by simpa using Ne.symm hc)]
      rfl

/-- The beginning of a text with returns, and what follows it. -/
theorem withReturns_take_drop (cs : List Char) (n : Nat) :
    withReturns cs = withReturns (cs.take n) ++ withReturns (cs.drop n) := by
  rw [← withReturns_append, List.take_append_drop]

/-- A text falls into its first line and what follows: nothing, or a newline and other lines. -/
theorem exists_line (cs : List Char) : ∃ line after, cs = line ++ after ∧ '\n' ∉ line ∧
    (after = [] ∨ ∃ more, after = '\n' :: more) := by
  induction cs with
  | nil => exact ⟨[], [], rfl, List.not_mem_nil, .inl rfl⟩
  | cons c rest ih =>
      by_cases hc : c = '\n'
      · exact ⟨[], c :: rest, rfl, List.not_mem_nil, .inr ⟨rest, hc ▸ rfl⟩⟩
      · obtain ⟨line, after, rfl, hline, hafter⟩ := ih
        have hmore : '\n' ∉ c :: line := by
          rw [List.mem_cons]
          exact not_or.mpr ⟨Ne.symm hc, hline⟩
        exact ⟨c :: line, after, rfl, hmore, hafter⟩

end Text

namespace Token.Lexer

open RubySyntax.Text

variable {cs line after X r r' : List Char} {n : Nat}

/-! ## §2. Looks past a newline. -/

/-- The call that goes on in the next line is seen behind carriage returns too. -/
theorem continuesWithCall_withReturns (inComment : Bool) (cs : List Char) :
    continuesWithCall inComment (withReturns cs) = continuesWithCall inComment cs := by
  have hpoint : ∀ cs : List Char, ((withReturns cs).head? == some '.') = (cs.head? == some '.') := by
    intro cs
    cases cs with
    | nil => rfl
    | cons c rest =>
        by_cases hc : c = '\n'
        · rw [hc]
          rfl
        · rw [withReturns_cons hc]
          rfl
  induction cs generalizing inComment with
  | nil => rfl
  | cons c rest ih =>
      by_cases hc : c = '\n'
      · subst hc
        -- the return is a blank, or one character more of the comment
        cases inComment with
        | false => exact ih false
        | true => exact ih false
      · rw [withReturns_cons hc]
        simp only [continuesWithCall, ih, bne, hpoint]

theorem veiled_withReturns (h : after = [] ∨ ∃ more, after = '\n' :: more) :
    Veiled after (withReturns after) := by
  rcases h with rfl | ⟨more, rfl⟩
  · exact .nothing
  · exact .returns more _ (continuesWithCall_withReturns false more)

/-- **A text and the text with returns part at the first newline.** -/
theorem blurred_withReturns (hline : '\n' ∉ line) (h : after = [] ∨ ∃ more, after = '\n' :: more) :
    Blurred after (withReturns after) (line ++ after) (withReturns (line ++ after)) := by
  rw [withReturns_append, withReturns_line hline]
  clear hline
  induction line with
  | nil => exact .ends (veiled_withReturns h)
  | cons c line ih => exact .cons c ih

theorem Blurred.exists_append {Y : List Char} (h : Blurred X Y r r') :
    ∃ start, r = start ++ X ∧ r' = start ++ Y := by
  induction h with
  | ends => exact ⟨[], rfl, rfl⟩
  | cons c _ ih =>
      obtain ⟨start, rfl, rfl⟩ := ih
      exact ⟨c :: start, rfl, rfl⟩

/-- Before that newline texts that part there are a text and the text with returns. -/
theorem Blurred.eq_withReturns (h : Blurred X (withReturns X) r r') (hline : '\n' ∉ line)
    (hr : r <:+ line ++ X) : r' = withReturns r := by
  obtain ⟨start, rfl, rfl⟩ := h.exists_append
  obtain ⟨before, hbefore⟩ := hr
  rw [← List.append_assoc] at hbefore
  have hstart : '\n' ∉ start := fun hmem =>
    hline (List.append_cancel_right hbefore ▸ List.mem_append_right _ hmem)
  rw [withReturns_append, withReturns_line hstart]

/-! ## §3. Comments. -/

theorem lineLength_withReturns (cs : List Char) :
    lineLength (withReturns cs) = (withReturns (cs.take (lineLength cs))).length := by
  induction cs with
  | nil => rfl
  | cons c rest ih =>
      by_cases hc : c = '\n'
      · subst hc
        rfl
      · have hne : ¬ (c == '\n') = true := fun heq => hc (beq_iff_eq.mp heq)
        rw [withReturns_cons hc, lineLength, lineLength, if_neg hne, if_neg hne, ih, Nat.add_comm,
          Nat.add_comm 1, List.take_succ_cons, withReturns_cons hc, List.length_cons]

/-- The line that closes a document comment is seen behind carriage returns too. -/
theorem closes_withReturns (cs : List Char) :
    ("=end".toList.isPrefixOf (withReturns cs) && State.atSpace ((withReturns cs).drop 4)) =
      ("=end".toList.isPrefixOf cs && State.atSpace (cs.drop 4)) := by
  obtain ⟨line, after, rfl, hline, hafter⟩ := exists_line cs
  have hblurred := blurred_withReturns hline hafter
  rw [hblurred.isPrefixOf (by decide)]
  cases hend : "=end".toList.isPrefixOf (line ++ after) with
  | false => rfl
  | true =>
      have hfour := hblurred.drop_of_line (oneLine_of_isPrefixOf (by decide) hend)
        (length_le_of_isPrefixOf hend)
      rw [show "=end".length = 4 from rfl] at hfour
      rw [hfour.atSpace]

/-- **A document comment takes the same lines.** -/
theorem documentLength?_withReturns : ∀ {cs : List Char} {n : Nat}, documentLength? cs = some n →
    documentLength? (withReturns cs) = some (withReturns (cs.take n)).length
  | [], n, h => nomatch h
  | c :: rest, n, h => by
      have hcloses := closes_withReturns rest
      rw [documentLength?, Bool.and_assoc] at h
      by_cases hc : c = '\n'
      · subst hc
        rw [withReturns_newline, documentLength?, if_neg (by simp), documentLength?, Bool.and_assoc,
          hcloses]
        split at h
        next hcond =>
          cases h
          rw [if_pos hcond, lineLength_withReturns, Nat.add_comm 1 (lineLength rest), List.take_succ_cons,
            withReturns_newline, List.length_cons, List.length_cons, Option.map_some]
          congr 1
          omega
        next hcond =>
          obtain ⟨m, hm, rfl⟩ := Option.map_eq_some_iff.mp h
          rw [if_neg hcond, documentLength?_withReturns hm, Nat.add_comm 1 m, List.take_succ_cons,
            withReturns_newline, List.length_cons, List.length_cons, Option.map_some, Option.map_some]
          congr 1
          omega
      · have hne : ∀ b : Bool, ¬ (c == '\n' && b) = true := by simp [hc]
        rw [if_neg (hne _)] at h
        obtain ⟨m, hm, rfl⟩ := Option.map_eq_some_iff.mp h
        rw [withReturns_cons hc, documentLength?, Bool.and_assoc, if_neg (hne _),
          documentLength?_withReturns hm, Nat.add_comm 1 m, List.take_succ_cons, withReturns_cons hc,
          List.length_cons, Option.map_some, Nat.add_comm]

/-- A document comment has a newline. -/
theorem newline_mem_of_documentLength? : ∀ {cs : List Char} {n : Nat}, documentLength? cs = some n →
    '\n' ∈ cs.take n
  | [], n, h => nomatch h
  | c :: rest, n, h => by
      rw [documentLength?] at h
      split at h
      next hcond =>
        cases h
        simp only [Bool.and_eq_true, beq_iff_eq] at hcond
        rw [Nat.add_comm, List.take_succ_cons, hcond.1.1]
        exact List.mem_cons_self
      next =>
        obtain ⟨m, hm, rfl⟩ := Option.map_eq_some_iff.mp h
        rw [Nat.add_comm, List.take_succ_cons]
        exact List.mem_cons_of_mem _ (newline_mem_of_documentLength? hm)

/-- **A line comment has the same text**, since it leaves out the return at its end. -/
theorem dropReturns_snoc (line : List Char) : dropReturns (line ++ ['\r']) = dropReturns line := by
  rw [dropReturns, List.reverse_append]
  rfl

end Token.Lexer

end RubySyntax
