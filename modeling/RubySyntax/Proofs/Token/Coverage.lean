/-
  RubySyntax.Proofs.Token.Coverage
  ────────────────────────────────
  **THE TOKENS AND COMMENTS OF A TEXT ACCOUNT FOR IT.**

  The scan takes steps until the text ends or a line ends the program, each step consumes
  something, and the ledger is kept all along.  So of a text that can be split into tokens
  nothing is lost and nothing is read twice:

      byte before the end  ⇒  in a token, in a comment, in an error, or a separator

  Main results:
    • `Scanned.run` — the ledger at the end of the scan, and what the end is,
    • `lex_accounts` — what the ledger means for the offsets of a text.
-/
import RubySyntax.Proofs.Token.Step

namespace RubySyntax.Token

open RubySyntax.Text

namespace Lexer

/-! ## §1. The end of the scan. -/

/-- **The ledger at the end of the scan.**  The steps end where the text or the program ends, or
the scan fails. -/
theorem Scanned.run {text : List Char} :
    ∀ {s : State}, Scanned text s.rest.length s → ∀ s', s.run ≠ .next s' ∧
      (s.run = .finish s' → Scanned text s'.rest.length s' ∧ AtEnd s')
  | s, h, s' => by
      rw [State.run]
      split
      next s₁ hstep =>
        obtain ⟨c, rest, hrest⟩ := List.exists_cons_of_ne_nil (rest_ne_nil_of_step hstep)
        have hlength : s.rest.length = rest.length + 1 := by rw [hrest, List.length_cons]
        have h₁ : Scanned text rest.length s₁ := (h.mono (Nat.le_of_eq hlength)).step hstep
        split
        · -- brackets and bodies are nested too deeply
          unfold State.failAt
          exact ⟨Step.noConfusion, Step.noConfusion⟩
        split
        · exact Scanned.run ⟨Nat.le_refl _, h₁.2⟩ s'
        next hmore =>
          -- a step consumes something, so the scan never stops for want of progress
          have hless := h₁.1
          omega
      next hended =>
        refine ⟨fun hs => hended s' hs, fun hs => ?_⟩
        obtain ⟨rfl, hend⟩ := atEnd_of_step hs
        exact ⟨h, hend⟩
termination_by s => s.rest.length

theorem conclude_cases (s : State) :
    s.conclude = .finish s ∨ ∃ s' fault span, s.conclude = .fail s' fault span := by
  unfold State.conclude
  split
  · exact .inl rfl
  · exact .inr ⟨_, _, _, rfl⟩

/-! ## §2. The end of the program. -/

/-- A text ends a program: nothing is left of it, or it begins with the line `__END__`. -/
def EndsProgram (read rest : List Char) : Prop :=
  rest = [] ∨ ((read = [] ∨ read.getLast? = some '\n') ∧
    ∃ more, rest = "__END__".toList ++ more ∧
      (more = [] ∨ (∃ after, more = '\n' :: after) ∨ ∃ after, more = '\r' :: '\n' :: after))

theorem eq_append_of_atEndMarker {s : State} (h : s.atEndMarker = true) :
    ∃ more, s.rest = "__END__".toList ++ more ∧
      (more = [] ∨ (∃ after, more = '\n' :: after) ∨ ∃ after, more = '\r' :: '\n' :: after) := by
  rw [State.atEndMarker, Bool.and_eq_true] at h
  obtain ⟨hsees, hafter⟩ := h
  obtain ⟨more, hmore⟩ := List.isPrefixOf_iff_prefix.mp hsees
  have hdrop : s.rest.drop 7 = more := by
    rw [← hmore]
    exact List.drop_left' rfl
  refine ⟨more, hmore.symm, ?_⟩
  rw [hdrop] at hafter
  split at hafter
  · exact .inl rfl
  · exact .inr (.inl ⟨_, rfl⟩)
  · exact .inr (.inr ⟨_, rfl⟩)
  · cases hafter

end Lexer

open Lexer

/-! ## §3. Whole texts. -/

/-- The tokens and comments of a text account for all of it up to the end of the program, but for
separators and what the diagnostics call an error. -/
structure Lexed.Accounts (lexed : Lexed) (text : String) (found : List Diagnostic) : Prop where
  /-- The program ends with the text, or at the line `__END__`. -/
  stops : ∃ read rest, text.toList = read ++ rest ∧ byteLength read = lexed.stop ∧
    EndsProgram read rest
  /-- The tokens stand in order and do not overlap. -/
  tokens_ordered : lexed.tokens.Pairwise fun a b => a.span.stop ≤ b.span.start
  /-- The comments stand in order and do not overlap. -/
  comments_ordered : lexed.comments.Pairwise fun a b => a.span.stop ≤ b.span.start
  /-- Tokens and comments do not overlap. -/
  disjoint : ∀ t ∈ lexed.tokens, ∀ c ∈ lexed.comments,
    t.span.stop ≤ c.span.start ∨ c.span.stop ≤ t.span.start
  tokens_within : ∀ t ∈ lexed.tokens, t.span.start ≤ t.span.stop ∧ t.span.stop ≤ lexed.stop
  comments_within : ∀ c ∈ lexed.comments, c.span.start ≤ c.span.stop ∧ c.span.stop ≤ lexed.stop
  /-- Each byte of the program lies in a token, in a comment or in an error, or is a separator. -/
  accounted : ∀ offset < lexed.stop,
    Accounted text.toList lexed.tokens lexed.comments found offset

/-- A text that can be split into tokens has been scanned to the end of the program. -/
theorem scanned_of_lex {text : String} {lexed : Lexed} (h : (lex text).1 = .ok lexed) :
    ∃ s : State, Scanned text.toList s.rest.length s ∧ AtEnd s ∧
      lexed = ⟨s.tokens.reverse, s.comments.reverse, s.pos⟩ ∧
      (lex text).2 = s.diagnostics.reverse := by
  have hrun := Scanned.run (scanned_start text.toList)
  unfold lex at h ⊢
  generalize (State.start text.toList).run = ended at h hrun
  cases ended with
  | next s => exact absurd rfl (hrun s).1
  | fail s fault span => cases h
  | finish s =>
      obtain ⟨hscanned, hend⟩ := (hrun s).2 rfl
      rcases conclude_cases s with hconclude | ⟨s', fault, span, hconclude⟩
      · simp only [hconclude] at h ⊢
        cases h
        exact ⟨s, hscanned, hend, rfl, rfl⟩
      · simp only [hconclude] at h
        cases h

/-- **The tokens and comments of a text account for it.** -/
theorem lex_accounts {text : String} {lexed : Lexed} (h : (lex text).1 = .ok lexed) :
    lexed.Accounts text (lex text).2 := by
  obtain ⟨s, ⟨-, read, hread⟩, hend, rfl, hfound⟩ := scanned_of_lex h
  -- the ledger has the newest record first, and the result the oldest
  have hledger := hread.ledger
  refine ⟨⟨read, s.rest, hread.text_eq, hread.pos_eq.symm, ?_⟩, ?_, ?_, ?_, ?_, ?_, ?_⟩
  · rcases hend with hrest | ⟨hline, hmarker⟩
    · exact .inl hrest
    · exact .inr ⟨hread.lineStart.mp hline, eq_append_of_atEndMarker hmarker⟩
  · exact List.pairwise_reverse.mpr hledger.tokens_ordered
  · exact List.pairwise_reverse.mpr hledger.comments_ordered
  · intro t ht c hc
    exact hledger.disjoint t (List.mem_reverse.mp ht) c (List.mem_reverse.mp hc)
  · intro t ht
    show t.span.start ≤ t.span.stop ∧ t.span.stop ≤ s.pos
    rw [hread.pos_eq]
    exact hledger.tokens_within t (List.mem_reverse.mp ht)
  · intro c hc
    show c.span.start ≤ c.span.stop ∧ c.span.stop ≤ s.pos
    rw [hread.pos_eq]
    exact hledger.comments_within c (List.mem_reverse.mp hc)
  · intro offset hoffset
    rw [hread.pos_eq] at hoffset
    rw [hread.text_eq, hfound]
    exact (hledger.accounted offset hoffset).mono s.rest (fun _ => List.mem_reverse.mpr)
      (fun _ => List.mem_reverse.mpr) fun _ => List.mem_reverse.mpr

theorem lex_accounts_marker : ∃ lexed,
    (lex "a \\\n= 1 # b\n__END__\nc").1 = .ok lexed ∧ lexed.stop = 12 ∧
      lexed.Accounts "a \\\n= 1 # b\n__END__\nc" (lex "a \\\n= 1 # b\n__END__\nc").2 := by
  have hlex : ((lex "a \\\n= 1 # b\n__END__\nc").1.toOption.any fun lexed => lexed.stop == 12)
      = true := by decide +kernel
  cases h : (lex "a \\\n= 1 # b\n__END__\nc").1 with
  | error abort =>
      rw [h] at hlex
      cases hlex
  | ok lexed =>
      rw [h] at hlex
      exact ⟨lexed, rfl, beq_iff_eq.mp hlex, lex_accounts h⟩

end RubySyntax.Token
