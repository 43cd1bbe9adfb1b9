/-
  RubySyntax.Proofs.Token.Level
  ─────────────────────────────
  **ONLY THE FAULT THAT ENDS A SCAN IS FATAL.**

  Whatever a step reports while the scan goes on is an error or a warning.  A scan that fails
  reports one fault more, its reason, and that one is fatal.  So the level of the last diagnostic
  tells how the scan of a text ended.

  Main results:
    • `Passed.step`, `Passed.run` — what is reported on the way is not fatal,
    • `lex_levels` — a text is split into tokens without a fatal report, or the last report is
      fatal and says why not.
-/
import RubySyntax.Proofs.Token.Step

namespace RubySyntax

/-- A diagnostic after which the reading goes on. -/
def Diagnostic.Passing (d : Diagnostic) : Prop := d.level = .error ∨ d.level = .warning

namespace Token

namespace Lexer

/-! ## §1. Steps. -/

/-- A state up to which nothing fatal has been reported. -/
def Passed (s : State) : Prop := ∀ d ∈ s.diagnostics, d.Passing

variable {s : State}

/-- **The moves of the scan report nothing fatal.** -/
theorem passed_moves : Moves Passed (fun r => ∀ d ∈ r.diagnostics, d.Passing) Passed where
  report h _ hfault _ := List.forall_mem_cons.mpr ⟨.inr hfault, h⟩
  emit h _ _ _ _ := h
  settle h := h
  character h _ _ _ _ hd _ := List.forall_mem_cons.mpr ⟨.inl hd, h⟩
  comment h _ _ _ := h
  blank h _ _ _ := h
  reject h _ _ _ hfault := List.forall_mem_cons.mpr ⟨.inl hfault, h⟩

/-- What is reported about pieces are errors if what is wrong with them is. -/
theorem passing_reportPieces (t : State) : ∀ (pieces : List Piece) (offset : Nat)
    (ds : List Diagnostic),
      (∀ piece ∈ pieces, ∀ fault, piece.fault? = some fault → fault.level = .error) →
      (∀ d ∈ ds, d.Passing) → ∀ d ∈ t.reportPieces offset pieces ds, d.Passing
  | [], _, _, _, hds => hds
  | piece :: pieces, offset, ds, hpieces, hds => by
      obtain ⟨hpiece, hpieces⟩ := List.forall_mem_cons.mp hpieces
      refine passing_reportPieces t pieces _ _ hpieces ?_
      split
      next fault hfault => exact List.forall_mem_cons.mpr ⟨.inl (hpiece fault hfault), hds⟩
      next => exact hds

theorem Passed.reportContent (h : Passed s) (l : Literal) :
    ∀ d ∈ s.reportPieces s.pos (readContent l s.rest).1 s.diagnostics, d.Passing :=
  passing_reportPieces s _ _ _ (readContent_level l s.rest) h

theorem Passed.contentToken (h : Passed s) (l : Literal) :
    Passed (s.contentToken (readContent l s.rest).1) := by
  simp only [State.contentToken]
  split
  · exact h.reportContent l
  · exact h.reportContent l

theorem Passed.closeLiteral (h : Passed s) (l : Literal) : Passed (s.closeLiteral l) := by
  simp only [State.closeLiteral]
  split
  · exact h
  · exact h

/-- **A step reports nothing fatal if the scan goes on after it.** -/
theorem Passed.step (h : Passed s) {s' : State} (hs : s.step = .next s') : Passed s' := by
  unfold State.step at hs
  split at hs
  next l _ _ =>
    cases concludes_of_stepLiteral hs with
    | close _ => exact (h.contentToken l).closeLiteral l
    | interpolation _ => exact h.contentToken l
  next => exact passed_moves.stepCode h hs

/-! ## §2. The end of a scan. -/

/-- A scan ends with a fault: it is fatal, it was reported last, and nothing before it was. -/
structure Stopped (s : State) (fault : Fault) (span : Span) : Prop where
  fatal : fault.level = .fatal
  reported : ∃ before, s.diagnostics = fault.diagnostic span :: before ∧ ∀ d ∈ before, d.Passing

theorem Passed.failAt (h : Passed s) {fault : Fault} (hfault : fault.level = .fatal) (span : Span)
    {s' : State} {fault' : Fault} {span' : Span}
    (hs : s.failAt fault span = .fail s' fault' span') : Stopped s' fault' span' := by
  cases hs
  exact ⟨hfault, _, rfl, h⟩

theorem unterminated_level (l : Literal) : (State.unterminated l).level = .fatal := by
  unfold State.unterminated
  split
  · rfl
  · rfl

/-- A step that fails reports a fatal fault. -/
theorem Passed.stopped_of_step (h : Passed s) {s' : State} {fault : Fault} {span : Span}
    (hs : s.step = .fail s' fault span) : Stopped s' fault span := by
  cases fails_of_step hs with
  | @literal l _ hfailed =>
      have hreported : Passed { s with
          diagnostics := s.reportPieces s.pos (readContent l s.rest).1 s.diagnostics } :=
        h.reportContent l
      exact hreported.failAt (unterminated_level l) _ hfailed.symm
  | document hfailed => exact h.failAt rfl _ hfailed.symm

/-- How a scan ends: with nothing fatal, or with a fault. -/
def Step.Levelled : Step → Prop
  | .next s | .finish s => Passed s
  | .fail s fault span => Stopped s fault span

/-- **A scan that ends without a fault has reported nothing fatal.** -/
theorem Passed.run : ∀ {s : State}, Passed s → s.run.Levelled
  | s, h => by
      rw [State.run]
      split
      next s₁ hstep =>
        have h₁ := h.step hstep
        split
        · exact h₁.failAt rfl _ rfl
        split
        · exact Passed.run h₁
        · exact h₁
      next hended =>
        cases hstep : s.step with
        | next s₁ => exact absurd hstep (hended s₁)
        | finish s₁ =>
            obtain ⟨rfl, -⟩ := atEnd_of_step hstep
            exact h
        | fail s₁ fault span => exact h.stopped_of_step hstep
termination_by s => s.rest.length

theorem Passed.conclude (h : Passed s) : s.conclude.Levelled := by
  unfold State.conclude
  split
  · exact h
  · exact h.failAt rfl _ rfl

end Lexer

open Lexer

/-! ## §3. Whole texts. -/

/-- **A text is split into tokens and nothing fatal is reported, or the last report is fatal and
is the reason why it is not.** -/
theorem lex_levels (text : String) :
    ((∃ lexed, (lex text).1 = .ok lexed) ∧ ∀ d ∈ (lex text).2, d.Passing) ∨
    ∃ before reason, (lex text).1 = .error ⟨reason.message, some reason.span⟩ ∧
      (lex text).2 = before ++ [reason] ∧ reason.level = .fatal ∧ ∀ d ∈ before, d.Passing := by
  have hrun : (State.start text.toList).run.Levelled := Passed.run fun d hd => by cases hd
  have hpassed : ∀ {s : State}, Passed s → ∀ d ∈ s.diagnostics.reverse, d.Passing :=
    fun h d hd => h d (List.mem_reverse.mp hd)
  -- a run that fails has reported its failure last, so it is first in the state, which keeps the
  -- newest diagnostic in front
  have hstopped : ∀ {s : State} {fault : Fault} {span : Span}, Stopped s fault span →
      ∃ before, s.diagnostics.reverse = before ++ [fault.diagnostic span] ∧
        (fault.diagnostic span).level = .fatal ∧ ∀ d ∈ before, d.Passing := by
    rintro s fault span ⟨hfatal, before, hds, hbefore⟩
    refine ⟨before.reverse, ?_, hfatal, fun d hd => hbefore d (List.mem_reverse.mp hd)⟩
    rw [hds, List.reverse_cons]
  unfold lex
  generalize (State.start text.toList).run = ended at hrun
  cases ended with
  | next s => exact .inl ⟨⟨_, rfl⟩, hpassed hrun⟩
  | fail s fault span =>
      obtain ⟨before, hfound⟩ := hstopped hrun
      exact .inr ⟨before, _, rfl, hfound⟩
  | finish s =>
      have hend := Passed.conclude hrun
      simp only
      generalize s.conclude = concluded at hend
      cases concluded with
      | next s | finish s => exact .inl ⟨⟨_, rfl⟩, hpassed hend⟩
      | fail s fault span =>
          obtain ⟨before, hfound⟩ := hstopped hend
          exact .inr ⟨before, _, rfl, hfound⟩

end Token

end RubySyntax
