/-
  RubySyntax.Proofs.Token.Report
  ──────────────────────────────
  **THE SCAN REPORTS IN ORDER.**

  A step reports about what it reads, never about what was read before it, so the diagnostics of
  a scan begin in the order in which they were found.  Two faults are found later than where they
  begin.  Nesting that is too deep begins at the last token, which no report is behind, because
  only a token opens anything.  A literal without an end begins at its opening quote, and behind
  that there may be reports about escapes, or about code inside an interpolation:

      "\u{zz}          invalid escape, then: unterminated string, which begins before it

  On the way the tokens are seen to cover something, except perhaps the options of a regular
  expression.

  Main results:
    • `Recorded.step`, `Recorded.run` — the records of a scan stay in step with its position,
    • `lex_reports` — the diagnostics of a text are in order, or a literal in it has no end,
    • `lex_wide` — every token covers something.
-/
import RubySyntax.Proofs.Token.Step

namespace RubySyntax

/-- Diagnostics that begin in the order of the list. -/
def Diagnostic.Ordered (ds : List Diagnostic) : Prop :=
  ds.Pairwise fun a b => a.span.start ≤ b.span.start

instance (ds : List Diagnostic) : Decidable (Diagnostic.Ordered ds) :=
  inferInstanceAs (Decidable (ds.Pairwise _))

namespace Token

open RubySyntax.Text

/-- A token that covers something, as all do but for the options of a regular expression. -/
def Wide (t : Token) : Prop := t.kind = .tREGEXP_OPT ∨ t.span.start < t.span.stop

namespace Lexer

/-! ## §1. The invariant. -/

/-- Diagnostics, latest first, that begin in the order of the scan and up to an offset. -/
structure Upto (offset : Nat) (diagnostics : List Diagnostic) : Prop where
  ordered : diagnostics.Pairwise fun later earlier => earlier.span.start ≤ later.span.start
  reached : ∀ d ∈ diagnostics, d.span.start ≤ offset

theorem Upto.mono {offset offset' : Nat} {ds : List Diagnostic} (h : Upto offset ds)
    (hle : offset ≤ offset') : Upto offset' ds :=
  ⟨h.ordered, fun d hd => Nat.le_trans (h.reached d hd) hle⟩

/-- A further diagnostic, which begins at the offset or after it. -/
theorem Upto.cons {offset offset' : Nat} {ds : List Diagnostic} (h : Upto offset ds)
    (d : Diagnostic) (hd : offset ≤ d.span.start) (hle : d.span.start ≤ offset') :
    Upto offset' (d :: ds) := by
  have hbefore := h.mono hd
  have hreached := h.mono (Nat.le_trans hd hle)
  exact ⟨List.pairwise_cons.mpr ⟨hbefore.reached, h.ordered⟩,
    List.forall_mem_cons.mpr ⟨hle, hreached.reached⟩⟩

theorem Upto.ordered_reverse {offset : Nat} {ds : List Diagnostic} (h : Upto offset ds) :
    Diagnostic.Ordered ds.reverse :=
  List.pairwise_reverse.mpr h.ordered

/-- The records of a scan are in step with its position. -/
structure InStep (pos : Nat) (tokens : List Token) (diagnostics : List Diagnostic) : Prop where
  upto : Upto pos diagnostics
  wide : ∀ t ∈ tokens, t.Wide

/-- The diagnostics begin before the last token, or where it begins. -/
def Behind (pos : Nat) (tokens : List Token) (diagnostics : List Diagnostic) : Prop :=
  ∀ d ∈ diagnostics, d.span.start ≤ (tokens.head?.map (·.span.start)).getD pos

/-- A state whose records are in step with its position. -/
def Recorded (s : State) : Prop := InStep s.pos s.tokens s.diagnostics

/-- A state in which, moreover, nothing was opened since the nesting was `n`, or the last report
is not behind the last token. -/
def Calm (n : Nat) (s : State) : Prop :=
  Recorded s ∧ (s.nesting = n ∨ Behind s.pos s.tokens s.diagnostics)

theorem recorded_start (text : List Char) : Recorded (State.start text) :=
  ⟨⟨.nil, nofun⟩, nofun⟩

/-! ## §2. Moves. -/

variable {s : State} {n : Nat}

theorem pos_lt_advance (hn : Offers s.rest n) : s.pos < (s.advance n).pos := by
  apply Nat.lt_add_of_pos_right
  rw [bytesOfNext_eq hn.le]
  apply byteLength_pos
  rw [ne_eq, List.take_eq_nil_iff]
  exact not_or.mpr ⟨Nat.ne_of_gt hn.pos, hn.ne_nil⟩

/-- Consuming something leaves the records in step. -/
theorem Recorded.advance (h : Recorded s) (n : Nat) : Recorded (s.advance n) :=
  ⟨h.upto.mono (Nat.le_add_right _ _), h.wide⟩

/-- A token of the next `n` characters, which no report is behind. -/
theorem Recorded.emit (h : Recorded s) (kind : Kind)
    (hwide : kind = .tREGEXP_OPT ∨ Offers s.rest n) (value : List Char) :
    Recorded (s.emit kind n value) ∧
      Behind (s.emit kind n value).pos (s.emit kind n value).tokens
        (s.emit kind n value).diagnostics := by
  refine ⟨⟨(h.advance n).upto, List.forall_mem_cons.mpr ⟨?_, h.wide⟩⟩, h.upto.reached⟩
  exact hwide.imp_right pos_lt_advance

/-- A report about what comes next. -/
theorem Recorded.report (h : Recorded s) (fault : Fault) (n : Nat) :
    Recorded (s.report fault n) :=
  ⟨h.upto.cons _ (Nat.le_refl s.pos) (Nat.le_refl s.pos), h.wide⟩

/-- **The moves of the scan keep its records in step.** -/
theorem recorded_moves (nesting : Nat) :
    Moves (fun s => Recorded s ∧ s.nesting = nesting)
      (fun r => InStep r.pos r.tokens r.diagnostics ∧ Behind r.pos r.tokens r.diagnostics)
      (Calm nesting) where
  report h _ _ n := ⟨h.1.report _ n, h.2⟩
  emit h _ hn kind value := h.1.emit kind (.inr hn) value
  settle h := ⟨h.1, .inr h.2⟩
  character h n hn d value _ hd := by
    -- the report is behind the mark, but a character opens nothing
    have hnext := pos_lt_advance hn
    have hwide := (h.1.emit .tCHARACTER (.inr hn) value).1.wide
    refine ⟨⟨h.1.upto.cons d ?_ ?_, hwide⟩, .inl h.2⟩
    · rw [hd]
      exact Nat.le_succ _
    · rw [hd]
      exact hnext
  comment h n _ _ := ⟨h.1.advance n, .inl h.2⟩
  blank h n _ _ := ⟨h.1.advance n, .inl h.2⟩
  reject h n _ fault _ := ⟨(h.1.report fault n).advance n, .inl h.2⟩

/-! ## §3. Literals. -/

/-- The reports about the pieces of a content begin inside it, in order. -/
theorem upto_reportPieces (t : State) : ∀ (pieces : List Piece) {offset : Nat}
    {ds : List Diagnostic}, Upto offset ds →
      Upto (offset + byteLength (sourceOf pieces)) (t.reportPieces offset pieces ds)
  | [], offset, ds, h => h
  | piece :: pieces, offset, ds, h => by
      have hsource : byteLength (sourceOf (piece :: pieces))
          = byteLength piece.source + byteLength (sourceOf pieces) := byteLength_append _ _
      rw [hsource, ← Nat.add_assoc]
      apply upto_reportPieces t pieces
      split
      · exact h.cons _ (Nat.le_refl offset) (Nat.le_add_right _ _)
      · exact h.mono (Nat.le_add_right _ _)

/-- After the content of a literal the records are in step. -/
theorem Recorded.contentToken (h : Recorded s) (l : Literal) :
    Recorded (s.contentToken (readContent l s.rest).1) := by
  obtain ⟨after, hafter, -⟩ := readContent_append l s.rest
  have hcases := readContent_cases l s.rest
  generalize readContent l s.rest = content at *
  obtain ⟨pieces, ending⟩ := content
  simp only [State.contentToken] at *
  split
  next hempty =>
    -- no characters, so no pieces, and nothing to report
    rw [List.isEmpty_iff] at hempty
    rw [hempty] at hcases
    obtain rfl := hcases.resolve_right (Nat.lt_irrefl 0)
    exact h
  next hempty =>
    have htake : s.rest.take (sourceOf pieces).length = sourceOf pieces := by
      rw [hafter, List.take_left]
    have hlength : (sourceOf pieces).length ≤ s.rest.length := by
      rw [hafter, List.length_append]
      exact Nat.le_add_right _ _
    have hreports := upto_reportPieces s pieces h.upto
    refine ⟨?_, ?_⟩
    · show Upto (s.pos + s.bytesOfNext (sourceOf pieces).length) _
      rw [bytesOfNext_eq hlength, htake]
      exact hreports
    · -- the content covers its characters
      rw [List.isEmpty_iff] at hempty
      have hoffers : Offers s.rest (sourceOf pieces).length :=
        ⟨List.length_pos_iff.mpr hempty, hlength⟩
      exact (h.emit .tSTRING_CONTENT (.inr hoffers) (valueOf pieces)).1.wide

/-- The closing quote is the last token, or the options after it are. -/
theorem Recorded.closeLiteral (h : Recorded s) (hone : Offers s.rest 1) (l : Literal)
    (nesting : Nat) : Calm nesting (s.closeLiteral l) := by
  have hclosed := h.emit .tSTRING_END (.inr hone) (s.rest.take 1)
  simp only [State.closeLiteral]
  split
  · have hoptions : Recorded
        ({ s with modes := s.modes.tail }.emitThen .tSTRING_END 1 .operator) := hclosed.1
    exact (hoptions.emit .tREGEXP_OPT (.inl rfl) _).imp_right .inr
  · exact ⟨hclosed.1, .inr hclosed.2⟩

theorem Recorded.openInterpolation (h : Recorded s) (htwo : Offers s.rest 2) (nesting : Nat) :
    Calm nesting s.openInterpolation :=
  (h.emit .tSTRING_DBEG (.inr htwo) _).imp_right .inr

theorem Recorded.stepLiteral (h : Recorded s) (l : Literal) {s' : State}
    (hs : s.stepLiteral l = .next s') (nesting : Nat) : Calm nesting s' := by
  have hcontent := h.contentToken l
  cases concludes_of_stepLiteral hs with
  | close hrest => exact hcontent.closeLiteral ⟨Nat.one_pos, by simp [hrest]⟩ l nesting
  | interpolation hrest =>
      exact hcontent.openInterpolation ⟨Nat.two_pos, by simp [hrest]⟩ nesting

/-! ## §4. Steps. -/

/-- **A step keeps the records in step**, and opens nothing but by a token. -/
theorem Recorded.step (h : Recorded s) {s' : State} (hs : s.step = .next s') :
    Calm s.nesting s' := by
  unfold State.step at hs
  split at hs
  · exact h.stepLiteral _ hs _
  · exact (recorded_moves s.nesting).stepCode ⟨h, rfl⟩ hs

/-- The fault of a literal that has no end. -/
def Fault.LeftOpen (fault : Fault) : Prop :=
  fault = .unterminatedString ∨ fault = .unterminatedRegexp

/-- What was reported before the scan failed is in order, and the failure is behind it or that of
a literal which has no end. -/
def FailsInOrder (s : State) (fault : Fault) (span : Span) : Prop :=
  ∃ before offset, s.diagnostics = fault.diagnostic span :: before ∧ Upto offset before ∧
    (Fault.LeftOpen fault ∨ ∀ d ∈ before, d.span.start ≤ span.start)

/-- A step that fails does so in a literal that has no end, or in a document comment, where it
stands. -/
theorem Recorded.fails_of_step (h : Recorded s) {s' : State} {fault : Fault} {span : Span}
    (hs : s.step = .fail s' fault span) : FailsInOrder s' fault span := by
  cases Lexer.fails_of_step hs with
  | literal _ hfailed =>
      cases hfailed
      refine ⟨_, _, rfl, upto_reportPieces s _ h.upto, .inl ?_⟩
      unfold State.unterminated
      split
      · exact .inr rfl
      · exact .inl rfl
  | document hfailed =>
      cases hfailed
      exact ⟨_, _, rfl, h.upto, .inr h.upto.reached⟩

/-- How a scan ends whose records are in step with its position. -/
def Step.InOrder : Step → Prop
  | .next s | .finish s => Recorded s
  | .fail s fault span => FailsInOrder s fault span

/-- **The records at the end of the scan.** -/
theorem Recorded.run : ∀ {s : State}, Recorded s → s.nesting ≤ maxNesting → s.run.InOrder
  | s, h, hnesting => by
      rw [State.run]
      split
      next s₁ hstep =>
        obtain ⟨h₁, hcalm⟩ := h.step hstep
        split
        next hdeep =>
          -- something was opened, so the last token is behind every report
          rcases hcalm with hsame | hbehind
          · rw [← hsame] at hnesting
            exact absurd hdeep (Nat.not_lt.mpr hnesting)
          · exact ⟨_, _, rfl, h₁.upto, .inr hbehind⟩
        next hflat =>
          split
          · exact Recorded.run h₁ (Nat.not_lt.mp hflat)
          · exact h₁
      next hended =>
        cases hstep : s.step with
        | next s₁ => exact absurd hstep (hended s₁)
        | finish s₁ =>
            obtain ⟨rfl, -⟩ := atEnd_of_step hstep
            exact h
        | fail s₁ fault span => exact h.fails_of_step hstep
termination_by s => s.rest.length

theorem Recorded.conclude (h : Recorded s) : s.conclude.InOrder := by
  unfold State.conclude
  split
  · exact h
  · exact ⟨_, _, rfl, h.upto, .inl (.inl rfl)⟩

end Lexer

open Lexer

/-! ## §5. Whole texts. -/

/-- A text is split into tokens or not, and the records at the end are in step. -/
theorem lex_cases (text : String) :
    (∃ s, Recorded s ∧ lex text =
      (.ok ⟨s.tokens.reverse, s.comments.reverse, s.pos⟩, s.diagnostics.reverse)) ∨
    ∃ s fault span, FailsInOrder s fault span ∧
      lex text = (.error ⟨fault.message, some span⟩, s.diagnostics.reverse) := by
  have hrun := (recorded_start text.toList).run (Nat.zero_le _)
  unfold lex
  generalize (State.start text.toList).run = ended at hrun
  cases ended with
  | next s => exact .inl ⟨s, hrun, rfl⟩
  | fail s fault span => exact .inr ⟨s, fault, span, hrun, rfl⟩
  | finish s =>
      have hend := Recorded.conclude hrun
      simp only
      generalize s.conclude = concluded at hend
      cases concluded with
      | next s => exact .inl ⟨s, hend, rfl⟩
      | finish s => exact .inl ⟨s, hend, rfl⟩
      | fail s fault span => exact .inr ⟨s, fault, span, hend, rfl⟩

/-- The diagnostics about a text that has failed inside a literal which has no end: the last one
is about the literal, from its opening quote on, and begins before one of the others; these are in
order. -/
def OutOfOrder (fault : Fault) (span : Span) (found : List Diagnostic) : Prop :=
  Fault.LeftOpen fault ∧ ∃ before, found = before ++ [fault.diagnostic span] ∧
    Diagnostic.Ordered before ∧ ∃ d ∈ before, span.start < d.span.start

theorem OutOfOrder.not_ordered {fault : Fault} {span : Span} {found : List Diagnostic}
    (h : OutOfOrder fault span found) : ¬ Diagnostic.Ordered found := by
  obtain ⟨-, before, rfl, -, d, hd, hlt⟩ := h
  intro hordered
  exact Nat.not_lt.mpr ((List.pairwise_append.mp hordered).2.2 d hd _ (List.mem_singleton.mpr rfl))
    hlt

theorem Lexer.FailsInOrder.reports {s : State} {fault : Fault} {span : Span}
    (h : FailsInOrder s fault span) :
    Diagnostic.Ordered s.diagnostics.reverse ∨ OutOfOrder fault span s.diagnostics.reverse := by
  obtain ⟨before, offset, hds, hupto, hfault⟩ := h
  rw [hds, List.reverse_cons]
  by_cases hbehind : ∀ d ∈ before, d.span.start ≤ span.start
  · left
    refine List.pairwise_append.mpr
      ⟨hupto.ordered_reverse, List.pairwise_singleton _ _, fun d hd e he => ?_⟩
    obtain rfl := List.mem_singleton.mp he
    exact hbehind d (List.mem_reverse.mp hd)
  · right
    obtain ⟨d, hd, hlt⟩ : ∃ d ∈ before, span.start < d.span.start := by simpa using hbehind
    have hopen := hfault.resolve_right fun hle => Nat.not_lt.mpr (hle d hd) hlt
    exact ⟨hopen, _, rfl, hupto.ordered_reverse, d, List.mem_reverse.mpr hd, hlt⟩

/-- **The diagnostics of a text are in order**, unless a literal in it has no end. -/
theorem lex_reports (text : String) : Diagnostic.Ordered (lex text).2 ∨
    ∃ fault span, (lex text).1 = .error ⟨fault.message, some span⟩ ∧
      OutOfOrder fault span (lex text).2 := by
  rcases lex_cases text with ⟨s, hs, hlex⟩ | ⟨s, fault, span, hs, hlex⟩
  · rw [hlex]
    exact .inl hs.upto.ordered_reverse
  · rw [hlex]
    exact hs.reports.imp_right fun hout => ⟨fault, span, rfl, hout⟩

/-- **Every token covers something**, except perhaps the options of a regular expression. -/
theorem lex_wide {text : String} {lexed : Lexed} (h : (lex text).1 = .ok lexed) :
    ∀ t ∈ lexed.tokens, t.Wide := by
  rcases lex_cases text with ⟨s, hs, hlex⟩ | ⟨s, fault, span, -, hlex⟩
  · rw [hlex] at h
    cases h
    exact fun t ht => hs.wide t (List.mem_reverse.mp ht)
  · rw [hlex] at h
    cases h

end Token

end RubySyntax
