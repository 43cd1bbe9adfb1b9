/-
  RubySyntax.Proofs.Token.Step
  ────────────────────────────
  **EVERY STEP OF THE SCAN CONSUMES SOMETHING.**

  A step that begins with a character left to read leaves fewer characters, whatever piece of
  code or literal it reads.  In code it is made of moves; in a literal it reads the content,
  which may be empty, and what ends it, which is not.

  Main results:
    • `concludes_of_stepLiteral` — what a step in a literal does,
    • `fails_of_step` — where a step fails,
    • `Scanned.step` — a step keeps the ledger and consumes something.
-/
import RubySyntax.Proofs.Token.Content
import RubySyntax.Proofs.Token.Scan

namespace RubySyntax.Token.Lexer

open RubySyntax.Text

variable {text : List Char} {most k : Nat} {s : State}

/-! ## §1. Literals. -/

theorem scanned_reportPieces (pieces : List Piece) :
    ∀ (t : State) (offset : Nat) (ds : List Diagnostic),
      Scanned text most { s with diagnostics := ds } →
        Scanned text most { s with diagnostics := t.reportPieces offset pieces ds } := by
  induction pieces with
  | nil => exact fun t offset ds hds => hds
  | cons piece pieces ih =>
      intro t offset ds hds
      apply ih t _ _
      split
      · exact hds.reported _
      · exact hds

theorem Scanned.contentToken (h : Scanned text k s) {pieces : List Piece}
    (hk : k ≤ most + (sourceOf pieces).length) (hsource : sourceOf pieces <+: s.rest) :
    Scanned text most (s.contentToken pieces) := by
  have hreported := scanned_reportPieces pieces s s.pos s.diagnostics h
  simp only [State.contentToken]
  split
  next hempty =>
    -- no token without content, and nothing was consumed
    rw [List.isEmpty_iff] at hempty
    rw [hempty] at hk
    exact hreported.mono hk
  next => exact hreported.emit hk hsource.length_le _ _

/-- The content of a literal that comes next leaves what comes after it. -/
theorem rest_contentToken {pieces : List Piece} {after : List Char}
    (h : s.rest = sourceOf pieces ++ after) : (s.contentToken pieces).rest = after := by
  simp only [State.contentToken]
  split
  next hempty =>
    rw [List.isEmpty_iff] at hempty
    rw [hempty, List.nil_append] at h
    exact h
  next =>
    show s.rest.drop (sourceOf pieces).length = after
    rw [h, List.drop_left]

/-- What ends the content of a literal, where it stands. -/
inductive Concludes (l : Literal) (s : State) : State → Prop where
  | close {more : List Char} (hrest : s.rest = l.close :: more) : Concludes l s (s.closeLiteral l)
  | interpolation {more : List Char} (hrest : s.rest = '#' :: '\x7b' :: more) :
      Concludes l s s.openInterpolation

/-- **A step in a literal** reads the content, and what ends it comes next. -/
theorem concludes_of_stepLiteral {l : Literal} {s' : State} (hs : s.stepLiteral l = .next s') :
    Concludes l (s.contentToken (readContent l s.rest).1) s' := by
  obtain ⟨after, hafter, hbefore⟩ := readContent_append l s.rest
  have hrest := rest_contentToken hafter
  simp only [State.stepLiteral] at hs
  split at hs
  next hending =>
    cases hs
    rw [hending] at hbefore
    obtain ⟨more, rfl⟩ := List.head?_eq_some_iff.mp hbefore
    exact .close hrest
  next hending =>
    cases hs
    rw [hending] at hbefore
    obtain ⟨more, rfl⟩ := hbefore
    exact .interpolation hrest
  next => cases hs

theorem Scanned.closeLiteral (h : Scanned text k s) (hk : k ≤ most + 1) (hone : 1 ≤ s.rest.length)
    (l : Literal) : Scanned text most (s.closeLiteral l) := by
  have hclosed : Scanned text most
      ({ s with modes := s.modes.tail }.emitThen .tSTRING_END 1 .operator) := h.emit hk hone _ _
  simp only [State.closeLiteral]
  split
  · exact hclosed.emitSpelt (Nat.le_add_right _ _) (length_takeWhile_le _ _) _
  · exact hclosed

theorem Scanned.openInterpolation (h : Scanned text k s) (hk : k ≤ most + 2)
    (htwo : 2 ≤ s.rest.length) : Scanned text most s.openInterpolation :=
  h.emit hk htwo _ _

theorem Scanned.stepLiteral (h : Scanned text (most + 1) s) (l : Literal) {s' : State}
    (hs : s.stepLiteral l = .next s') : Scanned text most s' := by
  have hcontent : Scanned text (most + 1) (s.contentToken (readContent l s.rest).1) :=
    h.contentToken (Nat.le_add_right _ _) (readContent_isPrefix l s.rest)
  -- whatever ends the content is consumed too, and it is there even if the content is empty
  cases concludes_of_stepLiteral hs with
  | close hrest => exact hcontent.closeLiteral (Nat.le_refl _) (by simp [hrest]) l
  | interpolation hrest => exact hcontent.openInterpolation (Nat.le_succ _) (by simp [hrest])

/-! ## §2. Steps. -/

/-- **A step keeps the ledger and consumes something.** -/
theorem Scanned.step (h : Scanned text (most + 1) s) {s' : State} (hs : s.step = .next s') :
    Scanned text most s' := by
  unfold State.step at hs
  split at hs
  · exact h.stepLiteral _ hs
  · exact (scanned_moves text most).stepCode h hs

/-- Nothing is left to read, or the rest begins with the line that ends the program. -/
def AtEnd (s : State) : Prop :=
  s.rest = [] ∨ (s.atLineStart = true ∧ s.atEndMarker = true)

/-- Where the text is at its end there is no further step. -/
theorem rest_ne_nil_of_step {s' : State} (hs : s.step = .next s') : s.rest ≠ [] := by
  intro hrest
  unfold State.step at hs
  split at hs
  · -- a literal that is still open cannot go on
    simp only [State.stepLiteral, hrest] at hs
    rw [readContent] at hs
    cases hs
  · unfold State.stepCode at hs
    rw [hrest] at hs
    split at hs
    · cases hs
    split at hs
    next hdocument =>
      simp [State.atDocument, State.sees, hrest] at hdocument
    next => cases hs

/-- The scan finishes at the end only, and where it is. -/
theorem atEnd_of_step {s' : State} (hs : s.step = .finish s') : s' = s ∧ AtEnd s := by
  unfold State.step at hs
  split at hs
  · simp only [State.stepLiteral] at hs
    split at hs <;> cases hs
  · unfold State.stepCode at hs
    split at hs
    next hmarker =>
      cases hs
      exact ⟨rfl, .inr (by simpa using hmarker)⟩
    split at hs
    · split at hs <;> cases hs
    split at hs
    next hrest =>
      cases hs
      exact ⟨rfl, .inl hrest⟩
    next => split at hs <;> cases hs

/-- How a step fails. -/
inductive Fails (s : State) (failed : Step) : Prop where
  /-- A literal has no end; what is wrong with its content was reported before. -/
  | literal {l : Literal} (hl : Mode.literal l ∈ s.modes)
      (hfailed : failed =
        { s with diagnostics := s.reportPieces s.pos (readContent l s.rest).1 s.diagnostics }.failAt
          (State.unterminated l) (s.spanOf l.opened (s.pos + byteLength s.rest)))
  /-- A document comment has no end. -/
  | document (hfailed : failed = s.failAt .unterminatedDocument (s.spanOfNext s.rest.length))

/-- **The scan fails at a literal or a document comment that has no end**, and nowhere else. -/
theorem fails_of_step {s' : State} {fault : Fault} {span : Span}
    (hs : s.step = .fail s' fault span) : Fails s (.fail s' fault span) := by
  unfold State.step at hs
  split at hs
  next l _ hmodes =>
    simp only [State.stepLiteral] at hs
    split at hs
    · cases hs
    · cases hs
    · exact .literal (hmodes ▸ List.mem_cons_self) hs.symm
  next =>
    -- in code only an unclosed document ends the run in a failure
    unfold State.stepCode at hs
    split at hs
    · cases hs
    split at hs
    · split at hs
      · cases hs
      · exact .document hs.symm
    split at hs
    · cases hs
    · split at hs <;> cases hs

end RubySyntax.Token.Lexer
