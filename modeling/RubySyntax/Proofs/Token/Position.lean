/-
  RubySyntax.Proofs.Token.Position
  ────────────────────────────────
  **EACH POSITION OF A SCAN IS WHERE THE TEXT SAYS.**

  A span remembers the line and the column of its first byte.  It is coherent with a text if its
  ends lie in the text, in order and on characters, and if that line and column are those of the
  first byte.  The scan makes spans from offsets alone, by the table of lines, so it is enough
  that the offsets are those of stretches of the text.

      text = before ++ stretch ++ after,   start = bytes of before,   stop = start + bytes of stretch

  Main results:
    • `Positioned.step` — the spans of a scan cover stretches of the text,
    • `lex_isCut`, `lex_error_isCut`, `lex_report_isCut` — so do those of tokens and comments, of
      a failure and of reports,
    • `Span.IsCut.atEnd_coheres_iff` — the end of a span, as it is computed on the line of its
      beginning, is coherent unless the span covers a newline.
-/
import RubySyntax.Proofs.Token.Reach
import RubySyntax.Proofs.Text.Lines

namespace RubySyntax

open RubySyntax.Text

/-! ## §1. Coherent spans. -/

namespace Text

/-- A character of a text begins at an offset, or the text ends there. -/
def Boundary (text : List Char) (offset : Nat) : Prop :=
  ∃ before after, text = before ++ after ∧ byteLength before = offset

end Text

namespace Span

/-- A span is coherent with a text: its ends are in order, in the text and on characters, and its
line and column are those of its first byte. -/
structure Coheres (s : Span) (text : List Char) : Prop where
  le : s.start ≤ s.stop
  stop_le : s.stop ≤ byteLength text
  begins : Boundary text s.start
  ends : Boundary text s.stop
  position : (LineTable.ofChars text).lineCol s.start = (s.line, s.column)

/-- A span covers a stretch of a text, and has its line and column. -/
structure IsCut (s : Span) (text stretch : List Char) : Prop where
  cut : ∃ before after, text = before ++ (stretch ++ after) ∧ s.start = byteLength before ∧
    s.stop = byteLength before + byteLength stretch
  position : (LineTable.ofChars text).lineCol s.start = (s.line, s.column)

variable {s : Span} {text stretch : List Char}

theorem IsCut.coheres (h : s.IsCut text stretch) : s.Coheres text := by
  obtain ⟨⟨before, after, rfl, hstart, hstop⟩, hposition⟩ := h
  refine ⟨by omega, ?_, ⟨before, _, rfl, hstart.symm⟩,
    ⟨before ++ stretch, after, by rw [List.append_assoc], ?_⟩, hposition⟩
  · rw [byteLength_append, byteLength_append]
    omega
  · rw [byteLength_append, hstop]

end Span

/-! ## §2. States. -/

namespace Token.Lexer

/-- What has been read of a text is the beginning of it, and all spans that the scan has recorded
cover stretches of it. -/
structure Positioned (text read : List Char) (s : State) : Prop where
  text_eq : text = read ++ s.rest
  pos_eq : s.pos = byteLength read
  lines : s.lines = LineTable.ofChars text
  tokens : ∀ t ∈ s.tokens, ∃ stretch, t.span.IsCut text stretch
  comments : ∀ c ∈ s.comments, ∃ stretch, c.span.IsCut text stretch
  diagnostics : ∀ d ∈ s.diagnostics, ∃ stretch, d.span.IsCut text stretch
  /-- A token begins at a character that has been read. -/
  begun : ∀ t ∈ s.tokens, Boundary read t.span.start
  /-- So does a literal that is open. -/
  opened : ∀ l, Mode.literal l ∈ s.modes → Boundary read l.opened

variable {text read : List Char} {s s' : State} {n : Nat}

theorem positioned_start (text : List Char) : Positioned text [] (State.start text) where
  text_eq := rfl
  pos_eq := rfl
  lines := rfl
  tokens := nofun
  comments := nofun
  diagnostics := nofun
  begun := nofun
  opened := nofun

/-- A place between two offsets of a text covers what lies between them. -/
theorem isCut_spanOf {before stretch after : List Char}
    (hlines : s.lines = LineTable.ofChars text) (h : text = before ++ (stretch ++ after)) :
    (s.spanOf (byteLength before) (byteLength before + byteLength stretch)).IsCut text stretch :=
  ⟨⟨before, after, h, rfl, rfl⟩, by rw [← hlines]; rfl⟩

/-- The place of the next characters covers them. -/
theorem Positioned.isCut_next (h : Positioned text read s) (hn : n ≤ s.rest.length) :
    (s.spanOfNext n).IsCut text (s.rest.take n) := by
  have hcut : text = read ++ (s.rest.take n ++ s.rest.drop n) := by
    rw [List.take_append_drop, h.text_eq]
  have hspan : s.spanOfNext n = s.spanOf (byteLength read)
      (byteLength read + byteLength (s.rest.take n)) := by
    rw [State.spanOfNext, bytesOfNext_eq hn, h.pos_eq]
  rw [hspan]
  exact isCut_spanOf h.lines hcut

theorem boundary_append {read : List Char} {offset : Nat} (h : Boundary read offset)
    (more : List Char) : Boundary (read ++ more) offset := by
  obtain ⟨before, after, rfl, hoffset⟩ := h
  exact ⟨before, after ++ more, by rw [List.append_assoc], hoffset⟩

theorem Positioned.boundary_pos (h : Positioned text read s) : Boundary read s.pos :=
  ⟨read, [], (List.append_nil read).symm, h.pos_eq.symm⟩

/-- Past some characters that are there. -/
theorem Positioned.advance (h : Positioned text read s) (hn : n ≤ s.rest.length) :
    Positioned text (read ++ s.rest.take n) (s.advance n) where
  text_eq := by
    show text = read ++ s.rest.take n ++ s.rest.drop n
    rw [List.append_assoc, List.take_append_drop, h.text_eq]
  pos_eq := by
    show s.pos + s.bytesOfNext n = _
    rw [byteLength_append, h.pos_eq, bytesOfNext_eq hn]
  lines := h.lines
  tokens := h.tokens
  comments := h.comments
  diagnostics := h.diagnostics
  begun t ht := boundary_append (h.begun t ht) _
  opened l hl := boundary_append (h.opened l hl) _

/-- A token of the next characters. -/
theorem Positioned.emit (h : Positioned text read s) (hn : n ≤ s.rest.length) (kind : Kind)
    (value : List Char) :
    Positioned text (read ++ s.rest.take n) (s.emit kind n value) :=
  { h.advance hn with
    tokens := List.forall_mem_cons.mpr ⟨⟨_, h.isCut_next hn⟩, h.tokens⟩
    begun := List.forall_mem_cons.mpr
      ⟨boundary_append h.boundary_pos _, (h.advance hn).begun⟩ }

/-- A report about the next characters. -/
theorem Positioned.report (h : Positioned text read s) (hn : n ≤ s.rest.length) (fault : Fault) :
    Positioned text read (s.report fault n) :=
  { h with
    diagnostics := List.forall_mem_cons.mpr ⟨⟨_, h.isCut_next hn⟩, h.diagnostics⟩ }

/-- A change of context leaves the records, and opens only what begins here. -/
theorem Positioned.settle (h : Positioned text read s) (hrecords : s'.records = s.records)
    (hlines : s'.lines = s.lines)
    (hmodes : ∀ l, Mode.literal l ∈ s'.modes → Mode.literal l ∈ s.modes ∨ Boundary read l.opened) :
    Positioned text read s' := by
  have hrest : s'.rest = s.rest := congrArg Records.rest hrecords
  have hpos : s'.pos = s.pos := congrArg Records.pos hrecords
  have htokens : s'.tokens = s.tokens := congrArg Records.tokens hrecords
  have hcomments : s'.comments = s.comments := congrArg Records.comments hrecords
  have hdiagnostics : s'.diagnostics = s.diagnostics := congrArg Records.diagnostics hrecords
  exact {
    text_eq := hrest ▸ h.text_eq
    pos_eq := hpos ▸ h.pos_eq
    lines := hlines ▸ h.lines
    tokens := htokens ▸ h.tokens
    comments := hcomments ▸ h.comments
    diagnostics := hdiagnostics ▸ h.diagnostics
    begun := htokens ▸ h.begun
    opened := fun l hl => (hmodes l hl).elim (h.opened l) id }

/-! ## §3. Steps in code. -/

/-- A token in code. -/
theorem Positioned.emits (h : Positioned text read s) (hs : Emits s s') :
    ∃ read', Positioned text read' s' := by
  obtain @⟨t, hw, kind, n, value, hn, hrecords, hlines, hshift⟩ := hs
  -- a token opens one literal at most, at the position read up to
  have hmodes : ∀ l, Mode.literal l ∈ s'.modes →
      Mode.literal l ∈ s.modes ∨ Boundary read l.opened := by
    intro l hl
    cases hshift with
    | keep _ modes _ | newline _ modes _ | openBracket _ _ _ modes _ | closeBracket _ modes _ =>
        exact .inl (modes ▸ hl)
    | openLiteral l' hopened _ modes _ =>
        rw [modes, List.mem_cons] at hl
        rcases hl with hl | hl
        · cases hl
          exact .inr (hopened ▸ h.boundary_pos)
        · exact .inl hl
    | resume _ modes _ => exact .inl (List.mem_of_mem_tail (modes ▸ hl))
  have hmore : ∀ l, Mode.literal l ∈ s'.modes → Mode.literal l ∈ s.modes ∨
      Boundary (read ++ s.rest.take n) l.opened :=
    fun l hl => (hmodes l hl).imp_right fun h => boundary_append h _
  cases hw with
  | silent =>
      have hemit := h.emit hn.le kind value
      exact ⟨_, hemit.settle hrecords hlines hmore⟩
  | @warning fault _ m hm =>
      have hemit := (h.report hm fault).emit hn.le kind value
      exact ⟨_, hemit.settle hrecords hlines hmore⟩

/-- **The spans of a scan cover stretches of the text**, after a step in code. -/
theorem Positioned.stepCode (h : Positioned text read s) (hs : s.stepCode = .next s') :
    ∃ read', Positioned text read' s' := by
  cases turn_stepCode hs with
  | token hemits => exact h.emits hemits
  | @character n hn d value _ _ hspan =>
      obtain ⟨source, after, hrest, hspan⟩ := hspan
      -- the mark is one byte, and the report begins behind it
      have hcut : text = (read ++ ['?']) ++ (source ++ after) := by
        rw [h.text_eq, hrest, List.append_assoc]
        rfl
      have hd : d.span.IsCut text source := by
        have := isCut_spanOf h.lines hcut
        rwa [byteLength_append, show byteLength ['?'] = 1 from rfl, ← h.pos_eq, ← hspan] at this
      have hreported : Positioned text read { s with diagnostics := d :: s.diagnostics } :=
        { h with diagnostics := List.forall_mem_cons.mpr ⟨⟨_, hd⟩, h.diagnostics⟩ }
      have hemit := hreported.emit hn.le .tCHARACTER value
      exact ⟨_, hemit.settle rfl rfl fun _ => .inl⟩
  | lineComment =>
      have hn := length_takeWhile_le (· != '\n') s.rest
      exact ⟨_, { h.advance hn with
        comments := List.forall_mem_cons.mpr ⟨⟨_, h.isCut_next hn⟩, h.comments⟩ }⟩
  | document _ _ hn =>
      have hn := documentLength?_le hn
      exact ⟨_, { h.advance hn with
        comments := List.forall_mem_cons.mpr ⟨⟨_, h.isCut_next hn⟩, h.comments⟩ }⟩
  | blank hn _ => exact ⟨_, (h.advance hn.le).settle rfl rfl fun _ => .inl⟩
  | reject hn _ => exact ⟨_, (h.report hn.le _).advance hn.le⟩

/-! ## §4. Steps in literals. -/

/-- The reports about the pieces of a content are about stretches of it. -/
theorem isCut_reportPieces (hlines : s.lines = LineTable.ofChars text) :
    ∀ (pieces : List Piece) (ds : List Diagnostic) {before after : List Char},
      text = before ++ (sourceOf pieces ++ after) →
      (∀ d ∈ ds, ∃ stretch, d.span.IsCut text stretch) →
      ∀ d ∈ s.reportPieces (byteLength before) pieces ds, ∃ stretch, d.span.IsCut text stretch
  | [], _, _, _, _, hds => hds
  | piece :: pieces, ds, before, after, htext, hds => by
      have hcut : text = before ++ (piece.source ++ (sourceOf pieces ++ after)) := by
        rw [htext, sourceOf, List.flatMap_cons, List.append_assoc]
        rfl
      have hmore : text = (before ++ piece.source) ++ (sourceOf pieces ++ after) := by
        rw [hcut, List.append_assoc]
      have hreports := fun ds => isCut_reportPieces hlines pieces ds hmore
      rw [byteLength_append] at hreports
      refine hreports _ ?_
      split
      · exact List.forall_mem_cons.mpr ⟨⟨_, isCut_spanOf hlines hcut⟩, hds⟩
      · exact hds

/-- The reports about a content. -/
theorem Positioned.reportContent (h : Positioned text read s) (l : Literal) :
    Positioned text read { s with
      diagnostics := s.reportPieces s.pos (readContent l s.rest).1 s.diagnostics } := by
  obtain ⟨after, hafter, -⟩ := readContent_append l s.rest
  have htext : text = read ++ (sourceOf (readContent l s.rest).1 ++ after) := by
    rw [← hafter, h.text_eq]
  refine { h with diagnostics := ?_ }
  show ∀ d ∈ s.reportPieces s.pos _ _, _
  rw [h.pos_eq]
  exact isCut_reportPieces h.lines _ _ htext h.diagnostics

/-- The content of a literal. -/
theorem Positioned.contentToken (h : Positioned text read s) (l : Literal) :
    ∃ read', Positioned text read' (s.contentToken (readContent l s.rest).1) := by
  have hreported := h.reportContent l
  have hn := (readContent_isPrefix l s.rest).length_le
  simp only [State.contentToken]
  split
  · exact ⟨_, hreported⟩
  · exact ⟨_, hreported.emit hn _ _⟩

/-- The quote that closes a literal. -/
theorem Positioned.closeQuote (h : Positioned text read s) (hone : 1 ≤ s.rest.length) :
    Positioned text (read ++ s.rest.take 1)
      ({ s with modes := s.modes.tail }.emitThen .tSTRING_END 1 .operator) := by
  have hpopped : Positioned text read { s with modes := s.modes.tail } :=
    h.settle rfl rfl fun l hl => .inl (List.mem_of_mem_tail hl)
  exact (hpopped.emit hone .tSTRING_END (s.rest.take 1)).settle rfl rfl fun _ => .inl

/-- What ends the content of a literal. -/
theorem Positioned.closeLiteral (h : Positioned text read s) (l : Literal) {quote : Char}
    {more : List Char} (hrest : s.rest = quote :: more) :
    ∃ read', Positioned text read' (s.closeLiteral l) := by
  have hone : 1 ≤ s.rest.length := by rw [hrest, List.length_cons]; omega
  have hclosed := h.closeQuote hone
  simp only [State.closeLiteral]
  split
  · exact ⟨_, hclosed.emit (length_takeWhile_le _ _) .tREGEXP_OPT _⟩
  · exact ⟨_, hclosed⟩

theorem Positioned.openInterpolation (h : Positioned text read s) {more : List Char}
    (hrest : s.rest = '#' :: '\x7b' :: more) : ∃ read', Positioned text read' s.openInterpolation := by
  have htwo : 2 ≤ s.rest.length := by simp [hrest]
  have hemit := h.emit htwo .tSTRING_DBEG (s.rest.take 2)
  refine ⟨_, hemit.settle rfl rfl fun l hl => .inl ?_⟩
  rcases List.mem_cons.mp hl with hl | hl
  · cases hl
  · exact hl

/-! ## §5. Steps. -/

/-- What has been recorded when a step has ended, and where the scan has failed. -/
def Step.Positioned (text : List Char) : Step → Prop
  | .next s | .finish s => ∃ read, Lexer.Positioned text read s
  | .fail s _ span => (∀ d ∈ s.diagnostics, ∃ stretch, d.span.IsCut text stretch) ∧
      ∃ stretch, span.IsCut text stretch

/-- The failure is reported where it is. -/
theorem Positioned.failAt (h : Positioned text read s) {stretch : List Char} {span : Span}
    (hspan : span.IsCut text stretch) (fault : Fault) : (s.failAt fault span).Positioned text :=
  ⟨List.forall_mem_cons.mpr ⟨⟨_, hspan⟩, h.diagnostics⟩, _, hspan⟩

/-- The place from a character that has been read to where some more are read. -/
theorem Positioned.isCut_since (h : Positioned text read s) {offset : Nat}
    (hoffset : Boundary read offset) {more after : List Char} (hmore : s.rest = more ++ after) :
    ∃ stretch, (s.spanOf offset (s.pos + byteLength more)).IsCut text stretch := by
  obtain ⟨before, since, rfl, rfl⟩ := hoffset
  have hcut : text = before ++ ((since ++ more) ++ after) := by
    rw [h.text_eq, hmore, List.append_assoc, List.append_assoc]
  have hstop : s.pos + byteLength more = byteLength before + byteLength (since ++ more) := by
    rw [h.pos_eq, byteLength_append, byteLength_append, Nat.add_assoc]
  exact ⟨_, hstop ▸ isCut_spanOf h.lines hcut⟩

/-- The place from a character that has been read to here. -/
theorem Positioned.isCut_pos (h : Positioned text read s) {offset : Nat}
    (hoffset : Boundary read offset) : ∃ stretch, (s.spanOf offset s.pos).IsCut text stretch :=
  h.isCut_since hoffset (List.nil_append s.rest).symm

theorem Positioned.stepLiteral (h : Positioned text read s) {l : Literal}
    (hs : s.stepLiteral l = .next s') : ∃ read', Positioned text read' s' := by
  obtain ⟨read', hcontent⟩ := h.contentToken l
  cases concludes_of_stepLiteral hs with
  | close hrest => exact hcontent.closeLiteral l hrest
  | interpolation hrest => exact hcontent.openInterpolation hrest

/-- A step that fails does so at the literal or the document comment that has no end. -/
theorem Positioned.fails_of_step (h : Positioned text read s) {fault : Fault} {span : Span}
    (hs : s.step = .fail s' fault span) : (Step.fail s' fault span).Positioned text := by
  cases Lexer.fails_of_step hs with
  | literal hl hfailed =>
      obtain ⟨_, hspan⟩ := h.isCut_since (h.opened _ hl) (List.append_nil s.rest).symm
      exact hfailed ▸ (h.reportContent _).failAt hspan _
  | document hfailed => exact hfailed ▸ h.failAt (h.isCut_next (Nat.le_refl _)) _

/-- **The spans of a scan cover stretches of the text**, after any step. -/
theorem Positioned.step (h : Positioned text read s) : s.step.Positioned text := by
  cases hs : s.step with
  | finish s' =>
      obtain ⟨rfl, -⟩ := atEnd_of_step hs
      exact ⟨read, h⟩
  | next s' =>
      unfold State.step at hs
      split at hs
      next => exact h.stepLiteral hs
      next => exact h.stepCode hs
  | fail s' fault span => exact h.fails_of_step hs

/-- The spans of a scan cover stretches of the text, wherever it comes to. -/
theorem Reachable.positioned {text : List Char} (h : Reachable text s) :
    ∃ read, Positioned text read s := by
  induction h with
  | start => exact ⟨[], positioned_start text⟩
  | step _ hs ih =>
      obtain ⟨read, hread⟩ := ih
      have hnext := hread.step
      rwa [hs] at hnext

/-! ## §6. The whole text. -/

/-- The last token begins at a character that has been read, and so does what comes next. -/
theorem Positioned.deep (h : Positioned text read s) :
    ∃ stretch, s.deepSpan.IsCut text stretch := by
  refine h.isCut_pos ?_
  cases htokens : s.tokens with
  | nil => exact h.boundary_pos
  | cons t _ => exact h.begun t (htokens ▸ List.mem_cons_self)

/-- **At the end of the scan.** -/
theorem Positioned.run : ∀ {s : State} {read : List Char}, Positioned text read s →
    s.run.Positioned text
  | s, read, h => by
      have hstep := h.step
      rw [State.run]
      split
      next s₁ hs =>
        rw [hs] at hstep
        obtain ⟨read₁, h₁⟩ := hstep
        split
        · obtain ⟨_, hdeep⟩ := h₁.deep
          exact h₁.failAt hdeep _
        · split
          · exact h₁.run
          · exact ⟨read₁, h₁⟩
      next => exact hstep
termination_by s => s.rest.length

theorem Positioned.conclude (h : Positioned text read s) : s.conclude.Positioned text := by
  unfold State.conclude
  split
  · exact ⟨read, h⟩
  · have hopened : Boundary read s.openedAt := by
      unfold State.openedAt
      cases hfound : s.modes.findSome? _ with
      | none => exact h.boundary_pos
      | some offset =>
          obtain ⟨mode, hmode, hoffset⟩ := List.exists_of_findSome?_eq_some hfound
          split at hoffset
          · cases hoffset
            exact h.opened _ hmode
          · cases hoffset
    obtain ⟨_, hspan⟩ := h.isCut_pos hopened
    exact h.failAt hspan _

end Lexer

open Lexer

/-- What has been recorded when a text has been scanned to the end. -/
theorem lex_cases_positioned (text : String) :
    (∃ s read, Positioned text.toList read s ∧ lex text =
      (.ok ⟨s.tokens.reverse, s.comments.reverse, s.pos⟩, s.diagnostics.reverse)) ∨
    ∃ s fault span, (Step.fail s fault span).Positioned text.toList ∧
      lex text = (.error ⟨fault.message, some span⟩, s.diagnostics.reverse) := by
  have hrun := (positioned_start text.toList).run
  unfold lex
  generalize (State.start text.toList).run = ended at hrun
  cases ended with
  | next s =>
      obtain ⟨read, hs⟩ := hrun
      exact .inl ⟨s, read, hs, rfl⟩
  | fail s fault span => exact .inr ⟨s, fault, span, hrun, rfl⟩
  | finish s =>
      obtain ⟨read, hs⟩ := hrun
      have hend := hs.conclude
      simp only
      generalize s.conclude = concluded at hend
      cases concluded with
      | next s | finish s =>
          obtain ⟨read, hs⟩ := hend
          exact .inl ⟨s, read, hs, rfl⟩
      | fail s fault span => exact .inr ⟨s, fault, span, hend, rfl⟩

/-- **The spans of a text that has been split into tokens cover stretches of it.** -/
theorem lex_isCut {text : String} {lexed : Lexed} (h : (lex text).1 = .ok lexed) :
    (∀ t ∈ lexed.tokens, ∃ stretch, t.span.IsCut text.toList stretch) ∧
      ∀ c ∈ lexed.comments, ∃ stretch, c.span.IsCut text.toList stretch := by
  rcases lex_cases_positioned text with ⟨s, read, hs, hlex⟩ | ⟨s, fault, span, -, hlex⟩
  · rw [hlex] at h
    cases h
    exact ⟨fun t ht => hs.tokens t (List.mem_reverse.mp ht),
      fun c hc => hs.comments c (List.mem_reverse.mp hc)⟩
  · rw [hlex] at h
    cases h

/-- **So does the place where a text cannot be split into tokens.** -/
theorem lex_error_isCut {text : String} {abort : Abort} (h : (lex text).1 = .error abort) :
    ∃ span stretch, abort.span? = some span ∧ span.IsCut text.toList stretch := by
  rcases lex_cases_positioned text with ⟨s, read, -, hlex⟩ | ⟨s, fault, span, hs, hlex⟩
  · rw [hlex] at h
    cases h
  · rw [hlex] at h
    cases h
    obtain ⟨stretch, hspan⟩ := hs.2
    exact ⟨span, stretch, rfl, hspan⟩

/-- **And so does what is reported about a text**, whether it can be split into tokens or not. -/
theorem lex_report_isCut (text : String) :
    ∀ d ∈ (lex text).2, ∃ stretch, d.span.IsCut text.toList stretch := by
  intro d hd
  rcases lex_cases_positioned text with ⟨s, read, hs, hlex⟩ | ⟨s, fault, span, hs, hlex⟩
  · rw [hlex] at hd
    exact hs.diagnostics d (List.mem_reverse.mp hd)
  · rw [hlex] at hd
    exact hs.1 d (List.mem_reverse.mp hd)

end Token

/-! ## §7. Ends. -/

namespace Text

theorem lastLine_append {before stretch : List Char} (h : '\n' ∉ stretch) :
    lastLine (before ++ stretch) = lastLine before ++ stretch := by
  rw [lastLine, List.reverse_append, List.takeWhile_append_of_pos, List.reverse_append,
    List.reverse_reverse, lastLine]
  intro c hc
  rw [bne_iff_ne]
  rintro rfl
  exact h (List.mem_reverse.mp hc)

end Text

namespace Span

open Text

variable {s : Span} {text stretch : List Char}

/-- What a span covers can be cut out of the text. -/
theorem IsCut.slice?_eq (h : s.IsCut text stretch) :
    slice? text s.start s.stop = some stretch := by
  obtain ⟨⟨before, after, rfl, hstart, hstop⟩, -⟩ := h
  rw [hstart, hstop, ← List.append_assoc, slice?_append]

theorem IsCut.slice_eq (h : s.IsCut text stretch) : slice text s.start s.stop = stretch := by
  rw [slice, h.slice?_eq, Option.getD_some]

/-- **The end of a span, as it is computed on the line of its beginning, is coherent unless the
span covers a newline.** -/
theorem IsCut.atEnd_coheres_iff (h : s.IsCut text stretch) :
    s.atEnd.Coheres text ↔ '\n' ∉ stretch := by
  have hcoheres := h.coheres
  obtain ⟨⟨before, after, rfl, hstart, hstop⟩, hposition⟩ := h
  rw [hstart, LineTable.lineCol_eq, Prod.mk.injEq] at hposition
  obtain ⟨hline, hcolumn⟩ := hposition
  -- what the table says about the end
  have hend : (LineTable.ofChars (before ++ (stretch ++ after))).lineCol s.stop
      = ((before ++ stretch).count '\n' + 1, byteLength (lastLine (before ++ stretch))) := by
    rw [hstop, ← List.append_assoc, ← byteLength_append, LineTable.lineCol_eq]
  constructor
  · intro h
    have hline' : (before ++ stretch).count '\n' + 1 = s.line :=
      congrArg Prod.fst (hend.symm.trans h.position)
    rw [List.count_append] at hline'
    exact List.count_eq_zero.mp (by omega)
  · intro h
    refine ⟨Nat.le_refl _, hcoheres.stop_le, hcoheres.ends, hcoheres.ends, ?_⟩
    refine hend.trans (Prod.ext ?_ ?_)
    · rw [List.count_append, List.count_eq_zero.mpr h]
      exact hline
    · show byteLength (lastLine (before ++ stretch)) = s.column + (s.stop - s.start)
      rw [lastLine_append h, byteLength_append, ← hcolumn]
      omega

end Span

end RubySyntax
