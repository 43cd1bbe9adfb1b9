/-
  RubySyntax.Proofs.Token.Marker
  ──────────────────────────────
  **WHERE A MARKER IS PASSED.**

  A line `__END__` ends the program where the scan comes to it between two pieces of code.  A line
  like it that the scan has passed was inside something: in the content of a literal, whose
  closing quote is a later token, or in a document comment.  All else that the scan takes is on one
  line, so no line begins inside it.

      a marker that was passed   ⇒   a token begins there or later, or a document is around it

  Main results:
    • `atEndMarker_iff` — the line that ends the scan is the one that a list of lines ends before,
    • `Marked.step` — each step keeps what is known about markers, and about lines,
    • `Reachable.marked` — and so it is known in all states of a scan.
-/
import Mathlib.Data.List.DropRight
import RubySyntax.Proofs.Text.Lines
import RubySyntax.Proofs.Token.Reach

namespace RubySyntax.Token.Lexer

open RubySyntax.Text

/-! ## §1. The marker. -/

/-- The first line of a text is the one that ends a program. -/
def BeginsMarker (cs : List Char) : Prop :=
  (splitLines cs).head?.map chompChars = some "__END__".toList

theorem BeginsMarker.exists_eq_append {cs : List Char} (h : BeginsMarker cs) :
    ∃ after, cs = "__END__".toList ++ after := by
  obtain ⟨line, hline, hchomp⟩ := Option.map_eq_some_iff.mp h
  obtain ⟨lines, hlines⟩ := List.head?_eq_some_iff.mp hline
  have hcs := flatten_splitLines cs
  rw [hlines, List.flatten_cons] at hcs
  have hends := eq_chompChars_append line
  rw [hchomp] at hends
  rcases hends with rfl | rfl | rfl
  · exact ⟨_, hcs.symm⟩
  · exact ⟨_, hcs.symm⟩
  · exact ⟨_, hcs.symm⟩

/-- What comes after a line does not matter. -/
theorem beginsMarker_append {cs : List Char} (hne : cs ≠ []) {more : List Char}
    (hline : BeginsLine cs ∨ more = []) : BeginsMarker (cs ++ more) ↔ BeginsMarker cs := by
  obtain ⟨c, rest, rfl⟩ := List.exists_cons_of_ne_nil hne
  obtain ⟨line, lines, hlines⟩ := exists_splitLines_cons c rest
  rcases hline with hline | rfl
  · rw [BeginsMarker, BeginsMarker, splitLines_append hline, hlines]
    rfl
  · rw [List.append_nil]

/-- **The line that ends the scan is the marker**, whether a newline ends it, a carriage return and
a newline, or the text. -/
theorem atEndMarker_iff (s : State) : s.atEndMarker = true ↔ BeginsMarker s.rest := by
  constructor
  · intro h
    obtain ⟨more, hrest, rfl | ⟨after, rfl⟩ | ⟨after, rfl⟩⟩ := eq_append_of_atEndMarker h
    · rw [hrest]
      rfl
    · rw [hrest]
      rfl
    · rw [hrest]
      rfl
  · intro h
    obtain ⟨line, hline, hchomp⟩ := Option.map_eq_some_iff.mp h
    obtain ⟨lines, hlines⟩ := List.head?_eq_some_iff.mp hline
    have hrest := flatten_splitLines s.rest
    rw [hlines, List.flatten_cons] at hrest
    have hends := eq_chompChars_append line
    rw [hchomp] at hends
    unfold State.atEndMarker State.sees
    rcases hends with rfl | rfl | rfl
    · -- a line without a terminator is the last one
      have hnil : lines = [] := by
        by_contra hne
        have hbegins := (@beginsLine_of_splitLines_eq _ ["__END__".toList] _ hlines hne).1
        revert hbegins
        decide
      rw [← hrest, hnil]
      rfl
    · rw [← hrest]
      rfl
    · rw [← hrest]
      rfl

/-! ## §2. Document comments. -/

/-- The first `n` characters of a text are whole lines: they end with one, or with the text. -/
def WholeLines (cs : List Char) (n : Nat) : Prop :=
  cs.drop n = [] ∨ (cs.take n).getLast? = some '\n'

theorem WholeLines.cons {cs : List Char} {n : Nat} (h : WholeLines cs n) (c : Char) :
    WholeLines (c :: cs) (1 + n) := by
  rw [WholeLines, Nat.add_comm, List.drop_succ_cons, List.take_succ_cons, List.getLast?_cons]
  exact h.imp_right fun hlast => by rw [hlast]; rfl

theorem wholeLines_lineLength (cs : List Char) : WholeLines cs (lineLength cs) := by
  induction cs with
  | nil => exact .inl rfl
  | cons c rest ih =>
      rw [lineLength]
      split
      next hc =>
        rw [beq_iff_eq.mp hc]
        exact .inr rfl
      next => exact ih.cons c

/-- **A document comment is made of whole lines.** -/
theorem wholeLines_of_documentLength? {cs : List Char} : ∀ {n : Nat},
    documentLength? cs = some n → WholeLines cs n := by
  induction cs with
  | nil => exact fun h => nomatch h
  | cons c rest ih =>
      intro n h
      rw [documentLength?] at h
      split at h
      · cases h
        exact (wholeLines_lineLength rest).cons c
      · obtain ⟨m, hm, rfl⟩ := Option.map_eq_some_iff.mp h
        exact (ih hm).cons c

/-- A comment is a document of a text: its text is a stretch of whole lines, where it stands. -/
def DocumentOf (text : List Char) (c : Comment) : Prop :=
  ∃ before after, text = before ++ c.text.toList ++ after ∧ BeginsLine before ∧
    (BeginsLine c.text.toList ∨ after = []) ∧ c.span.start = byteLength before ∧
    c.span.stop = byteLength before + byteLength c.text.toList

/-- A line comment has one line, and it is no marker. -/
theorem not_mem_logicalLines_lineComment {cs : List Char} (h : cs.head? = some '#') :
    "__END__" ∉ logicalLines (String.ofList (dropReturns (cs.takeWhile (· != '\n')))) := by
  intro hmem
  obtain ⟨raw, hraw, hchomp⟩ := mem_logicalLines.mp hmem
  rw [String.toList_ofList] at hraw
  have hprefix : dropReturns (cs.takeWhile (· != '\n')) <+: cs.takeWhile (· != '\n') :=
    List.rdropWhile_prefix _ _
  obtain ⟨lines, more, hlines⟩ := List.append_of_mem hraw
  obtain ⟨start, rest, hsplit, hbegins, -, hrest⟩ := exists_of_splitLines_eq hlines
  have hstart : start = [] := by
    refine hbegins.resolve_right fun hlast => ?_
    -- there is no newline in the comment
    have hcomment := hprefix.subset (hsplit ▸ List.mem_append_left _ (List.mem_of_getLast? hlast))
    simpa using List.mem_takeWhile_imp hcomment
  rw [hstart, List.nil_append] at hsplit
  have hmarker : BeginsMarker rest := by
    rw [BeginsMarker, hrest, List.head?_cons, Option.map_some, hchomp]
  -- but the comment begins with its mark
  obtain ⟨after, hafter⟩ := hmarker.exists_eq_append
  obtain ⟨rest', hrest'⟩ := hprefix.trans (List.takeWhile_prefix _)
  rw [hsplit, hafter] at hrest'
  rw [← hrest'] at h
  cases h

/-! ## §3. Places. -/

/-- A span begins in a text, on the line that it says.  Where a line begins it is not empty. -/
def Placed (text : List Char) (span : Span) : Prop :=
  ∃ before after, text = before ++ after ∧ span.start = byteLength before ∧
    span.line = before.count '\n' + 1 ∧ (BeginsLine before → span.start < span.stop)

/-- Of two beginnings of a text the one that is not longer in bytes is one of the other. -/
theorem prefix_of_byteLength_le {before before' rest rest' : List Char}
    (h : before ++ rest = before' ++ rest') (hle : byteLength before ≤ byteLength before') :
    before <+: before' := by
  rcases List.append_eq_append_iff.mp h with ⟨more, hmore, -⟩ | ⟨more, hmore, -⟩
  · exact ⟨more, hmore.symm⟩
  · have hnil : more = [] := by
      by_contra hne
      have hbytes := byteLength_pos hne
      rw [hmore, byteLength_append] at hle
      omega
    rw [hmore, hnil, List.append_nil]

/-- The line of a span that is in the beginning of a text is one of its lines. -/
theorem Placed.line_le {text read rest : List Char} {span : Span} (h : Placed text span)
    (htext : text = read ++ rest) (hle : span.start ≤ span.stop)
    (hstop : span.stop ≤ byteLength read) : span.line ≤ (splitLines read).length := by
  obtain ⟨before, after, hbefore, hstart, hline, hpos⟩ := h
  obtain ⟨more, rfl⟩ : before <+: read :=
    prefix_of_byteLength_le (hbefore.symm.trans htext) (by omega)
  rw [hline, length_splitLines, List.count_append]
  split
  next hbegins =>
    -- a line ends after the span begins, or the span would be empty where a line begins
    have hmore : more ≠ [] := by
      rintro rfl
      rw [List.append_nil] at hbegins hstop
      have hless := hpos hbegins
      omega
    have hcount := List.count_pos_iff.mpr (newline_mem_of_beginsLine hmore hbegins)
    omega
  next => omega

/-- A span begins before a place that has more newlines before it than the span. -/
theorem Placed.start_lt {text before after : List Char} {span : Span} (h : Placed text span)
    (htext : text = before ++ after) (hline : span.line ≤ before.count '\n') :
    span.start < byteLength before := by
  obtain ⟨start, rest, hsplit, hstart, hcount, -⟩ := h
  by_contra hle
  have hprefix := prefix_of_byteLength_le (htext.symm.trans hsplit) (by omega)
  have hmono := hprefix.sublist.count_le '\n'
  omega

/-- A span that begins no later than another is on no later line. -/
theorem Placed.line_mono {text : List Char} {a b : Span} (ha : Placed text a) (hb : Placed text b)
    (hle : a.start ≤ b.start) : a.line ≤ b.line := by
  obtain ⟨before, after, hsplit, hstart, hline, -⟩ := ha
  obtain ⟨before', after', hsplit', hstart', hline', -⟩ := hb
  have hprefix := prefix_of_byteLength_le (hsplit.symm.trans hsplit') (by omega)
  have hmono := hprefix.sublist.count_le '\n'
  omega

theorem Placed.line_pos {text : List Char} {span : Span} (h : Placed text span) : 0 < span.line := by
  obtain ⟨before, after, -, -, hline, -⟩ := h
  omega

section Scan

variable {text : List Char} {k : Nat} {s : State}

/-- The next characters are at their place.  There are some, or no line begins there. -/
theorem placed_spanOfNext (h : Scanned text k s) (hlines : s.lines = LineTable.ofChars text) {n : Nat}
    (hn : n ≤ s.rest.length) (hpos : s.atLineStart = true → 0 < n) : Placed text (s.spanOfNext n) := by
  obtain ⟨-, read, hread⟩ := h
  refine ⟨read, s.rest, hread.text_eq, hread.pos_eq, ?_, fun hbegins => ?_⟩
  · show (s.lines.lineCol s.pos).1 = _
    rw [hlines, hread.pos_eq, hread.text_eq, LineTable.lineCol_ofChars]
  · have hsome := hpos (hread.lineStart.mpr hbegins)
    have hne : s.rest.take n ≠ [] := by
      rw [ne_eq, List.take_eq_nil_iff, ← List.length_eq_zero_iff]
      omega
    have hbytes := byteLength_pos hne
    show s.pos < (s.spanOfNext n).stop
    rw [hread.stop_eq hn, hread.pos_eq]
    omega

/-- A place in what has been read after the next `n` characters is before them, at the first of
them, or between them. -/
theorem place_cases {read rest before after : List Char} {n : Nat}
    (h : read ++ rest = before ++ after) (hless : (rest.drop n).length < after.length) :
    (rest.length < after.length ∧ before <+: read) ∨ (before = read ∧ after = rest) ∨
      ∃ lexeme, lexeme ≠ [] ∧ before = read ++ lexeme ∧ rest = lexeme ++ after ∧
        lexeme.length < n := by
  rcases List.append_eq_append_iff.mp h with ⟨lexeme, hbefore, hrest⟩ | ⟨more, hread, hafter⟩
  · by_cases hnil : lexeme = []
    · rw [hnil, List.append_nil] at hbefore
      rw [hnil, List.nil_append] at hrest
      exact .inr (.inl ⟨hbefore, hrest.symm⟩)
    · refine .inr (.inr ⟨lexeme, hnil, hbefore, hrest, ?_⟩)
      rw [List.length_drop, hrest, List.length_append] at hless
      omega
  · by_cases hnil : more = []
    · rw [hnil, List.append_nil] at hread
      rw [hnil, List.nil_append] at hafter
      exact .inr (.inl ⟨hread.symm, hafter⟩)
    · refine .inl ⟨?_, ⟨more, hread.symm⟩⟩
      have hpos := List.length_pos_iff.mpr hnil
      rw [hafter, List.length_append]
      omega

/-- No line begins between characters that are on one line. -/
theorem not_beginsLine_of_oneLine {read lexeme after : List Char} {n : Nat}
    (hline : OneLine (lexeme ++ after) (n - 1)) (hne : lexeme ≠ []) (hless : lexeme.length < n) :
    ¬ BeginsLine (read ++ lexeme) := by
  intro hbegins
  have htake : (lexeme ++ after).take lexeme.length = lexeme := List.take_left
  have hmono := hline.mono (show lexeme.length ≤ n - 1 by omega)
  rw [OneLine, htake] at hmono
  exact hmono (newline_mem_of_beginsLine hne hbegins)

end Scan

/-! ## §4. What is known. -/

/-- A place in a text is behind no token, or inside a document. -/
def Hidden (text : List Char) (tokens : List Token) (comments : List Comment) (offset : Nat) :
    Prop :=
  (∃ t ∈ tokens, offset ≤ t.span.start) ∨
    ∃ c ∈ comments, DocumentOf text c ∧ c.span.start < offset ∧ offset < c.span.stop

/-- The tokens and comments of a state are where they say, and a newline closes no literal. -/
structure Located (text : List Char) (s : State) : Prop where
  lines : s.lines = LineTable.ofChars text
  close : ∀ l, .literal l ∈ s.modes → l.close ≠ '\n'
  tokens : ∀ t ∈ s.tokens, Placed text t.span
  comments : ∀ c ∈ s.comments,
    Placed text c.span ∧ (DocumentOf text c ∨ "__END__" ∉ logicalLines c.text)

/-- Besides, each marker that has been read stands before a token or in a document. -/
structure Marked (text : List Char) (s : State) : Prop extends Located text s where
  hidden : ∀ before after, text = before ++ after → s.rest.length < after.length →
    BeginsLine before → BeginsMarker after → Hidden text s.tokens s.comments (byteLength before)

theorem marked_start (text : List Char) : Marked text (State.start text) where
  lines := rfl
  close _ h := absurd h List.not_mem_nil
  tokens _ h := absurd h List.not_mem_nil
  comments _ h := absurd h List.not_mem_nil
  hidden before after htext hless _ _ := by
    have hlength := congrArg List.length htext
    rw [List.length_append] at hlength
    have hrest : (State.start text).rest.length = text.length := rfl
    omega

section Step

variable {text : List Char} {k n : Nat} {s s' : State}

/-- A token is where it says. -/
theorem Located.emit (h : Located text s) (hscan : Scanned text k s) (hn : n ≤ s.rest.length)
    (hpos : s.atLineStart = true → 0 < n) {kind : Kind} {value : String}
    (hlines : s'.lines = s.lines) (hclose : ∀ l, .literal l ∈ s'.modes → l.close ≠ '\n')
    (htokens : s'.tokens = ⟨kind, value, s.spanOfNext n⟩ :: s.tokens)
    (hcomments : s'.comments = s.comments) : Located text s' where
  lines := hlines.trans h.lines
  close := hclose
  tokens := by
    rw [htokens]
    exact List.forall_mem_cons.mpr ⟨placed_spanOfNext hscan h.lines hn hpos, h.tokens⟩
  comments := hcomments ▸ h.comments

/-- After a token on one line no marker has been passed that is behind it. -/
theorem Located.marked (h : Located text s') (hscan : Scanned text k s) (hline : OneLine s.rest (n - 1))
    (hrest : s'.rest = s.rest.drop n) {t : Token} (ht : t ∈ s'.tokens)
    (hstart : t.span.start = s.pos) : Marked text s' where
  toLocated := h
  hidden := by
    intro before after htext hless hbegins _
    obtain ⟨-, read, hread⟩ := hscan
    rw [hrest] at hless
    refine .inl ⟨t, ht, ?_⟩
    rw [hstart, hread.pos_eq]
    -- no line begins inside the token, so the place is not behind its beginning
    rcases place_cases (hread.text_eq.symm.trans htext) hless with
      ⟨-, more, rfl⟩ | ⟨rfl, -⟩ | ⟨lexeme, hne, rfl, hlexeme, hlength⟩
    · rw [byteLength_append]
      exact Nat.le_add_right _ _
    · exact Nat.le_refl _
    · rw [hlexeme] at hline
      exact absurd hbegins (not_beginsLine_of_oneLine hline hne hlength)

/-- After characters that are no token no marker has been passed but those from before, if none
begins there and what begins between them is passed. -/
theorem Marked.skip (h : Marked text s) (hscan : Scanned text k s)
    (hmarker : ¬ (s.atLineStart = true ∧ BeginsMarker s.rest)) (hrest : s'.rest = s.rest.drop n)
    (htokens : s'.tokens = s.tokens) (hcomments : ∀ c ∈ s.comments, c ∈ s'.comments)
    (hinside : ∀ read lexeme after, s.pos = byteLength read → s.rest = lexeme ++ after →
      lexeme ≠ [] → lexeme.length < n → BeginsLine (read ++ lexeme) →
        Hidden text s'.tokens s'.comments (byteLength (read ++ lexeme)))
    (hlocated : Located text s') : Marked text s' where
  toLocated := hlocated
  hidden := by
    intro before after htext hless hbegins hafter
    obtain ⟨-, read, hread⟩ := hscan
    rw [hrest] at hless
    rcases place_cases (hread.text_eq.symm.trans htext) hless with
      ⟨hmore, -⟩ | ⟨rfl, rfl⟩ | ⟨lexeme, hne, rfl, hlexeme, hlength⟩
    · rw [htokens]
      exact (h.hidden before after htext hmore hbegins hafter).imp_right
        fun ⟨c, hc, hhidden⟩ => ⟨c, hcomments c hc, hhidden⟩
    · exact absurd ⟨hread.lineStart.mpr hbegins, hafter⟩ hmarker
    · exact hinside read lexeme after hread.pos_eq hlexeme hne hlength hbegins

/-- No line begins between characters on one line, so nothing is passed there. -/
theorem hidden_of_oneLine {tokens : List Token} {comments : List Comment}
    (hline : OneLine s.rest (n - 1)) (read lexeme after : List Char)
    (_ : s.pos = byteLength read) (hlexeme : s.rest = lexeme ++ after) (hne : lexeme ≠ [])
    (hlength : lexeme.length < n) (hbegins : BeginsLine (read ++ lexeme)) :
    Hidden text tokens comments (byteLength (read ++ lexeme)) := by
  rw [hlexeme] at hline
  exact absurd hbegins (not_beginsLine_of_oneLine hline hne hlength)

/-- A document comment is a document of the text. -/
theorem documentOf_comment (hscan : Scanned text k s) (hstart : s.atLineStart = true)
    (hn : documentLength? s.rest = some n) :
    DocumentOf text ⟨String.ofList (s.rest.take n), s.spanOfNext n⟩ := by
  obtain ⟨-, read, hread⟩ := hscan
  refine ⟨read, s.rest.drop n, ?_, hread.lineStart.mp hstart, ?_, hread.pos_eq, ?_⟩
  · rw [String.toList_ofList, List.append_assoc, List.take_append_drop, hread.text_eq]
  · rw [String.toList_ofList]
    exact (wholeLines_of_documentLength? hn).symm.imp_left .inr
  · rw [String.toList_ofList]
    exact hread.stop_eq (documentLength?_le hn)

/-- A comment is where it says. -/
theorem Located.comment (h : Located text s) (hscan : Scanned text k s) (hoffers : Offers s.rest n)
    {content : List Char}
    (hcontent : DocumentOf text ⟨String.ofList content, s.spanOfNext n⟩ ∨
      "__END__" ∉ logicalLines (String.ofList content)) :
    Located text (s.comment n content) where
  lines := h.lines
  close := h.close
  tokens := h.tokens
  comments := List.forall_mem_cons.mpr
    ⟨⟨placed_spanOfNext hscan h.lines hoffers.le fun _ => hoffers.pos, hcontent⟩, h.comments⟩

/-! ## §5. Steps. -/

/-- A literal that a token opens is not closed by a newline. -/
theorem close_of_shift {kind : Kind} (hs : Shift s kind s')
    (h : ∀ l, .literal l ∈ s.modes → l.close ≠ '\n') :
    ∀ l, .literal l ∈ s'.modes → l.close ≠ '\n' := by
  cases hs with
  | keep _ modes _ | newline _ modes _ | openBracket _ _ _ modes _ | closeBracket _ modes _ =>
      rwa [modes]
  | openLiteral l' _ hclose modes _ =>
      rw [modes]
      intro l hl
      rcases List.mem_cons.mp hl with hl | hl
      · cases hl
        exact hclose
      · exact h l hl
  | resume _ modes _ =>
      rw [modes]
      exact fun l hl => h l (List.mem_of_mem_tail hl)

/-- **A step in code keeps what is known.** -/
theorem Marked.stepCode (h : Marked text s) (hscan : Scanned text k s)
    (hs : s.stepCode = .next s') : Marked text s' := by
  have hmarker : ¬ (s.atLineStart = true ∧ BeginsMarker s.rest) := by
    -- the step would have been the last one
    intro hat
    rw [← atEndMarker_iff, ← Bool.and_eq_true] at hat
    rw [State.stepCode, if_pos hat] at hs
    cases hs
  cases turn_stepCode hs with
  | token hemits =>
      obtain ⟨kind, n, value, hn, hshift, hrest, htokens, hcomments, hlines, -⟩ :=
        hemits.exists_token
      have hlocated := h.toLocated.emit hscan hn.le (fun _ => hn.pos) hlines
        (close_of_shift hshift h.close) htokens hcomments
      exact hlocated.marked hscan hn.line hrest (htokens ▸ List.mem_cons_self) rfl
  | @character n hn d value _ _ =>
      exact Located.marked (t := ⟨.tCHARACTER, String.ofList value, s.spanOfNext n⟩)
        (h.toLocated.emit hscan hn.le (fun _ => hn.pos) rfl h.close rfl rfl) hscan hn.line rfl
        List.mem_cons_self rfl
  | lineComment hhead =>
      have hline := oneLine_takeWhile (p := (· != '\n')) (by decide) s.rest
      exact h.skip hscan hmarker rfl rfl (fun _ => List.mem_cons_of_mem _)
        (hidden_of_oneLine (hline.mono (Nat.sub_le _ 1)))
        (h.comment hscan (offers_lineComment hhead)
          (.inr (not_mem_logicalLines_lineComment hhead)))
  | @document n hstart hat hn =>
      have hoffers : Offers s.rest n := ⟨documentLength?_pos hn, documentLength?_le hn⟩
      have hdocument := documentOf_comment hscan hstart hn
      refine h.skip hscan hmarker rfl rfl (fun _ => List.mem_cons_of_mem _) ?_
        (h.comment hscan hoffers (.inl hdocument))
      -- what begins inside the comment is inside a document
      intro read lexeme after hpos hlexeme hne hlength _
      refine .inr ⟨_, List.mem_cons_self, hdocument, ?_, ?_⟩
      · show s.pos < _
        rw [hpos, byteLength_append]
        exact Nat.lt_add_of_pos_right (byteLength_pos hne)
      · have hmore : after.take (n - lexeme.length) ≠ [] := by
          have hle := hoffers.le
          rw [hlexeme, List.length_append] at hle
          rw [ne_eq, List.take_eq_nil_iff, ← List.length_eq_zero_iff]
          omega
        show _ < s.pos + s.bytesOfNext n
        rw [bytesOfNext_eq hoffers.le, hpos, hlexeme, List.take_append,
          List.take_of_length_le (Nat.le_of_lt hlength), byteLength_append, byteLength_append]
        exact Nat.add_lt_add_left (Nat.lt_add_of_pos_right (byteLength_pos hmore)) _
  | blank hn hblank =>
      exact h.skip hscan hmarker rfl rfl (fun _ => id) (hidden_of_oneLine hn.line)
        ⟨h.lines, h.close, h.tokens, h.comments⟩
  | reject hn hlevel =>
      exact h.skip hscan hmarker rfl rfl (fun _ => id) (hidden_of_oneLine hn.line)
        ⟨h.lines, h.close, h.tokens, h.comments⟩

/-- The content of a literal is where its token says. -/
theorem Located.contentToken (h : Located text s) (hscan : Scanned text k s) {pieces : List Piece}
    (hsource : sourceOf pieces <+: s.rest) : Located text (s.contentToken pieces) := by
  simp only [State.contentToken]
  split
  · exact ⟨h.lines, h.close, h.tokens, h.comments⟩
  next hempty =>
    refine h.emit hscan hsource.length_le (fun _ => List.length_pos_iff.mpr ?_) rfl h.close rfl rfl
    simpa using hempty

/-- **The end of a literal** is a token behind all of its content. -/
theorem Located.closeLiteral {l : Literal} (h : Located text s) (hscan : Scanned text k s)
    (hl : l.close ≠ '\n') {more : List Char} (hrest : s.rest = l.close :: more) :
    Marked text (s.closeLiteral l) := by
  have hone : 1 ≤ s.rest.length := by simp [hrest]
  have hline : OneLine s.rest 0 := oneLine_zero _
  have hlocated : Located text ({ s with modes := s.modes.tail }.emitThen .tSTRING_END 1 .operator) :=
    h.emit hscan hone (fun _ => Nat.one_pos) rfl
      (fun l' hl' => h.close l' (List.mem_of_mem_tail hl')) rfl rfl
  have hmarked := hlocated.marked hscan hline rfl List.mem_cons_self rfl
  have hscan' : Scanned text k ({ s with modes := s.modes.tail }.emitThen .tSTRING_END 1 .operator) :=
    Scanned.emitThen (s := { s with modes := s.modes.tail }) hscan (Nat.le_add_right k 1) hone _ _
  have hstart : ({ s with modes := s.modes.tail }.emitThen .tSTRING_END 1 .operator).atLineStart
      = false := by
    show ((s.rest.take 1).getLast?.map (· == '\n')).getD s.atLineStart = false
    rw [hrest]
    simpa using hl
  simp only [State.closeLiteral]
  generalize { s with modes := s.modes.tail }.emitThen .tSTRING_END 1 .operator = closed at *
  split
  · -- the options come after the closing mark, so no line begins there
    have hoptions : Located text
        (closed.emitSpelt .tREGEXP_OPT (closed.rest.takeWhile isLower).length) :=
      hmarked.toLocated.emit hscan' (length_takeWhile_le isLower _)
        (fun hat => absurd (hstart.symm.trans hat) Bool.false_ne_true) rfl hmarked.close rfl rfl
    refine hoptions.marked hscan' ?_ rfl List.mem_cons_self rfl
    exact (oneLine_takeWhile (by decide) _).mono (Nat.sub_le _ 1)
  · exact hmarked

theorem Located.openInterpolation (h : Located text s) (hscan : Scanned text k s)
    {more : List Char} (hrest : s.rest = '#' :: '\x7b' :: more) :
    Marked text s.openInterpolation := by
  have htwo : 2 ≤ s.rest.length := by simp [hrest]
  have hline : OneLine s.rest 1 := hrest ▸ (oneLine_zero _).cons (by decide)
  have hopened : Located text s.openInterpolation :=
    h.emit hscan htwo (fun _ => Nat.two_pos) rfl
      (fun l hl => h.close l ((List.mem_cons.mp hl).resolve_left nofun)) rfl rfl
  exact hopened.marked hscan hline rfl List.mem_cons_self rfl

theorem Located.stepLiteral {l : Literal} {outer : List Mode} (h : Located text s)
    (hscan : Scanned text k s) (hmodes : s.modes = .literal l :: outer)
    (hs : s.stepLiteral l = .next s') : Marked text s' := by
  have hsource := readContent_isPrefix l s.rest
  have hcontent := h.contentToken hscan hsource
  have hscan' := hscan.contentToken (Nat.le_add_right k _) hsource
  cases concludes_of_stepLiteral hs with
  | close hrest =>
      exact hcontent.closeLiteral hscan' (h.close l (hmodes ▸ List.mem_cons_self)) hrest
  | interpolation hrest => exact hcontent.openInterpolation hscan' hrest

/-- **Each step keeps what is known about lines and markers.** -/
theorem Marked.step (h : Marked text s) (hscan : Scanned text k s) (hs : s.step = .next s') :
    Marked text s' := by
  unfold State.step at hs
  split at hs
  next l outer hmodes => exact h.toLocated.stepLiteral hscan hmodes hs
  next => exact h.stepCode hscan hs

theorem Reachable.marked (h : Reachable text s) : Marked text s := by
  induction h with
  | start => exact marked_start text
  | step hreach hs ih => exact ih.step hreach.scanned hs

end Step

/-! ## §6. Behind the last token. -/

/-- A marker where a line begins inside a document is one of the lines of the document. -/
theorem DocumentOf.marker_mem {text before after : List Char} {c : Comment} (h : DocumentOf text c)
    (htext : text = before ++ after) (hbegins : BeginsLine before) (hmarker : BeginsMarker after)
    (hstart : c.span.start < byteLength before) (hstop : byteLength before < c.span.stop) :
    "__END__" ∈ logicalLines c.text := by
  obtain ⟨start, more, hsplit, -, hends, hfirst, hlast⟩ := h
  rw [List.append_assoc] at hsplit
  -- the place is after a first part of the document, and before a last part
  obtain ⟨first, rfl⟩ : start <+: before :=
    prefix_of_byteLength_le (hsplit.symm.trans htext) (by omega)
  rw [htext, List.append_assoc, List.append_cancel_left_eq] at hsplit
  obtain ⟨last, hdocument⟩ : first <+: c.text.toList := by
    refine prefix_of_byteLength_le hsplit ?_
    rw [byteLength_append] at hstop
    omega
  have hfirstne : first ≠ [] := by
    rintro rfl
    rw [List.append_nil] at hstart
    omega
  have hlastne : last ≠ [] := by
    rintro rfl
    rw [List.append_nil] at hdocument
    rw [byteLength_append, hdocument] at hstop
    omega
  have hafter : after = last ++ more := by
    rw [← hdocument, List.append_assoc, List.append_cancel_left_eq] at hsplit
    exact hsplit
  have hline : BeginsLine last ∨ more = [] := by
    rw [← hdocument] at hends
    exact hends.imp_left (beginsLine_append hlastne first).mp
  rw [hafter, beginsMarker_append hlastne hline] at hmarker
  obtain ⟨raw, hraw, hchomp⟩ := Option.map_eq_some_iff.mp hmarker
  refine mem_logicalLines.mpr ⟨raw, ?_, hchomp⟩
  rw [← hdocument, splitLines_append ((beginsLine_append hfirstne start).mp hbegins)]
  exact List.mem_append_right _ (List.mem_of_head? hraw)

/-- The lines of a document are lines of what was read, after those before it. -/
theorem DocumentOf.lines_append {text read rest : List Char} {c : Comment} (h : DocumentOf text c)
    (htext : text = read ++ rest) (hstop : c.span.stop ≤ byteLength read) :
    ∃ before more, text = before ++ more ∧ c.span.start = byteLength before ∧ ∃ lines,
      splitLines read = splitLines before ++ (splitLines c.text.toList ++ lines) := by
  obtain ⟨before, after, hsplit, hbegins, hends, hstart, hlast⟩ := h
  obtain ⟨more, rfl⟩ : before ++ c.text.toList <+: read :=
    prefix_of_byteLength_le (hsplit.symm.trans htext) (by rw [byteLength_append]; omega)
  have hline : BeginsLine c.text.toList ∨ more = [] := by
    rw [hsplit, List.append_assoc (before ++ _), List.append_cancel_left_eq] at htext
    refine hends.imp_right fun hnil => ?_
    rw [hnil] at htext
    exact (List.append_eq_nil_iff.mp htext.symm).1
  refine ⟨before, c.text.toList ++ after, ?_, hstart, splitLines more, ?_⟩
  · rw [hsplit, List.append_assoc]
  · rw [List.append_assoc, splitLines_append hbegins]
    rcases hline with hline | rfl
    · rw [splitLines_append hline]
    · rw [List.append_nil, splitLines_nil, List.append_nil]

/-- No token begins behind the last one. -/
theorem Ledger.start_le {read : List Char} {last : Token} {earlier : List Token}
    {cs : List Comment} {ds : List Diagnostic} (h : Ledger read (last :: earlier) cs ds) :
    ∀ t ∈ last :: earlier, t.span.start ≤ last.span.start := by
  intro t ht
  have hle := (h.tokens_within t ht).1
  rcases List.mem_cons.mp ht with rfl | ht
  · exact Nat.le_refl _
  · exact Nat.le_trans hle ((List.pairwise_cons.mp h.tokens_ordered).1 t ht)

/-- **Behind the line of the last token the lines have a marker only in comments.** -/
theorem Marked.marker_mem_iff {text read : List Char} {s : State} {last : Token}
    {earlier : List Token} (h : Marked text s)
    (hread : Consumed text read s.rest s.pos s.atLineStart s.tokens s.comments s.diagnostics)
    (htokens : s.tokens = last :: earlier) (hline : BeginsLine read ∨ s.rest = []) :
    (∃ raw ∈ (splitLines read).drop last.span.line, chompChars raw = "__END__".toList) ↔
      ∃ c ∈ s.comments, (∀ t ∈ s.tokens, t.span.stop ≤ c.span.start) ∧
        "__END__" ∈ logicalLines c.text := by
  have hlast : last ∈ s.tokens := htokens ▸ List.mem_cons_self
  have hledger := hread.ledger
  constructor
  · rintro ⟨raw, hraw, hchomp⟩
    -- the place at which the line begins
    obtain ⟨lines, more, hlines⟩ := List.append_of_mem hraw
    have hall := List.take_append_drop last.span.line (splitLines read)
    rw [hlines, ← List.append_assoc] at hall
    obtain ⟨before, after, rfl, hbegins, hbefore, hafter⟩ := exists_of_splitLines_eq hall.symm
    have hne : after ≠ [] := by
      rintro rfl
      cases hafter
    have htext : text = before ++ (after ++ s.rest) := by
      rw [hread.text_eq, List.append_assoc]
    have hmarker : BeginsMarker (after ++ s.rest) := by
      rw [beginsMarker_append hne (hline.imp_left (beginsLine_append hne before).mp), BeginsMarker,
        hafter, List.head?_cons, Option.map_some, hchomp]
    have hstart : ∀ t ∈ s.tokens, t.span.start < byteLength before := by
      have hcount := length_splitLines_of_beginsLine hbegins
      have hdrop := congrArg List.length hlines
      rw [List.length_drop, List.length_append, List.length_cons] at hdrop
      rw [hbefore, List.length_append, List.length_take, Nat.min_eq_left (by omega)] at hcount
      have hlt := (h.tokens last hlast).start_lt htext (by omega)
      rw [htokens] at hledger ⊢
      exact fun t ht => Nat.lt_of_le_of_lt (hledger.start_le t ht) hlt
    have hless : s.rest.length < (after ++ s.rest).length := by
      rw [List.length_append]
      have hpos := List.length_pos_iff.mpr hne
      omega
    rcases h.hidden before _ htext hless hbegins hmarker with
      ⟨t, ht, hle⟩ | ⟨c, hc, hdocument, hfirst, hstop⟩
    · exact absurd (hstart t ht) (Nat.not_lt.mpr hle)
    · refine ⟨c, hc, fun t ht => ?_, hdocument.marker_mem htext hbegins hmarker hfirst hstop⟩
      refine (hledger.disjoint t ht c hc).resolve_right fun hle => ?_
      have hlt := hstart t ht
      omega
  · rintro ⟨c, hc, hbehind, hmarker⟩
    have hdocument := (h.comments c hc).2.resolve_right fun hnone => hnone hmarker
    obtain ⟨raw, hraw, hchomp⟩ := mem_logicalLines.mp hmarker
    obtain ⟨before, more, htext, hstart, lines, hlines⟩ :=
      hdocument.lines_append hread.text_eq (hledger.comments_within c hc).2
    have hle := (h.tokens last hlast).line_le htext (hledger.tokens_within last hlast).1
      (hstart ▸ hbehind last hlast)
    refine ⟨raw, ?_, hchomp⟩
    rw [hlines, List.drop_append_of_le_length hle]
    exact List.mem_append_right _ (List.mem_append_left _ hraw)

end RubySyntax.Token.Lexer
