/-
  RubySyntax.Proofs.Token.Reach
  ─────────────────────────────
  **THE SCAN STAYS IN THE TEXT, AND ENDS.**

  The offset of the scan moves by as many bytes as a step asks for.  That it never leaves the text
  and never falls inside a character therefore says that no step asks for what is not there,
  whatever the text is and wherever it breaks off.  Each step moves the offset forward, so the
  scan ends by itself: the loop has no need of the test that would stop it if it did not move.

      pos = bytes read,   text = read ++ rest,   pos < pos after a step

  Main results:
    • `Reachable.inRange` — where the scan is, the text can be cut, and so it can at both ends of
      each token and comment,
    • `Reachable.pos_lt` — a step moves forward, within the text,
    • `Reachable.ends` — the loop ends after no more steps than there are characters,
    • `scan_safe` — all of these, and what the loops inside a step take.
-/
import RubySyntax.Proofs.Token.Coverage

namespace RubySyntax

/-! ## §1. Slices. -/

/-- Whether a text can be cut at both ends of a span. -/
def Span.Fits (span : Span) (text : List Char) : Prop :=
  (Text.slice? text span.start span.stop).isSome

theorem Span.fits_append {span : Span} {before stretch after : List Char}
    (hstart : span.start = Text.byteLength before)
    (hstop : span.stop = Text.byteLength before + Text.byteLength stretch) :
    span.Fits (before ++ stretch ++ after) := by
  rw [Fits, hstart, hstop, Text.slice?_append]
  rfl

namespace Token.Lexer

open RubySyntax.Text

/-- The tokens and comments of a ledger can be cut out of any text that begins with what was
read. -/
theorem Ledger.fits {read : List Char} {ts : List Token} {cs : List Comment}
    {ds : List Diagnostic} (h : Ledger read ts cs ds) : ∀ after : List Char,
      (∀ t ∈ ts, t.span.Fits (read ++ after)) ∧ ∀ c ∈ cs, c.span.Fits (read ++ after) := by
  induction h with
  | start =>
      exact fun _ => ⟨fun t ht => absurd ht List.not_mem_nil, fun c hc => absurd hc List.not_mem_nil⟩
  | token before lexeme t hstart hstop ih =>
      intro after
      have hbefore := ih (lexeme ++ after)
      rw [← List.append_assoc] at hbefore
      exact ⟨List.forall_mem_cons.mpr ⟨Span.fits_append hstart hstop, hbefore.1⟩, hbefore.2⟩
  | comment before lexeme c hstart hstop ih =>
      intro after
      have hbefore := ih (lexeme ++ after)
      rw [← List.append_assoc] at hbefore
      exact ⟨hbefore.1, List.forall_mem_cons.mpr ⟨Span.fits_append hstart hstop, hbefore.2⟩⟩
  | blank before lexeme h ih | rejected before lexeme d herror hstart hstop ih =>
      intro after
      have hbefore := ih (lexeme ++ after)
      rwa [← List.append_assoc] at hbefore
  | reported before d ih => exact ih

/-! ## §2. States. -/

/-- The states that the scan of a text comes to. -/
inductive Reachable (text : List Char) : State → Prop where
  /-- Before the text. -/
  | start : Reachable text (State.start text)
  /-- After a step. -/
  | step {s s' : State} (h : Reachable text s) (hs : s.step = .next s') : Reachable text s'

/-- A state is within a text. -/
structure State.InRange (s : State) (text : List Char) : Prop where
  /-- The offset is in the text. -/
  pos_le : s.pos ≤ byteLength text
  /-- A character begins at the offset or the text ends there, and what is unread follows. -/
  boundary : dropBytes? text s.pos = some s.rest
  tokens : ∀ t ∈ s.tokens, t.span.Fits text
  comments : ∀ c ∈ s.comments, c.span.Fits text

variable {text : List Char} {s s' : State}

/-- A step leaves fewer characters, and what it consumed is a part of the text. -/
theorem Scanned.next (h : Scanned text s.rest.length s) (hs : s.step = .next s') :
    Scanned text s'.rest.length s' ∧ s'.rest.length < s.rest.length := by
  obtain ⟨c, rest, hrest⟩ := List.exists_cons_of_ne_nil (rest_ne_nil_of_step hs)
  have hlength : s.rest.length = rest.length + 1 := by rw [hrest, List.length_cons]
  obtain ⟨hless, hread⟩ := (h.mono (Nat.le_of_eq hlength)).step hs
  exact ⟨⟨Nat.le_refl _, hread⟩, by omega⟩

theorem Reachable.scanned (h : Reachable text s) : Scanned text s.rest.length s := by
  induction h with
  | start => exact scanned_start text
  | step _ hs ih => exact (ih.next hs).1

/-- **Where the scan is, the text can be cut.** -/
theorem Reachable.inRange (h : Reachable text s) : s.InRange text := by
  obtain ⟨-, read, hread⟩ := h.scanned
  obtain ⟨htokens, hcomments⟩ := hread.ledger.fits s.rest
  rw [← hread.text_eq] at htokens hcomments
  refine ⟨?_, ?_, htokens, hcomments⟩
  · rw [hread.text_eq, hread.pos_eq, byteLength_append]
    exact Nat.le_add_right _ _
  · rw [hread.text_eq, hread.pos_eq, dropBytes?_append]

/-- Of two beginnings of a text the one that leaves less is the longer one in bytes. -/
theorem byteLength_lt {before before' rest rest' : List Char}
    (h : before ++ rest = before' ++ rest') (hless : rest'.length < rest.length) :
    byteLength before < byteLength before' := by
  have hlength := congrArg List.length h
  rw [List.length_append, List.length_append] at hlength
  obtain ⟨more, rfl⟩ := List.prefix_of_prefix_length_le ⟨rest, h⟩ ⟨rest', rfl⟩ (by omega)
  have hmore : more ≠ [] := by
    rintro rfl
    rw [List.append_nil] at hlength
    omega
  obtain ⟨c, more, rfl⟩ := List.exists_cons_of_ne_nil hmore
  have hpos := c.utf8Size_pos
  rw [byteLength_append, byteLength]
  omega

/-- **A step moves forward, within the text.** -/
theorem Reachable.pos_lt (h : Reachable text s) (hs : s.step = .next s') :
    s.pos < s'.pos ∧ s'.pos ≤ byteLength text := by
  obtain ⟨-, read, hread⟩ := h.scanned
  obtain ⟨⟨-, read', hread'⟩, hless⟩ := h.scanned.next hs
  refine ⟨?_, (h.step hs).inRange.pos_le⟩
  rw [hread.pos_eq, hread'.pos_eq]
  exact byteLength_lt (hread.text_eq.symm.trans hread'.text_eq) hless

/-! ## §3. The loop. -/

/-- The loop of the scan, which tests for nesting and not for progress: it ends from a state after
some number of steps, in some way. -/
inductive Ends : Nat → State → Step → Prop where
  /-- The last step does not lead on. -/
  | stop {s : State} (hs : ∀ s', s.step ≠ .next s') : Ends 1 s s.step
  /-- The step leads to brackets and bodies that are nested too deeply. -/
  | deep {s s' : State} (hs : s.step = .next s') (hdeep : maxNesting < s'.depth + s'.blocks) :
      Ends 1 s (s'.failAt .nestingTooDeep s'.deepSpan)
  /-- The step leads on. -/
  | next {n : Nat} {s s' : State} {e : Step} (hs : s.step = .next s')
      (hflat : s'.depth + s'.blocks ≤ maxNesting) (h : Ends n s' e) : Ends (n + 1) s e

/-- **The loop ends**, as `run` does, after no more steps than there are characters, and one. -/
theorem Reachable.ends : ∀ {s : State}, Reachable text s →
    ∃ n, n ≤ s.rest.length + 1 ∧ Ends n s s.run
  | s, h => by
      rw [State.run]
      split
      next s₁ hs =>
        have hless := (h.scanned.next hs).2
        split
        next hdeep => exact ⟨1, by omega, .deep hs hdeep⟩
        next hflat =>
          -- `hless`: the test for progress is always passed
          obtain ⟨n, hn, hends⟩ := Reachable.ends (h.step hs)
          exact ⟨n + 1, by omega, .next hs (Nat.not_lt.mp hflat) hends⟩
      next hended => exact ⟨1, by omega, .stop hended⟩
termination_by s => s.rest.length

/-- Where the loop finishes is a state that the scan comes to, and the end. -/
theorem Ends.reachable {n : Nat} {e : Step} (h : Ends n s e) :
    Reachable text s → ∀ s', e = .finish s' → Reachable text s' ∧ AtEnd s' := by
  induction h with
  | stop _ =>
      intro hs s' he
      obtain ⟨rfl, hend⟩ := atEnd_of_step he
      exact ⟨hs, hend⟩
  | deep => exact fun _ _ he => nomatch he
  | next hs _ _ ih => exact fun hreach => ih (hreach.step hs)

/-- The scan of a text that can be split into tokens finishes with no literal left open. -/
theorem ends_of_lex {source : String} {lexed : Lexed} (h : (lex source).1 = .ok lexed) :
    ∃ n s, Ends n (State.start source.toList) (.finish s) ∧ s.modes = [] ∧
      lexed = ⟨s.tokens.reverse, s.comments.reverse, s.pos⟩ := by
  have hstart : Reachable source.toList (State.start source.toList) := .start
  obtain ⟨n, -, hends⟩ := hstart.ends
  have hnext := fun s => (Scanned.run (scanned_start source.toList) s).1
  unfold lex at h
  generalize (State.start source.toList).run = ended at h hends hnext
  cases ended with
  | next s => exact absurd rfl (hnext s)
  | fail s fault span => cases h
  | finish s =>
      by_cases hmodes : s.modes.isEmpty = true
      · simp only [State.conclude, if_pos hmodes] at h
        cases h
        exact ⟨n, s, hends, List.isEmpty_iff.mp hmodes, rfl⟩
      · simp only [State.conclude, if_neg hmodes, State.failAt] at h
        cases h

/-- Such a text has been scanned to the end of the program. -/
theorem reachable_of_lex {source : String} {lexed : Lexed} (h : (lex source).1 = .ok lexed) :
    ∃ s : State, Reachable source.toList s ∧ AtEnd s ∧ s.modes = [] ∧
      lexed = ⟨s.tokens.reverse, s.comments.reverse, s.pos⟩ := by
  obtain ⟨n, s, hends, hmodes, hlexed⟩ := ends_of_lex h
  obtain ⟨hs, hend⟩ := hends.reachable .start s rfl
  exact ⟨s, hs, hend, hmodes, hlexed⟩

/-- The loop ends in one way. -/
theorem Ends.unique {n n' : Nat} {e e' : Step} (h : Ends n s e) (h' : Ends n' s e') : e = e' := by
  induction h generalizing n' with
  | stop hs =>
      cases h' with
      | stop _ => rfl
      | deep hs' _ => exact absurd hs' (hs _)
      | next hs' _ _ => exact absurd hs' (hs _)
  | deep hs hdeep =>
      cases h' with
      | stop hs' => exact absurd hs (hs' _)
      | deep hs' _ =>
          cases hs.symm.trans hs'
          rfl
      | next hs' hflat _ =>
          cases hs.symm.trans hs'
          exact absurd hdeep (Nat.not_lt.mpr hflat)
  | next hs hflat _ ih =>
      cases h' with
      | stop hs' => exact absurd hs (hs' _)
      | deep hs' hdeep =>
          cases hs.symm.trans hs'
          exact absurd hdeep (Nat.not_lt.mpr hflat)
      | next hs' _ h' =>
          cases hs.symm.trans hs'
          exact ih h'

/-- In code the scan ends where the text does. -/
theorem step_of_rest_eq_nil (hrest : s.rest = []) (hmodes : s.modes = []) : s.step = .finish s := by
  simp [State.step, State.stepCode, State.atEndMarker, State.atDocument, State.sees, hrest, hmodes]

/-- A text whose scan ends with no literal left open is split into tokens. -/
theorem lex_of_ends {source : String} {n : Nat}
    (h : Ends n (State.start source.toList) (.finish s)) (hmodes : s.modes = []) :
    lex source = (.ok ⟨s.tokens.reverse, s.comments.reverse, s.pos⟩, s.diagnostics.reverse) := by
  obtain ⟨_, -, hrun⟩ := (.start : Reachable source.toList _).ends
  rw [lex, hrun.unique h]
  simp only [State.conclude, hmodes, List.isEmpty_nil, if_true]

/-! ## §4. The loops inside a step. -/

/-- What the loops inside a step take from the front of some text is there, and each piece of the
content of a literal is some of it. -/
structure TakesWithin (cs : List Char) : Prop where
  content : ∀ l, sourceOf (readContent l cs).1 <+: cs
  piece : ∀ l, ∀ p ∈ (readContent l cs).1, p.source ≠ []
  escape : ∀ style, (readEscape style cs).source <+: '\\' :: cs
  codePoints : (readCodePoints cs).1 <+: cs
  digits : ∀ p most, digitsUpTo p most cs <+: cs
  character : ∀ p, State.characterPiece? cs = some p → p.source <+: cs
  number : (numberLength cs).2 ≤ cs.length
  afterNumber : skipNumber cs <:+ cs
  word : (readWord cs).chars <+: cs
  symbol : State.symbolLength cs ≤ cs.length
  global : ∀ kind n, State.globalLength? cs = some (kind, n) → n ≤ cs.length
  document : ∀ n, documentLength? cs = some n → 0 < n ∧ n ≤ cs.length
  blank : ∀ n, State.blankLength? cs = some n → 0 < n ∧ n ≤ cs.length

theorem skipNumber_suffix : ∀ cs : List Char, skipNumber cs <:+ cs
  | [] => List.suffix_refl _
  | c :: rest => by
      rw [skipNumber]
      split
      · exact (skipNumber_suffix rest).trans (List.suffix_cons c rest)
      · exact List.suffix_refl _

/-- The pieces of a content are not empty. -/
theorem readContent_piece (l : Literal) : ∀ (cs : List Char), ∀ p ∈ (readContent l cs).1,
    p.source ≠ []
  | [] => by
      rw [readContent]
      exact fun p h => absurd h List.not_mem_nil
  | c :: rest => by
      rw [readContent]
      split
      · exact fun p h => absurd h List.not_mem_nil
      split
      · exact fun p h => absurd h List.not_mem_nil
      · exact List.forall_mem_cons.mpr ⟨(piece_source l.escapes c rest).1, readContent_piece l _⟩
termination_by cs => cs.length
decreasing_by simp only [List.length_drop, List.length_cons]; omega

/-- **What the loops inside a step take is there**, on any text. -/
theorem takesWithin (cs : List Char) : TakesWithin cs where
  content l := readContent_isPrefix l cs
  piece l := readContent_piece l cs
  escape style := readEscape_prefix style cs
  codePoints := readCodePoints_prefix cs
  digits p most := digitsUpTo_isPrefix p most cs
  character _ h := characterPiece?_isPrefix h
  number := numberLength_le cs
  afterNumber := skipNumber_suffix cs
  word := readWord_isPrefix cs
  symbol := symbolLength_le cs
  global _ _ h := globalLength?_le h
  document _ h := ⟨documentLength?_pos h, documentLength?_le h⟩
  blank _ h := ⟨(separator_of_blankLength? h).1, (separator_of_blankLength? h).2.1⟩

/-- **The scan of any text stays in it and ends**: in every state that it comes to the offset is in
the text and on a character, a step from there moves forward, and the loop ends; so do the loops
inside a step, which take no more than there is. -/
theorem scan_safe (text : String) :
    (∀ s, Reachable text.toList s →
      s.InRange text.toList ∧
      (∀ s', s.step = .next s' → s.pos < s'.pos ∧ s'.pos ≤ byteLength text.toList) ∧
      ∃ n, n ≤ s.rest.length + 1 ∧ Ends n s s.run) ∧
    ∀ cs, TakesWithin cs :=
  ⟨fun _ h => ⟨h.inRange, fun _ hs => h.pos_lt hs, h.ends⟩, takesWithin⟩

/-- An interpolation in a string, of which a list of code points is cut off. -/
theorem scan_safe_truncated :
    (State.start "\x22#\x7b\x22\\u\x7b4".toList).InRange "\x22#\x7b\x22\\u\x7b4".toList ∧
      ∃ n, n ≤ 9 ∧ Ends n (State.start "\x22#\x7b\x22\\u\x7b4".toList)
        (State.start "\x22#\x7b\x22\\u\x7b4".toList).run := by
  obtain ⟨hrange, -, hends⟩ := (scan_safe "\x22#\x7b\x22\\u\x7b4").1 _ .start
  exact ⟨hrange, hends⟩

end Token.Lexer

end RubySyntax
