/-
  RubySyntax.Proofs.Token.LineEnd
  ───────────────────────────────
  **LINES MAY END WITH A CARRIAGE RETURN AND A NEWLINE.**

  A text has no carriage return, and a carriage return is put before each of its newlines.  The scan
  of the text with returns keeps pace with that of the text without, line by line.  As long as a
  step stays on its line, the texts part at the end of that line, where no look-ahead tells them
  apart.  Four steps come to the end of a line or past it, and each has its counterpart: a newline
  is read after a return as a blank, a backslash hides both, a document comment takes the returns
  of its lines, a line comment takes a return that is no part of its text.  Any other step past a
  newline would be a token that covers it.

      "a\nb"   ⇒   "a\r\nb"        the same kinds and values, the same line comments

  Main results:
    • `Positioned.along_stepLiteral`, `Turn.along` — a step that covers no newline stays on its line,
    • `Aligned.step` — the scans keep pace,
    • `lex_withReturns` — the texts have the same tokens, and comments that correspond.
-/
import Mathlib.Data.List.DropRight
import Mathlib.Data.List.Forall2
import RubySyntax.Proofs.Token.Returns
import RubySyntax.Proofs.Token.Transparent

namespace RubySyntax

open RubySyntax.Text

/-- A comment as it is read when the lines of its text end with carriage returns: a line comment has
the same text, a document has the returns in its text. -/
structure Comment.Returned (c c' : Comment) : Prop where
  isDocument : c'.isDocument = c.isDocument
  text : c'.text = if c.isDocument then String.ofList (withReturns c.text.toList) else c.text

namespace Token

namespace Lexer

variable {text read after : List Char} {s s' s₁ t : State} {n : Nat}

/-! ## §1. Steps on one line. -/

/-- No token but a newline covers a newline of a text. -/
def Inline (text : List Char) (tokens : List Token) : Prop :=
  ∀ t ∈ tokens, t.kind ≠ .tNL → '\n' ∉ slice text t.span.start t.span.stop

theorem Inline.of_suffix {tokens tokens' : List Token} (h : Inline text tokens')
    (hsuffix : tokens <:+ tokens') : Inline text tokens :=
  fun t ht => h t (hsuffix.subset ht)

/-- A state comes after another, with characters of one line between them. -/
def Along (s t : State) : Prop := ∃ line, s.rest = line ++ t.rest ∧ '\n' ∉ line

theorem along_of_oneLine (hline : OneLine s.rest n) (hrest : t.rest = s.rest.drop n) : Along s t :=
  ⟨s.rest.take n, by rw [hrest, List.take_append_drop], hline⟩

theorem Along.trans {u : State} (h : Along s t) (h' : Along t u) : Along s u := by
  obtain ⟨line, hrest, hline⟩ := h
  obtain ⟨line', hrest', hline'⟩ := h'
  refine ⟨line ++ line', by rw [hrest, hrest', List.append_assoc], ?_⟩
  rw [List.mem_append]
  exact not_or.mpr ⟨hline, hline'⟩

/-- A token that is no newline is on one line. -/
theorem Positioned.oneLine (h : Positioned text read s) (hn : n ≤ s.rest.length)
    {tokens : List Token} (hinline : Inline text tokens) {kind : Kind} {value : String}
    (hmem : ⟨kind, value, s.spanOfNext n⟩ ∈ tokens) (hkind : kind ≠ .tNL) : OneLine s.rest n := by
  have hslice := hinline _ hmem hkind
  rwa [(h.isCut_next hn).slice_eq] at hslice

theorem Positioned.along_contentToken (h : Positioned text read s) (l : Literal)
    {tokens : List Token} (hinline : Inline text tokens)
    (htokens : (s.contentToken (readContent l s.rest).1).tokens <:+ tokens) :
    Along s (s.contentToken (readContent l s.rest).1) := by
  have hn := ((takesWithin s.rest).content l).length_le
  revert htokens
  unfold State.contentToken
  dsimp only
  split
  · exact fun _ => ⟨[], rfl, List.not_mem_nil⟩
  · exact fun htokens => along_of_oneLine
      (h.oneLine hn hinline (htokens.subset List.mem_cons_self) nofun) rfl

theorem Positioned.along_closeLiteral (h : Positioned text read s) (l : Literal) {quote : Char}
    {more : List Char} (hrest : s.rest = quote :: more) {tokens : List Token}
    (hinline : Inline text tokens) (htokens : (s.closeLiteral l).tokens <:+ tokens) :
    Along s (s.closeLiteral l) := by
  have hone : 1 ≤ s.rest.length := by rw [hrest, List.length_cons]; omega
  have hclosed : ∀ {value}, (⟨.tSTRING_END, value, s.spanOfNext 1⟩ : Token) ∈ (s.closeLiteral l).tokens →
      OneLine s.rest 1 := fun hmem => h.oneLine hone hinline (htokens.subset hmem) nofun
  revert hclosed
  unfold State.closeLiteral
  dsimp only
  split
  · -- the options come behind the closing quote
    intro hclosed
    have hoptions := (hclosed (List.mem_cons_of_mem _ List.mem_cons_self)).add
      (oneLine_takeWhile (p := isLower) (by decide) (s.rest.drop 1))
    exact along_of_oneLine hoptions List.drop_drop
  · exact fun hclosed => along_of_oneLine (hclosed List.mem_cons_self) rfl

/-- **A step in a literal stays on its line**, if no token of it covers a newline. -/
theorem Positioned.along_stepLiteral (h : Positioned text read s) {l : Literal}
    (hs : s.stepLiteral l = .next s₁) (hinline : Inline text s₁.tokens) :
    Along s s₁ ∧ s₁.comments = s.comments := by
  obtain ⟨_, hcontent⟩ := h.contentToken l
  have hcomments := (suffix_contentToken s (readContent l s.rest).1).2
  cases concludes_of_stepLiteral hs with
  | close hrest =>
      obtain ⟨htokens, hcomments'⟩ := suffix_closeLiteral (s.contentToken (readContent l s.rest).1) l
      refine ⟨(h.along_contentToken l hinline htokens).trans ?_, hcomments'.trans hcomments⟩
      exact hcontent.along_closeLiteral l hrest hinline (List.suffix_refl _)
  | interpolation hrest =>
      refine ⟨(h.along_contentToken l hinline (List.suffix_cons _ _)).trans ?_, hcomments⟩
      refine ⟨['#', '\x7b'], ?_, by decide⟩
      show _ = _ ++ (State.contentToken s _).rest.drop 2
      rw [hrest]
      rfl

/-- A token in code stays on its line, unless it is a newline or covers one. -/
theorem Emits.along (h : Emits s s₁) (hpositioned : Positioned text read s)
    (hinline : Inline text s₁.tokens) (hhead : s.rest.head? ≠ some '\n') :
    Along s s₁ ∧ s₁.comments = s.comments := by
  obtain ⟨kind, n, value, hn, hshift, hrest, htokens, hcomments, -⟩ := h.exists_token
  have hkind : kind ≠ .tNL := by
    rintro rfl
    generalize hnl : Kind.tNL = kind at hshift
    cases hshift with
    | keep hkind | openBracket hkind | closeBracket hkind =>
        subst hnl
        cases hkind
    | newline hnewline => exact hhead hnewline
    | openLiteral l =>
        obtain ⟨form, _⟩ := l
        cases form <;> cases hnl
    | resume => cases hnl
  have hmem : ⟨kind, value, s.spanOfNext n⟩ ∈ s₁.tokens := htokens ▸ List.mem_cons_self
  exact ⟨along_of_oneLine (hpositioned.oneLine hn.le hinline hmem hkind) hrest, hcomments⟩

/-- **A step in code stays on its line**, if it covers no newline, unless it is a comment or begins
with a newline, or with a backslash before one. -/
theorem Turn.along (h : Turn s s₁) (hpositioned : Positioned text read s) (hplain : '\r' ∉ s.rest)
    (hinline : Inline text s₁.tokens) (hhead : s.rest.head? ≠ some '\n') :
    (Along s s₁ ∧ s₁.comments = s.comments) ∨
      (s.rest.head? = some '#' ∧ s₁ = s.lineComment) ∨
      (s.atLineStart = true ∧ s.atDocument = true ∧
        ∃ n, documentLength? s.rest = some n ∧ s₁ = s.comment n (s.rest.take n)) ∨
      ∃ after, s.rest = '\\' :: '\n' :: after ∧ s₁ = s.blank 2 := by
  -- a comment, of a line or a document, is recorded, and a backslash may hide a newline; every other
  -- reading stays along the line
  cases h with
  | token hemits => exact .inl (hemits.along hpositioned hinline hhead)
  | @character n hn _ value =>
      have hline := hpositioned.oneLine hn.le hinline (List.mem_cons_self :
        (⟨.tCHARACTER, String.ofList value, s.spanOfNext n⟩ : Token) ∈ _) nofun
      exact .inl ⟨along_of_oneLine hline rfl, rfl⟩
  | lineComment hmark => exact .inr (.inl ⟨hmark, rfl⟩)
  | document hstart hat hn => exact .inr (.inr (.inl ⟨hstart, hat, _, hn, rfl⟩))
  | @blank n hn hblank =>
      generalize htake : s.rest.take n = lexeme at hblank
      have hlength : n = lexeme.length := by rw [← htake, List.length_take_of_le hn.le]
      have hsplit : s.rest = lexeme ++ s.rest.drop n := by rw [← htake, List.take_append_drop]
      cases hblank with
      | @space c hc =>
          refine .inl ⟨along_of_oneLine (n := n) ?_ rfl, rfl⟩
          rw [OneLine, htake, List.mem_singleton]
          rintro rfl
          exact hhead (by rw [hsplit]; rfl)
      | hidden =>
          subst hlength
          exact .inr (.inr (.inr ⟨_, hsplit, rfl⟩))
      | hiddenReturn => exact absurd (hsplit ▸ by simp) hplain
  | reject _ _ hline => exact .inl ⟨along_of_oneLine (hline hhead) rfl, rfl⟩

/-! ## §2. States that keep pace. -/

/-- At a place there are the same tokens and open literals as in a state, and comments that
correspond. -/
structure Place.Pairs (k : Place) (s : State) : Prop extends k.Matches 0 s where
  texts : List.Forall₂ Comment.Returned s.comments k.comments

/-- Two states are the same but for their places, and the second one reads with returns what the
first one reads without.  Behind a line comment it has read the return already. -/
def Aligned (s s' : State) : Prop :=
  ∃ k : Place, s' = s.moved k ∧ k.Pairs s ∧
    (k.rest = withReturns s.rest ∨ (∀ l modes, s.modes ≠ .literal l :: modes) ∧
      ∃ after, s.rest = '\n' :: after ∧ k.rest = '\n' :: withReturns after)

variable {k : Place} {X : List Char}

theorem aligned_start (text : List Char) :
    Aligned (State.start text) (State.start (withReturns text)) :=
  ⟨(State.start (withReturns text)).place, rfl, ⟨⟨rfl, rfl, rfl⟩, .nil⟩, .inl rfl⟩

theorem Aligned.nesting (h : Aligned s s') : s'.depth + s'.blocks = s.depth + s.blocks := by
  obtain ⟨k, rfl, -⟩ := h
  rfl

theorem Alike.aligned {Y : List Char} (h : Alike X Y 0 s s')
    (htexts : List.Forall₂ Comment.Returned s.comments s'.comments)
    (hrest : s'.rest = withReturns s.rest) : Aligned s s' := by
  obtain ⟨k, rfl, hk, -⟩ := h
  exact ⟨k, rfl, ⟨hk, htexts⟩, .inl hrest⟩

/-- No blank is read ahead of a return. -/
theorem Abreast.alike_withReturns (h : Abreast X (withReturns X) 0 s s')
    (hX : X = [] ∨ ∃ more, X = '\n' :: more) : Alike X (withReturns X) 0 s s' := by
  obtain ⟨k, rfl, hk, hnear | ⟨-, hblank⟩⟩ := h
  · exact ⟨k, rfl, hk, hnear⟩
  · rcases hX with rfl | ⟨more, rfl⟩ <;> cases hblank

/-! ## §3. Comments and newlines. -/

theorem rest_newline (s : State) : s.newline.rest = s.rest.drop 1 := by
  unfold State.newline
  split <;> rfl

theorem comments_newline (s : State) : s.newline.comments = s.comments := by
  unfold State.newline
  split <;> rfl

/-- **A newline**, before which a return is read as a blank, unless a comment has taken it. -/
theorem Aligned.newline (h : Aligned s s') (hcode : ∀ l modes, s.modes ≠ .literal l :: modes)
    (hrest : s.rest = '\n' :: after) (hflat : s.depth + s.blocks ≤ maxNesting) :
    ∃ t, Leads s' t ∧ Aligned s.newline t := by
  -- where the other run stands before a carriage return, it reads that as a blank first
  obtain ⟨t, k, hleads, hbeside, hk, htexts⟩ : ∃ t k, Leads s' t ∧ Beside 0 s k t ∧
      k.rest = '\n' :: withReturns after ∧ List.Forall₂ Comment.Returned s.comments k.comments := by
    obtain ⟨k, rfl, hk, hreturn | ⟨-, after', hafter, hread⟩⟩ := h
    · rw [hrest, withReturns_newline] at hreturn
      have hstep : (s.moved k).step = .next ((s.moved k).blank 1) := by
        rw [step_of_cons (hk.code hcode) hreturn (by decide)]
        rfl
      have hblank : ((s.moved k).blank 1).rest = '\n' :: withReturns after := by
        show k.rest.drop 1 = _
        rw [hreturn]
        rfl
      exact ⟨_, ((s.moved k).blank 1).place, (Leads.refl _).step hstep hflat,
        ⟨⟨hk.modes, hk.tokens, hk.comments⟩, true, State.atLineStart _, rfl⟩, hblank, hk.texts⟩
    · cases hafter.symm.trans hrest
      exact ⟨_, k, .refl _, ⟨hk.toMatches, s.spaced, s.atLineStart, rfl⟩, hread, hk.texts⟩
  obtain ⟨line, X, rfl, hline, hX⟩ := exists_line after
  have halike := hbeside.alike_newline hrest hk (blurred_withReturns hline hX)
  have hstep := step_newline (hbeside.code hcode) (hbeside.rest.trans hk)
  refine ⟨t.newline, hleads.step hstep ?_, halike.aligned ?_ ?_⟩
  · rw [halike.abreast.nesting, nesting_newline]
    exact hflat
  · rw [comments_newline, comments_newline]
    obtain ⟨-, _, _, rfl⟩ := hbeside
    exact htexts
  · rw [rest_newline, rest_newline, hbeside.rest, hk, hrest]
    rfl

/-- A document comment is read where the program does not end. -/
theorem step_document (hcode : ∀ l modes, s.modes ≠ .literal l :: modes)
    (hstart : s.atLineStart = true) (hat : s.atDocument = true)
    (hn : documentLength? s.rest = some n) : s.step = .next (s.comment n (s.rest.take n)) := by
  have hmarker : s.atEndMarker = false := by
    obtain ⟨more, hmore⟩ := List.isPrefixOf_iff_prefix.mp ((Bool.and_eq_true _ _).mp hat).1
    rw [State.atEndMarker, State.sees, ← hmore]
    rfl
  unfold State.step
  split
  next l modes hmodes => exact absurd hmodes (hcode l modes)
  next =>
    unfold State.stepCode
    rw [hmarker, hat, hn, hstart]
    rfl

/-- Comments that correspond. -/
theorem Place.Pairs.comment (hk : k.Pairs s) {n n' : Nat} {content content' : List Char}
    (hstart : ((s.moved k).advance n').atLineStart = (s.advance n).atLineStart)
    (hreturned : Comment.Returned ⟨String.ofList content, s.spanOfNext n⟩
      ⟨String.ofList content', (s.moved k).spanOfNext n'⟩)
    (hrest : k.rest.drop n' = withReturns (s.rest.drop n) ∨
      (∀ l modes, s.modes ≠ .literal l :: modes) ∧
        ∃ after, s.rest.drop n = '\n' :: after ∧ k.rest.drop n' = '\n' :: withReturns after) :
    Aligned (s.comment n content) ((s.moved k).comment n' content') := by
  have hstart : ((k.rest.take n').getLast?.map (· == '\n')).getD s.atLineStart =
      ((s.rest.take n).getLast?.map (· == '\n')).getD s.atLineStart := hstart
  refine ⟨((s.moved k).comment n' content').place, ?_,
    ⟨⟨hk.modes, hk.tokens, congrArg (· + 1) hk.comments⟩, .cons hreturned hk.texts⟩, hrest⟩
  simp only [State.comment, State.advance, State.moved, State.place, hstart]

theorem isDocument_ofList (content : List Char) (span : Span) :
    (⟨String.ofList content, span⟩ : Comment).isDocument = "=begin".toList.isPrefixOf content :=
  congrArg ("=begin".toList.isPrefixOf ·) String.toList_ofList

/-- A document is a document with returns too. -/
theorem returned_document {content : List Char} (hat : "=begin".toList.isPrefixOf content = true)
    (span span' : Span) :
    Comment.Returned ⟨String.ofList content, span⟩ ⟨String.ofList (withReturns content), span'⟩ := by
  obtain ⟨line, after, rfl, hline, hafter⟩ := exists_line content
  refine ⟨?_, ?_⟩
  · rw [isDocument_ofList, isDocument_ofList,
      (blurred_withReturns hline hafter).isPrefixOf (by decide)]
  · rw [isDocument_ofList, if_pos hat, String.toList_ofList]

/-- A line comment begins with its mark, whatever is dropped from its end. -/
theorem not_isDocument_lineComment {line rest : List Char} (hline : line <+: '#' :: rest)
    (span : Span) : (⟨String.ofList (dropReturns line), span⟩ : Comment).isDocument = false := by
  rw [isDocument_ofList, Bool.eq_false_iff]
  intro hmark
  rw [List.isPrefixOf_iff_prefix] at hmark
  obtain ⟨after, hafter⟩ := (hmark.trans (List.rdropWhile_prefix _ _)).trans hline
  cases hafter

theorem returned_lineComment {line line' rest : List Char} (hline : line <+: '#' :: rest)
    (h : dropReturns line' = dropReturns line) (span span' : Span) :
    Comment.Returned ⟨String.ofList (dropReturns line), span⟩
      ⟨String.ofList (dropReturns line'), span'⟩ := by
  have hdocument := not_isDocument_lineComment hline
  rw [h]
  exact ⟨(hdocument span').trans (hdocument span).symm, by rw [hdocument]; rfl⟩

/-- The first line takes the return at its end, which is dropped from its text; what follows is the
same newline, or nothing. -/
theorem takeWhile_withReturns (cs : List Char) :
    dropReturns ((withReturns cs).takeWhile (· != '\n')) =
        dropReturns (cs.takeWhile (· != '\n')) ∧
      ((withReturns cs).drop ((withReturns cs).takeWhile (· != '\n')).length =
          withReturns (cs.drop (cs.takeWhile (· != '\n')).length) ∨
        ∃ after, cs.drop (cs.takeWhile (· != '\n')).length = '\n' :: after ∧
          (withReturns cs).drop ((withReturns cs).takeWhile (· != '\n')).length =
            '\n' :: withReturns after) := by
  -- the first line is the whole text, or ends at a newline that gains a carriage return
  obtain ⟨line, after, rfl, hline, rfl | ⟨after, rfl⟩⟩ := exists_line cs
  · have hwhole : line.takeWhile (· != '\n') = line :=
      List.takeWhile_eq_self_iff.mpr fun c hc => bne_iff_ne.mpr fun heq => hline (heq ▸ hc)
    rw [List.append_nil, withReturns_line hline, hwhole, List.drop_length]
    exact ⟨rfl, .inl rfl⟩
  · have hreturn : '\n' ∉ line ++ ['\r'] := by
      rw [List.mem_append]
      exact not_or.mpr ⟨hline, by decide⟩
    have hread : withReturns (line ++ '\n' :: after) =
        (line ++ ['\r']) ++ '\n' :: withReturns after := by
      rw [withReturns_append, withReturns_line hline, withReturns_newline, List.append_assoc]
      rfl
    rw [hread, takeWhile_line hline, takeWhile_line hreturn, List.drop_left, List.drop_left]
    exact ⟨dropReturns_snoc line, .inr ⟨after, rfl, rfl⟩⟩

/-! ## §4. Steps and their counterparts. -/

section Counterparts

variable (hk : k.Pairs s) (hrest : k.rest = withReturns s.rest)
include hk hrest

/-- The texts part at the end of the line. -/
theorem Place.Pairs.alike : ∃ line X, s.rest = line ++ X ∧ '\n' ∉ line ∧
    (X = [] ∨ ∃ more, X = '\n' :: more) ∧ Alike X (withReturns X) 0 s (s.moved k) := by
  obtain ⟨line, X, hsplit, hline, hX⟩ := exists_line s.rest
  refine ⟨line, X, hsplit, hline, hX, k, rfl, hk.toMatches, ?_⟩
  rw [hrest, hsplit]
  exact blurred_withReturns hline hX

/-- **A step that stays on its line** has its counterpart. -/
theorem Place.Pairs.step_along (hs : s.step = .next s₁) (halong : Along s s₁)
    (hless : s₁.rest.length < s.rest.length) (hcomments : s₁.comments = s.comments) :
    ∃ s₁', (s.moved k).step = .next s₁' ∧ Aligned s₁ s₁' := by
  obtain ⟨line, X, hsplit, hline, hX, h⟩ := hk.alike hrest
  obtain ⟨start, hstart, hstart'⟩ := halong
  have hlength : X.length ≤ s₁.rest.length := by
    have hbefore := h.blurred.before_of_line (oneLine_of_isPrefix ⟨_, hstart.symm⟩ hstart')
      (List.IsPrefix.length_le ⟨_, hstart.symm⟩)
    rwa [hstart, List.drop_left] at hbefore
  have hends : s₁ = s.lineComment → s₁.rest = X → X = [] := fun hmark _ => by
    have hlonger := congrArg List.length (hmark ▸ hcomments)
    exact absurd hlonger (Nat.succ_ne_self _)
  obtain ⟨s₁', hs', habreast⟩ := h.step hs (by omega) hlength hends
  have halike := habreast.alike_withReturns hX
  -- neither step reads a comment
  have hcomments' : s₁'.comments = k.comments := by
    have hsuffix := (suffix_of_step hs').2
    refine (hsuffix.eq_of_length ?_).symm
    obtain ⟨k', rfl, hk', -⟩ := halike
    show k.comments.length = k'.comments.length
    rw [hk'.comments, hcomments, hk.comments]
  refine ⟨s₁', hs', halike.aligned ?_ ?_⟩
  · rw [hcomments, hcomments']
    exact hk.texts
  · exact halike.blurred.eq_withReturns hline ⟨start, by rw [← hstart, hsplit]⟩

variable (hcode : ∀ l modes, s.modes ≠ .literal l :: modes)
include hcode

/-- **A backslash hides a newline**, and the return before it. -/
theorem Place.Pairs.step_hidden (hafter : s.rest = '\\' :: '\n' :: after) :
    ∃ s₁', (s.moved k).step = .next s₁' ∧ Aligned (s.blank 2) s₁' := by
  rw [hafter, withReturns_cons (by decide), withReturns_newline] at hrest
  have hstep : (s.moved k).step = .next ((s.moved k).blank 3) := by
    rw [step_of_cons (hk.code hcode) hrest (by decide)]
    rfl
  refine ⟨_, hstep, ((s.moved k).blank 3).place, ?_,
    ⟨⟨hk.modes, hk.tokens, hk.comments⟩, hk.texts⟩, .inl ?_⟩
  · -- both begin a line
    have hrest' : (s.moved k).rest = k.rest := rfl
    simp only [State.blank, State.advance, hafter, hrest', hrest]
    rfl
  · show k.rest.drop 3 = withReturns (s.rest.drop 2)
    rw [hafter, hrest]
    rfl

/-- **A document comment** takes the same lines, and the returns at their ends. -/
theorem Place.Pairs.step_document (hstart : s.atLineStart = true) (hat : s.atDocument = true)
    (hn : documentLength? s.rest = some n) :
    ∃ s₁', (s.moved k).step = .next s₁' ∧ Aligned (s.comment n (s.rest.take n)) s₁' := by
  obtain ⟨line, X, -, -, -, halike⟩ := hk.alike hrest
  have hn' := documentLength?_withReturns hn
  have hlines := withReturns_take_drop s.rest n
  rw [← hrest] at hn' hlines
  have htake : k.rest.take (withReturns (s.rest.take n)).length = withReturns (s.rest.take n) := by
    rw [hlines, List.take_left]
  have hdrop : k.rest.drop (withReturns (s.rest.take n)).length = withReturns (s.rest.drop n) := by
    conv_lhs => rw [hlines, List.drop_left]
  have hstep := Lexer.step_document (s := s.moved k) (hk.code hcode) hstart
    (halike.atDocument.trans hat) hn'
  -- the document goes on behind its mark
  have hsees : "=begin".toList.isPrefixOf s.rest = true := ((Bool.and_eq_true _ _).mp hat).1
  have hmark : "=begin".toList.isPrefixOf (s.rest.take n) = true := by
    have hsix : 6 ≤ n := Nat.le_of_not_lt fun hless =>
      (oneLine_of_isPrefixOf (by decide) hsees).mono (Nat.le_of_lt hless)
        (newline_mem_of_documentLength? hn)
    rw [List.isPrefixOf_iff_prefix] at hsees ⊢
    exact List.prefix_take_iff.mpr ⟨hsees, hsix⟩
  have hreturned := returned_document hmark (s.spanOfNext n)
  rw [← htake] at hreturned
  refine ⟨_, hstep, hk.comment ?_ (hreturned _) (.inl hdrop)⟩
  show ((k.rest.take _).getLast?.map _).getD _ = _
  rw [htake, getLast?_withReturns]
  rfl

/-- **A line comment** is the same, and takes the return at the end of its line. -/
theorem Place.Pairs.step_lineComment (hmark : s.rest.head? = some '#') :
    ∃ s₁', (s.moved k).step = .next s₁' ∧ Aligned s.lineComment s₁' := by
  obtain ⟨more, hmore⟩ := List.head?_eq_some_iff.mp hmark
  have hstep : (s.moved k).step = .next (s.moved k).lineComment := by
    have hrest' : (s.moved k).rest = '#' :: withReturns more := by
      rw [← withReturns_cons (by decide), ← hmore]
      exact hrest
    rw [step_of_cons (hk.code hcode) hrest' (by decide)]
    rfl
  refine ⟨_, hstep, ?_⟩
  -- neither comment ends at the beginning of a line
  have hstart : ∀ u : State, u.rest.head? = some '#' →
      (u.advance (u.rest.takeWhile (· != '\n')).length).atLineStart = false := by
    intro u hu
    have hoffers := offers_lineComment hu
    exact atLineStart_advance (oneLine_takeWhile (by decide) _) hoffers.pos hoffers.ne_nil
  have hmark' : (s.moved k).rest.head? = some '#' := by
    show k.rest.head? = some '#'
    rw [hrest, hmore]
    rfl
  obtain ⟨hsame, hafter⟩ := takeWhile_withReturns s.rest
  rw [← hrest] at hsame hafter
  have hline : s.rest.takeWhile (· != '\n') <+: '#' :: more := hmore ▸ List.takeWhile_prefix _
  exact hk.comment ((hstart _ hmark').trans (hstart s hmark).symm)
    (returned_lineComment hline hsame _ _) (hafter.imp_right fun hnewline => ⟨hcode, hnewline⟩)

end Counterparts

/-! ## §5. The whole text. -/

/-- **A step has its counterpart**, if no token that it reads covers a newline. -/
theorem Aligned.step (h : Aligned s s') (hplain : '\r' ∉ text) (hreachable : Reachable text s)
    (hs : s.step = .next s₁) (hinline : Inline text s₁.tokens)
    (hflat : s.depth + s.blocks ≤ maxNesting) (hflat₁ : s₁.depth + s₁.blocks ≤ maxNesting) :
    ∃ s₁', Leads s' s₁' ∧ Aligned s₁ s₁' := by
  obtain ⟨read, hread⟩ := hreachable.positioned
  have hless := (hreachable.scanned.next hs).2
  have hplain' : '\r' ∉ s.rest := fun hmem =>
    hplain (hread.text_eq ▸ List.mem_append_right read hmem)
  -- one step of the second scan
  have hone : ∀ {s'}, (∃ s₁', s'.step = .next s₁' ∧ Aligned s₁ s₁') →
      ∃ s₁', Leads s' s₁' ∧ Aligned s₁ s₁' := by
    rintro s' ⟨s₁', hs', h⟩
    exact ⟨s₁', (Leads.refl s').step hs' (h.nesting ▸ hflat₁), h⟩
  by_cases hliteral : ∃ l modes, s.modes = .literal l :: modes
  · obtain ⟨l, modes, hmodes⟩ := hliteral
    obtain ⟨k, rfl, hk, hrest | ⟨hcode, -⟩⟩ := h
    · have hs' := hs
      unfold State.step at hs'
      rw [hmodes] at hs'
      obtain ⟨halong, hcomments⟩ := hread.along_stepLiteral hs' hinline
      exact hone (hk.step_along hrest hs halong hless hcomments)
    · exact absurd hmodes (hcode l modes)
  have hcode : ∀ l modes, s.modes ≠ .literal l :: modes :=
    fun l modes hmodes => hliteral ⟨l, modes, hmodes⟩
  by_cases hhead : s.rest.head? = some '\n'
  · obtain ⟨after, hafter⟩ := List.head?_eq_some_iff.mp hhead
    cases (step_newline hcode hafter).symm.trans hs
    exact h.newline hcode hafter hflat
  obtain ⟨k, rfl, hk, hrest | ⟨-, after, hafter, -⟩⟩ := h
  · have hs' : s.stepCode = .next s₁ := by
      unfold State.step at hs
      split at hs
      next l modes hmodes => exact absurd hmodes (hcode l modes)
      next => exact hs
    rcases (turn_stepCode hs').along hread hplain' hinline hhead with
      ⟨halong, hcomments⟩ | ⟨hmark, rfl⟩ | ⟨hstart, hat, n, hn, rfl⟩ | ⟨after, hafter, rfl⟩
    · exact hone (hk.step_along hrest hs halong hless hcomments)
    · exact hone (hk.step_lineComment hrest hcode hmark)
    · exact hone (hk.step_document hrest hcode hstart hat hn)
    · exact hone (hk.step_hidden hrest hcode hafter)
  · exact absurd (by rw [hafter]; rfl) hhead

/-- The end of the program is seen behind carriage returns too. -/
theorem Aligned.finish (h : Aligned s s') (hplain : '\r' ∉ s.rest) (hmodes : s.modes = [])
    (hs : s.step = .finish s) : s'.step = .finish s' ∧ s'.modes = [] := by
  obtain ⟨k, rfl, hk, hrest | ⟨hcode, after, hafter, -⟩⟩ := h
  · have hmodes' : k.modes = [] := by
      have hshapes := hk.modes
      rwa [hmodes, List.map_nil, List.map_eq_nil_iff] at hshapes
    refine ⟨?_, hmodes'⟩
    -- a run finishes in code at the end of the text or at the end marker
    rcases (atEnd_of_step hs).2 with hnil | ⟨hstart, hmarker⟩
    · rw [hnil] at hrest
      exact step_of_rest_eq_nil hrest hmodes'
    · have hmarker' : (s.moved k).atEndMarker = true := by
        obtain ⟨more, hmore, hend⟩ := eq_append_of_atEndMarker hmarker
        have hread : (s.moved k).rest = "__END__".toList ++ withReturns more := by
          show k.rest = _
          rw [hrest, hmore, withReturns_append]
          rfl
        unfold State.atEndMarker State.sees
        rw [hread]
        rcases hend with rfl | ⟨after, rfl⟩ | ⟨after, rfl⟩
        · rfl
        · rfl
        · exact absurd (by simp [hmore]) hplain
      have hstep : (s.moved k).step = (s.moved k).stepCode := by
        unfold State.step
        rw [show (s.moved k).modes = [] from hmodes']
      rw [hstep, State.stepCode, hmarker', show (s.moved k).atLineStart = true from hstart]
      rfl
  · cases (step_newline hcode hafter).symm.trans hs

/-- **The scans end alike.** -/
theorem Aligned.ends {n : Nat} {e : State} (hends : Ends n s (.finish e)) (hmodes : e.modes = [])
    (hplain : '\r' ∉ text) (hinline : Inline text e.tokens) (hreachable : Reachable text s)
    (hflat : s.depth + s.blocks ≤ maxNesting) (h : Aligned s s') :
    ∃ n' e', Ends n' s' (.finish e') ∧ Aligned e e' ∧ e'.modes = [] := by
  generalize hfinish : Step.finish e = ended at hends
  induction hends generalizing s' with
  | @stop s hs =>
      have hstep := hfinish.symm
      obtain ⟨rfl, -⟩ := atEnd_of_step hstep
      obtain ⟨read, hread⟩ := hreachable.positioned
      have hplain' : '\r' ∉ e.rest := fun hmem =>
        hplain (hread.text_eq ▸ List.mem_append_right read hmem)
      obtain ⟨hstep', hmodes'⟩ := h.finish hplain' hmodes hstep
      refine ⟨1, s', ?_, h, hmodes'⟩
      rw [← hstep']
      exact .stop fun s₁ hs₁ => nomatch hstep'.symm.trans hs₁
  | deep => cases hfinish
  | next hs hflat₁ hends ih =>
      subst hfinish
      have hinline₁ := hinline.of_suffix hends.suffix.1
      obtain ⟨s₁', hleads, h₁⟩ := h.step hplain hreachable hs hinline₁ hflat hflat₁
      obtain ⟨n', e', hends', he⟩ := ih (hreachable.step hs) hflat₁ h₁ rfl
      obtain ⟨m, hm⟩ := hleads n' _ hends'
      exact ⟨m, e', hm, he⟩

end Lexer

open Lexer

/-- **Lines may end with a carriage return and a newline.**  Where a text without carriage returns can
be split into tokens, and no token but a newline covers a newline of it, the text with a return
before each newline can be split into tokens of the same kinds and values.  The comments correspond
one to one: line comments have the same text, and documents have the returns in theirs. -/
theorem lex_withReturns {text : String} {lexed : Lexed} (hplain : '\r' ∉ text.toList)
    (h : (lex text).1 = .ok lexed)
    (hinline : ∀ t ∈ lexed.tokens, t.kind ≠ .tNL → '\n' ∉ (t.span.source text).toList) :
    ∃ lexed', (lex (String.ofList (withReturns text.toList))).1 = .ok lexed' ∧
      lexed'.tokens.map Token.pair = lexed.tokens.map Token.pair ∧
      List.Forall₂ Comment.Returned lexed.comments lexed'.comments := by
  obtain ⟨n, e, hends, hmodes, rfl⟩ := ends_of_lex h
  have hcovers : Inline text.toList e.tokens := by
    intro t ht hkind
    have hsource := hinline t (List.mem_reverse.mpr ht) hkind
    rwa [Span.source, String.toList_ofList] at hsource
  obtain ⟨n', e', hends', ⟨k, rfl, hk, -⟩, hmodes'⟩ :=
    (aligned_start text.toList).ends hends hmodes hplain hcovers .start (Nat.zero_le _)
  rw [← String.toList_ofList (l := withReturns text.toList)] at hends'
  refine ⟨_, congrArg Prod.fst (lex_of_ends hends' hmodes'), ?_, ?_⟩
  · show k.tokens.reverse.map Token.pair = e.tokens.reverse.map Token.pair
    rw [List.map_reverse, List.map_reverse, hk.tokens]
  · exact List.forall₂_reverse_iff.mpr hk.texts

/-- A hidden newline, both kinds of comments and the end of the program. -/
theorem lex_withReturns_comments : ∃ lexed lexed',
    (lex "f \\\n1 # a\n=begin\n=end\n__END__\n").1 = .ok lexed ∧
      (lex "f \\\r\n1 # a\r\n=begin\r\n=end\r\n__END__\r\n").1 = .ok lexed' ∧
      lexed'.tokens.map Token.pair = lexed.tokens.map Token.pair ∧
      List.Forall₂ Comment.Returned lexed.comments lexed'.comments := by
  have hlex : (lex "f \\\n1 # a\n=begin\n=end\n__END__\n").1.toOption.any (fun lexed =>
      lexed.tokens.all fun t => t.kind == .tNL ||
        !(t.span.source "f \\\n1 # a\n=begin\n=end\n__END__\n").toList.contains '\n') = true := by
    decide +kernel
  have hreturns : String.ofList (withReturns "f \\\n1 # a\n=begin\n=end\n__END__\n".toList) =
      "f \\\r\n1 # a\r\n=begin\r\n=end\r\n__END__\r\n" := by decide +kernel
  cases h : (lex "f \\\n1 # a\n=begin\n=end\n__END__\n").1 with
  | error abort =>
      rw [h] at hlex
      cases hlex
  | ok lexed =>
      rw [h] at hlex
      have hinline : ∀ t ∈ lexed.tokens, t.kind ≠ .tNL →
          '\n' ∉ (t.span.source "f \\\n1 # a\n=begin\n=end\n__END__\n").toList := by
        intro t ht hkind
        simpa [hkind] using List.all_eq_true.mp hlex t ht
      obtain ⟨lexed', hlexed', hsame⟩ := lex_withReturns (by decide +kernel) h hinline
      rw [hreturns] at hlexed'
      exact ⟨lexed, lexed', rfl, hlexed', hsame⟩

end Token

end RubySyntax
