/-
  RubySyntax.Proofs.Token.Transparent
  ───────────────────────────────────
  **A COMMENT CHANGES NO TOKEN.**

  At the end of a line of code, before its newline, a blank and a comment are inserted.  The scan of
  the longer text keeps pace with that of the shorter one up to there, then reads the blank and
  the comment, and both read the newline; from there on the texts are the same, and only the
  offsets differ.

      before ++ "\n" ++ after        before ++ " #" ++ c ++ "\n" ++ after

  Main results:
    • `Alike.step` — states that are alike step to states that are abreast, up to the place,
    • `Alike.ends` — scans of the same text end alike,
    • `lex_insert_comment` — the texts have the same tokens, and the longer one has one comment more.
-/
import RubySyntax.Proofs.Token.Alike
import RubySyntax.Proofs.Token.Position

namespace RubySyntax.Token

namespace Lexer

open RubySyntax.Text

variable {X Y : List Char} {d : Nat} {s s' s₁ : State}

/-! ## §1. Steps in code. -/

/-- Before the place the next character is the same. -/
theorem Blurred.exists_cons {r r' : List Char} (h : Blurred X Y r r') (hlt : X.length < r.length) :
    ∃ c t t', r = c :: t ∧ r' = c :: t' ∧ Blurred X Y t t' := by
  cases h with
  | ends => exact absurd hlt (Nat.lt_irrefl _)
  | cons c h => exact ⟨c, _, _, rfl, rfl, h⟩

/-- A line that ends before the place is the same. -/
theorem Blurred.takeWhile_line {r r' : List Char} (h : Blurred X Y r r')
    (hbefore : X.length < (r.drop (r.takeWhile (· != '\n')).length).length) :
    r'.takeWhile (· != '\n') = r.takeWhile (· != '\n') := by
  induction h with
  | ends =>
      rw [List.length_drop] at hbefore
      omega
  | cons c h ih =>
      rw [List.takeWhile_cons] at hbefore
      rw [List.takeWhile_cons, List.takeWhile_cons]
      split
      next hc =>
        rw [if_pos hc, List.length_cons, List.drop_succ_cons] at hbefore
        rw [ih hbefore]
      next => rfl

/-- The place is where as many characters are left as in the end. -/
theorem Blurred.lt_length {r r' : List Char} (h : Blurred X Y r r') (hne : r ≠ X) :
    X.length < r.length := by
  induction h with
  | ends => exact absurd rfl hne
  | @cons c r r' h ih =>
      rw [List.length_cons]
      by_cases hr : r = X
      · rw [hr]
        exact Nat.lt_succ_self _
      · exact Nat.lt_succ_of_lt (ih hr)

/-- There the other text is at its place too. -/
theorem Blurred.eq_of_eq {r r' : List Char} (h : Blurred X Y r r') (hr : r = X) : r' = Y := by
  cases h with
  | ends => rfl
  | @cons c r r' h =>
      have hlength := h.before_of_line (oneLine_zero r) (Nat.zero_le _)
      rw [List.drop_zero, ← hr, List.length_cons] at hlength
      omega

/-- Texts that do not part are the same. -/
theorem Blurred.eq {r r' : List Char} (h : Blurred [] Y r r') : r' = r := by
  induction h with
  | ends hv =>
      cases hv
      rfl
  | cons c _ ih => rw [ih]

theorem blurred_append (hv : Veiled X Y) (before : List Char) :
    Blurred X Y (before ++ X) (before ++ Y) := by
  induction before with
  | nil => exact .ends hv
  | cons c before ih => exact .cons c ih

/-- The mark that ends the program is not seen where it is not. -/
theorem Alike.atEndMarker (h : Alike X Y d s s') (hmarker : s'.atEndMarker = true) :
    s.atEndMarker = true := by
  unfold State.atEndMarker at hmarker ⊢
  rw [h.sees _ (by decide), Bool.and_eq_true] at hmarker
  obtain ⟨hsees, hmarker⟩ := hmarker
  have hbehind := h.behind_spelling (by decide) hsees
  rw [show "__END__".length = 7 from rfl] at hbehind
  rw [hsees, Bool.true_and]
  generalize s.rest.drop 7 = r, s'.rest.drop 7 = r' at hbehind hmarker
  cases hbehind with
  | ends hv =>
      cases hv with
      | nothing => rfl
      | comment | returns => rfl
  | cons c h =>
      by_cases hline : c = '\n'
      · subst hline
        rfl
      by_cases hreturn : c = '\r'
      · subst hreturn
        cases h with
        | ends hv =>
            cases hv with
            | nothing => exact hmarker
            | comment | returns => rfl
        | cons e h =>
            by_cases he : e = '\n'
            · subst he
              rfl
            · simp [he] at hmarker
      · simp [hline, hreturn] at hmarker

theorem Alike.atDocument (h : Alike X Y d s s') : s'.atDocument = s.atDocument := by
  unfold State.atDocument
  rw [h.sees _ (by decide)]
  cases hsees : s.sees "=begin" with
  | false => rfl
  | true =>
      have hbehind := h.behind_spelling (by decide) hsees
      rw [show "=begin".length = 6 from rfl] at hbehind
      rw [hbehind.atSpace]

/-- A comment that ends before the place. -/
theorem follows_lineComment (h : Alike X Y d s s')
    (hends : s.lineComment.rest = X → X = []) :
    Follows X Y d s.lineComment s'.lineComment := by
  intro hlength
  have hsame : s'.rest.takeWhile (· != '\n') = s.rest.takeWhile (· != '\n') := by
    by_cases hrest : s.lineComment.rest = X
    · have hX := hends hrest
      subst hX
      rw [h.blurred.eq]
    · exact h.blurred.takeWhile_line ((h.blurred.drop hlength).lt_length hrest)
  unfold State.lineComment at hlength ⊢
  rw [hsame]
  exact (h.comment hlength _ _).abreast

/-- A blank, or any other piece of code. -/
theorem Alike.stepPiece (h : Alike X Y d s s') {c : Char} {r r' : List Char} (hr : s.rest = c :: r)
    (hr' : s'.rest = c :: r') (hbehind : Blurred X Y r r')
    (hs : (match State.blankLength? (c :: r) with
      | some n => Step.next (s.blank n)
      | none => .next (s.token c)) = .next s₁)
    (hlength : X.length ≤ s₁.rest.length) (hends : s₁ = s.lineComment → s₁.rest = X → X = []) :
    ∃ s₁', (match State.blankLength? (c :: r') with
      | some n => Step.next (s'.blank n)
      | none => .next (s'.token c)) = .next s₁' ∧ Abreast X Y d s₁ s₁' := by
  have hblank : ∀ n, State.blankLength? (c :: r) = some n →
      X.length ≤ ((c :: r).drop n).length := by
    intro n hn
    rw [hn] at hs
    cases hs
    rw [← hr]
    exact hlength
  rw [hbehind.blankLength? c hblank]
  cases hn : State.blankLength? (c :: r) with
  | some n =>
      rw [hn] at hs
      cases hs
      exact ⟨_, rfl, follows_blank h n hlength⟩
  | none =>
      rw [hn] at hs
      cases hs
      refine ⟨_, rfl, ?_⟩
      by_cases hc : c = '#'
      · subst hc
        exact follows_lineComment h (hends rfl) hlength
      · exact follows_token h hc hr hr' hbehind hlength

/-- **A step in code.** -/
theorem Alike.stepCode (h : Alike X Y d s s') (hs : s.stepCode = .next s₁)
    (hbefore : X.length < s.rest.length) (hlength : X.length ≤ s₁.rest.length)
    (hends : s₁ = s.lineComment → s₁.rest = X → X = []) :
    ∃ s₁', s'.stepCode = .next s₁' ∧ Abreast X Y d s₁ s₁' := by
  obtain ⟨c, r, r', hr, hr', hbehind⟩ := h.blurred.exists_cons hbefore
  have hstart : s'.atLineStart = s.atLineStart := by
    obtain ⟨k, rfl, -⟩ := id h
    rfl
  unfold State.stepCode at hs ⊢
  rw [hstart, h.atDocument]
  split at hs
  next => cases hs
  next hmarker =>
  have hmarker' : ¬ (s.atLineStart && s'.atEndMarker) = true := by
    intro hmarker'
    rw [Bool.and_eq_true] at hmarker'
    exact hmarker (Bool.and_eq_true _ _ ▸ ⟨hmarker'.1, h.atEndMarker hmarker'.2⟩)
  rw [if_neg hmarker']
  split at hs
  next hdocument =>
    rw [if_pos hdocument]
    split at hs
    next n hn =>
      cases hs
      rw [h.blurred.documentLength? hn hlength]
      exact ⟨_, rfl, (h.comment hlength _ _).abreast⟩
    next => cases hs
  next hdocument =>
    rw [if_neg hdocument]
    rw [hr] at hs
    rw [hr']
    exact h.stepPiece hr hr' hbehind hs hlength hends

/-! ## §2. Steps in literals. -/

/-- Where a literal was opened does not matter for its content. -/
theorem readContent_opened (l : Literal) (offset : Nat) : ∀ cs : List Char,
    readContent { l with opened := offset } cs = readContent l cs
  | [] => by rw [readContent, readContent]
  | c :: rest => by
      have hescapes : { l with opened := offset }.escapes = l.escapes := rfl
      have hrest := readContent_opened l offset (rest.drop
        ((if c == '\\' then readEscape l.escapes rest else .plain c).source.length - 1))
      rw [readContent, readContent]
      dsimp only
      rw [hescapes, hrest]
termination_by cs => cs.length
decreasing_by simp only [List.length_drop, List.length_cons]; omega

/-- The literals at the head of the modes of states that are alike are the same but for where they
were opened. -/
theorem Alike.literal (h : Alike X Y d s s') {l : Literal} {modes : List Mode}
    (hmodes : s.modes = .literal l :: modes) :
    ∃ offset modes', s'.modes = .literal { l with opened := offset } :: modes' := by
  obtain ⟨k, rfl, hk, -⟩ := h
  have hshapes := hk.modes
  rw [hmodes, List.map_cons] at hshapes
  obtain ⟨m, modes', hm, hshape, -⟩ := List.map_eq_cons_iff.mp hshapes
  cases m with
  | interpolation => cases hshape
  | literal l' =>
      obtain ⟨form, close, interpolates, offset⟩ := l'
      obtain ⟨form', close', interpolates', offset'⟩ := l
      cases hshape
      exact ⟨offset, modes', hm⟩

/-- At a place there is code where there is code in a state. -/
theorem Place.Matches.code {k : Place} (hk : k.Matches d s)
    (hcode : ∀ l modes, s.modes ≠ .literal l :: modes) : ∀ l modes, k.modes ≠ .literal l :: modes := by
  intro l modes' hmodes'
  have hshapes := hk.modes
  rw [hmodes', List.map_cons] at hshapes
  obtain ⟨m, modes, hm, hshape, -⟩ := List.map_eq_cons_iff.mp hshapes.symm
  cases m with
  | interpolation => cases hshape
  | literal l => exact hcode l modes hm

theorem Alike.code (h : Alike X Y d s s') (hcode : ∀ l modes, s.modes ≠ .literal l :: modes) :
    ∀ l modes, s'.modes ≠ .literal l :: modes := by
  obtain ⟨k, rfl, hk, -⟩ := h
  exact hk.code hcode

theorem Alike.contentToken (h : Alike X Y d s s') (pieces : List Piece)
    (hn : X.length ≤ (s.rest.drop (sourceOf pieces).length).length) :
    Alike X Y d (s.contentToken pieces) (s'.contentToken pieces) := by
  have hreported := h.diagnosed (s.reportPieces s.pos pieces s.diagnostics)
    (s'.reportPieces s'.pos pieces s'.diagnostics)
  exact rel_ite Iff.rfl (fun _ => hreported) fun _ => hreported.emit hn _ _

theorem follows_closeLiteral (h : Alike X Y d s s') (l : Literal) (offset : Nat) :
    Follows X Y d (s.closeLiteral l) (s'.closeLiteral { l with opened := offset }) := by
  have hpopped := h.popMode
  unfold State.closeLiteral
  refine rel_ite Iff.rfl (fun _ => ?_) fun _ => follows_emitThen hpopped .tSTRING_END 1 .operator
  intro hlength
  -- the options come behind the closing quote
  have hone : X.length ≤ (s.rest.drop 1).length :=
    Nat.le_trans hlength (List.drop_sublist _ (s.rest.drop 1)).length_le
  have hclosed := hpopped.emitThen (n := 1) hone .tSTRING_END .operator
  rw [hclosed.blurred.takeWhile (p := isLower) (by decide)]
  exact follows_emitSpelt hclosed _ _ hlength

theorem follows_openInterpolation (h : Alike X Y d s s') :
    Follows X Y d s.openInterpolation s'.openInterpolation := by
  have hF : Contextual fun s => { s with brackets := .interpolation :: s.brackets } := fun _ _ => rfl
  have hfollows := ((follows_emitThen h .tSTRING_DBEG 2 .value).pushMode .interpolation
    .interpolation rfl).context hF
  exact hfollows

theorem rest_closeLiteral_le (s : State) (l : Literal) :
    (s.closeLiteral l).rest.length ≤ (s.rest.drop 1).length := by
  unfold State.closeLiteral
  dsimp only
  split
  · exact (List.drop_sublist _ (s.rest.drop 1)).length_le
  · exact Nat.le_refl _

/-- **A step in a literal.** -/
theorem Alike.stepLiteral (h : Alike X Y d s s') (l : Literal) (offset : Nat)
    (hs : s.stepLiteral l = .next s₁) (hlength : X.length ≤ s₁.rest.length) :
    ∃ s₁', s'.stepLiteral { l with opened := offset } = .next s₁' ∧ Abreast X Y d s₁ s₁' := by
  obtain ⟨after, hafter, hending⟩ := readContent_append l s.rest
  have hrest := rest_contentToken hafter
  have hdrop : s.rest.drop (sourceOf (readContent l s.rest).1).length = after :=
    (congrArg (List.drop _) hafter).trans List.drop_left
  -- the content ends before the place, and what ends it follows
  have hsame := h.blurred.readContent l
  have hcontent := h.contentToken (readContent l s.rest).1
  rw [hdrop] at hsame hcontent
  unfold State.stepLiteral at hs ⊢
  rw [readContent_opened]
  generalize readContent l s.rest = content at *
  obtain ⟨pieces, ending⟩ := content
  cases ending with
  | endOfText => cases hs
  | close =>
      cases hs
      have hclose := rest_closeLiteral_le (s.contentToken pieces) l
      obtain ⟨more, rfl⟩ := List.head?_eq_some_iff.mp hending
      rw [hrest, List.drop_one, List.tail_cons] at hclose
      rw [List.length_cons] at hsame hcontent
      rw [hsame nofun (by omega)]
      exact ⟨_, rfl, follows_closeLiteral (hcontent (by omega)) l offset hlength⟩
  | interpolation =>
      cases hs
      obtain ⟨more, rfl⟩ := hending
      have hmore : X.length ≤ more.length := by
        have hlength : X.length ≤ ((s.contentToken pieces).rest.drop 2).length := hlength
        rwa [hrest] at hlength
      rw [List.length_cons, List.length_cons] at hsame hcontent
      rw [hsame nofun (by omega)]
      exact ⟨_, rfl, follows_openInterpolation (hcontent (by omega)) hlength⟩

/-- **A step leads from states that are alike to states that are abreast**, if it does not lead
past the place, and a comment does not end there. -/
theorem Alike.step (h : Alike X Y d s s') (hs : s.step = .next s₁)
    (hbefore : X.length < s.rest.length) (hlength : X.length ≤ s₁.rest.length)
    (hends : s₁ = s.lineComment → s₁.rest = X → X = []) :
    ∃ s₁', s'.step = .next s₁' ∧ Abreast X Y d s₁ s₁' := by
  unfold State.step at hs
  split at hs
  next l modes hmodes =>
    obtain ⟨offset, modes', hmodes'⟩ := h.literal hmodes
    unfold State.step
    rw [hmodes']
    exact h.stepLiteral l offset hs hlength
  next hmodes =>
    unfold State.step
    split
    next l modes hmodes' => exact absurd hmodes' (h.code hmodes l modes)
    next => exact h.stepCode hs hbefore hlength hends

/-! ## §3. Scans of the same text. -/

/-- States that are abreast are alike unless the first one is at its end. -/
theorem Abreast.alike (h : Abreast X Y d s s') (hend : s.rest = X → Y = []) : Alike X Y d s s' := by
  obtain ⟨k, rfl, hk, hnear | ⟨hX, hY⟩⟩ := h
  · exact ⟨k, rfl, hk, hnear⟩
  · rw [hend hX] at hY
    cases hY

/-- Brackets and blocks are nested as deeply. -/
theorem Abreast.nesting (h : Abreast X Y d s s') : s'.depth + s'.blocks = s.depth + s.blocks := by
  obtain ⟨k, rfl, -⟩ := h
  rfl

/-- The end of the text is the end of both scans. -/
theorem Alike.finish (h : Alike [] [] d s s') (hs : s.step = .finish s) : s'.step = .finish s' := by
  have hrest := h.blurred.eq
  have hstart : s'.atLineStart = s.atLineStart := by
    obtain ⟨k, rfl, -⟩ := id h
    rfl
  have hmarker : s'.atEndMarker = s.atEndMarker := by
    unfold State.atEndMarker
    rw [h.sees _ (by decide), hrest]
  unfold State.step at hs
  split at hs
  next l _ _ =>
    unfold State.stepLiteral at hs
    dsimp only at hs
    split at hs <;> cases hs
  next hmodes =>
    have hcode : s'.step = s'.stepCode := by
      unfold State.step
      split
      next l modes hmodes' => exact absurd hmodes' (h.code hmodes l modes)
      next => rfl
    rw [hcode]
    unfold State.stepCode at hs ⊢
    rw [hstart, hmarker, h.atDocument, hrest]
    split at hs
    next hend => rw [if_pos hend]
    next hend =>
      rw [if_neg hend]
      split at hs
      · split at hs <;> cases hs
      next hdocument =>
        rw [if_neg hdocument]
        split at hs
        next => rfl
        next => split at hs <;> cases hs

/-- **Scans of the same text from states that are alike end alike.** -/
theorem Alike.ends {n : Nat} {e : State} (hends : Ends n s (.finish e)) (h : Alike [] [] d s s') :
    ∃ n' e', Ends n' s' (.finish e') ∧ Alike [] [] d e e' := by
  generalize hfinish : Step.finish e = ended at hends
  -- the second scan takes as many steps as the first
  induction hends generalizing s' with
  | stop hs =>
      have hstep := hfinish.symm
      obtain ⟨rfl, -⟩ := atEnd_of_step hstep
      have hstep' := h.finish hstep
      refine ⟨1, s', ?_, h⟩
      rw [← hstep']
      exact .stop fun s₁ hs₁ => nomatch hstep'.symm.trans hs₁
  | deep => cases hfinish
  | next hs hflat _ ih =>
      have hpos := List.length_pos_iff.mpr (rest_ne_nil_of_step hs)
      obtain ⟨s₁', hs', habreast⟩ := h.step hs hpos (Nat.zero_le _) fun _ _ => rfl
      have hnext := habreast.alike fun _ => rfl
      obtain ⟨n', e', hends', he⟩ := ih hnext hfinish
      exact ⟨n' + 1, e', .next hs' (habreast.nesting ▸ hflat) hends', he⟩

/-! ## §4. Up to the place. -/

/-- The scan from one state comes to another. -/
def Leads (s t : State) : Prop := ∀ n e, Ends n t e → ∃ m, Ends m s e

theorem Leads.refl (s : State) : Leads s s := fun n _ hends => ⟨n, hends⟩

theorem Leads.trans {t u : State} (h : Leads s t) (h' : Leads t u) : Leads s u := by
  intro n e hends
  obtain ⟨m, hm⟩ := h' n e hends
  exact h m e hm

theorem Leads.step {t t₁ : State} (h : Leads s t) (ht : t.step = .next t₁)
    (hflat : t₁.depth + t₁.blocks ≤ maxNesting) : Leads s t₁ :=
  fun n e hends => h (n + 1) e (.next ht hflat hends)

/-- A scan that finishes goes on after a step that leads on. -/
theorem Ends.of_step {n : Nat} {e : State} (h : Ends n s (.finish e)) (hs : s.step = .next s₁) :
    s₁.depth + s₁.blocks ≤ maxNesting ∧ ∃ m, Ends m s₁ (.finish e) := by
  generalize hfinish : Step.finish e = ended at h
  cases h with
  | stop hs' => exact absurd hs (hs' s₁)
  | deep => cases hfinish
  | next hs' hflat h =>
      cases hs.symm.trans hs'
      exact ⟨hflat, _, h⟩

/-- A scan that finishes does so from each state that it comes to. -/
theorem Reachable.ends_finish {text : List Char} {n : Nat} {e : State} (h : Reachable text s)
    (hends : Ends n (State.start text) (.finish e)) : ∃ m, Ends m s (.finish e) := by
  induction h with
  | start => exact ⟨n, hends⟩
  | step _ hs ih =>
      obtain ⟨m, hm⟩ := ih
      exact (hm.of_step hs).2

theorem alike_start {text text' : List Char} (h : Blurred X Y text text') :
    Alike X Y 0 (State.start text) (State.start text') :=
  ⟨(State.start text').place, rfl, ⟨rfl, rfl, rfl⟩, h⟩

/-- **Up to the place the scans keep abreast**, if no comment ends there. -/
theorem Reachable.abreast {text text' : List Char} {n : Nat} {e : State}
    (hends : Ends n (State.start text) (.finish e)) (htext : Blurred X Y text text')
    (hcomment : ∀ s, Reachable text s → s.step = .next s.lineComment → s.lineComment.rest ≠ X)
    (h : Reachable text s) (hlength : X.length ≤ s.rest.length) :
    ∃ s', Leads (State.start text') s' ∧ Abreast X Y 0 s s' := by
  induction h with
  | start => exact ⟨_, .refl _, (alike_start htext).abreast⟩
  | @step s s₁ h hs ih =>
      -- the step came to the place at most, so the state before it was not there
      have hless := (h.scanned.next hs).2
      obtain ⟨s', hleads, habreast⟩ := ih (by omega)
      have halike : Alike X Y 0 s s' := habreast.alike fun hrest => by
        rw [hrest] at hless
        omega
      obtain ⟨s₁', hs', hnext⟩ := halike.step hs (by omega) hlength
        fun hmark hrest => absurd (hmark ▸ hrest) (hcomment s h (hmark ▸ hs))
      obtain ⟨m, hm⟩ := h.ends_finish hends
      have hflat := (hm.of_step hs).1
      exact ⟨s₁', hleads.step hs' (hnext.nesting ▸ hflat), hnext⟩

/-! ## §5. Past the place. -/

/-- A step in code where no line begins that ends the program or opens a document comment. -/
theorem step_of_code (hcode : ∀ l modes, s.modes ≠ .literal l :: modes) {c : Char}
    {r : List Char} (hrest : s.rest = c :: r) (hend : (s.atLineStart && s.atEndMarker) = false)
    (hdocument : (s.atLineStart && s.atDocument) = false) : s.step =
      match State.blankLength? (c :: r) with
      | some n => .next (s.blank n)
      | none => .next (s.token c) := by
  unfold State.step
  split
  next l modes hmodes => exact absurd hmodes (hcode l modes)
  next =>
    unfold State.stepCode
    rw [hend, hdocument, if_neg Bool.false_ne_true, if_neg Bool.false_ne_true]
    generalize s.rest = cs at hrest ⊢
    subst hrest
    rfl

/-- A document comment begins with an equals sign. -/
theorem atDocument_eq_false {c : Char} {r : List Char} (hrest : s.rest = c :: r) (hc : c ≠ '=') :
    s.atDocument = false := by
  have hhead : ('=' == c) = false := beq_eq_false_iff_ne.mpr (Ne.symm hc)
  unfold State.atDocument State.sees
  rw [hrest, show "=begin".toList = '=' :: "begin".toList from rfl, List.isPrefixOf, hhead]
  rfl

/-- A character of code that begins no marker and no document comment. -/
theorem step_of_not_marker (hcode : ∀ l modes, s.modes ≠ .literal l :: modes) {c : Char}
    {r : List Char} (hrest : s.rest = c :: r) (hmarker : s.atEndMarker = false) (hc : c ≠ '=') :
    s.step =
      match State.blankLength? (c :: r) with
      | some n => .next (s.blank n)
      | none => .next (s.token c) :=
  step_of_code hcode hrest (by rw [hmarker, Bool.and_false])
    (by rw [atDocument_eq_false hrest hc, Bool.and_false])

/-- A character of code that begins neither, whatever follows it. -/
theorem step_of_cons (hcode : ∀ l modes, s.modes ≠ .literal l :: modes) {c : Char} {r : List Char}
    (hrest : s.rest = c :: r) (hc : c ≠ '_' ∧ c ≠ '=') : s.step =
      match State.blankLength? (c :: r) with
      | some n => .next (s.blank n)
      | none => .next (s.token c) := by
  refine step_of_not_marker hcode hrest ?_ hc.2
  have hhead : ('_' == c) = false := beq_eq_false_iff_ne.mpr (Ne.symm hc.1)
  unfold State.atEndMarker State.sees
  rw [hrest, show "__END__".toList = '_' :: "_END__".toList from rfl, List.isPrefixOf, hhead]
  rfl

theorem step_newline (hcode : ∀ l modes, s.modes ≠ .literal l :: modes) {after : List Char}
    (hrest : s.rest = '\n' :: after) : s.step = .next s.newline := by
  rw [step_of_cons hcode hrest (by decide)]
  rfl

/-- A state has the same context as another and a place, but for what it knows about the
characters before it. -/
def Beside (d : Nat) (s : State) (k : Place) (s' : State) : Prop :=
  k.Matches d s ∧
    ∃ spaced atLineStart, s' = { s.moved k with spaced := spaced, atLineStart := atLineStart }

theorem Beside.rest {k : Place} (h : Beside d s k s') : s'.rest = k.rest := by
  obtain ⟨-, _, _, rfl⟩ := h
  rfl

theorem Beside.code {k : Place} (h : Beside d s k s')
    (hcode : ∀ l modes, s.modes ≠ .literal l :: modes) : ∀ l modes, s'.modes ≠ .literal l :: modes := by
  obtain ⟨hmatches, _, _, rfl⟩ := h
  exact hmatches.code hcode

theorem nesting_newline (s : State) :
    s.newline.depth + s.newline.blocks = s.depth + s.blocks := by
  unfold State.newline
  split <;> rfl

/-- **After a newline the states are alike**, since it does not matter what was before it. -/
theorem Beside.alike_newline {k : Place} {after after' : List Char} (h : Beside d s k s')
    (hs : s.rest = '\n' :: after) (hk : k.rest = '\n' :: after') (hafter : Blurred X Y after after') :
    Alike X Y d s.newline s'.newline := by
  have hrest' := h.rest.trans hk
  obtain ⟨hmatches, spaced, atLineStart, hs'⟩ := h
  -- a newline sets both of what the states may know differently
  have hnewline : ∀ (t : State) (r : List Char), t.rest = '\n' :: r → t.newline =
      if t.newlineEnds && !continuesWithCall false r then (t.emitSpelt .tNL 1).endStatement
      else t.blank 1 := by
    intro t r ht
    unfold State.newline
    rw [ht]
    rfl
  rw [hnewline s after hs, hnewline s' after' hrest', hafter.continuesWithCall]
  refine rel_ite (by rw [hs']; rfl) (fun _ => Alike.context contextual_endStatement ?_) fun _ => ?_
  · have hemit : s'.emitSpelt .tNL 1 = (s.emitSpelt .tNL 1).moved (s'.emitSpelt .tNL 1).place := by
      simp only [State.emitSpelt, State.emit, State.advance, hs, hrest']
      subst hs'
      rfl
    have htokens : (s'.emitSpelt .tNL 1).tokens.map Token.pair =
        (s.emitSpelt .tNL 1).tokens.map Token.pair := by
      simp only [State.emitSpelt, State.emit, List.map_cons, hs, hrest']
      subst hs'
      exact congrArg _ hmatches.tokens
    subst hs'
    refine ⟨_, hemit, ⟨hmatches.modes, htokens, hmatches.comments⟩, ?_⟩
    show Blurred X Y (s.rest.drop 1) (k.rest.drop 1)
    rw [hs, hk]
    exact hafter
  · have hblank : s'.blank 1 = (s.blank 1).moved (s'.blank 1).place := by
      simp only [State.blank, State.advance, hs, hrest']
      subst hs'
      rfl
    subst hs'
    refine ⟨_, hblank, ⟨hmatches.modes, hmatches.tokens, hmatches.comments⟩, ?_⟩
    show Blurred X Y (s.rest.drop 1) (k.rest.drop 1)
    rw [hs, hk]
    exact hafter

/-- After the same newline the texts are the same. -/
theorem Beside.newline {k : Place} {after : List Char} (h : Beside d s k s')
    (hs : s.rest = '\n' :: after) (hk : k.rest = '\n' :: after) :
    Alike [] [] d s.newline s'.newline := by
  have hafter := blurred_append .nothing after
  rw [List.append_nil] at hafter
  exact h.alike_newline hs hk hafter

theorem takeWhile_line {c : List Char} (hc : '\n' ∉ c) (after : List Char) :
    (c ++ '\n' :: after).takeWhile (· != '\n') = c := by
  rw [List.takeWhile_append_of_pos, List.takeWhile_cons_of_neg (by decide), List.append_nil]
  intro d hd
  rw [bne_iff_ne]
  rintro rfl
  exact hc hd

/-- A comment is read up to the newline. -/
theorem Beside.comment {k : Place} {c after : List Char} (h : Beside d s k s') (hc : '\n' ∉ c)
    (hcode : ∀ l modes, s.modes ≠ .literal l :: modes) (hk : k.rest = '#' :: (c ++ '\n' :: after))
    (hflat : s.depth + s.blocks ≤ maxNesting) :
    ∃ t k', Leads s' t ∧ Beside (d + 1) s k' t ∧ k'.rest = '\n' :: after := by
  have hrest' := h.rest.trans hk
  have hcode' := h.code hcode
  obtain ⟨hmatches, spaced, atLineStart, hs'⟩ := h
  have hstep : s'.step = .next s'.lineComment := by
    rw [step_of_cons hcode' hrest' (by decide)]
    rfl
  have hline : s'.rest.takeWhile (· != '\n') = '#' :: c := by
    rw [hrest', List.takeWhile_cons_of_pos (by decide), takeWhile_line hc]
  have hend : s'.lineComment.rest = '\n' :: after := by
    show s'.rest.drop (s'.rest.takeWhile (· != '\n')).length = '\n' :: after
    rw [hline, hrest', List.length_cons, List.drop_succ_cons, List.drop_left]
  have hflat' : s'.lineComment.depth + s'.lineComment.blocks ≤ maxNesting := by
    subst hs'
    exact hflat
  have hbeside : Beside (d + 1) s s'.lineComment.place s'.lineComment := by
    subst hs'
    refine ⟨⟨hmatches.modes, hmatches.tokens, ?_⟩, spaced, State.atLineStart _, rfl⟩
    exact congrArg (· + 1) hmatches.comments
  exact ⟨_, _, (Leads.refl s').step hstep hflat', hbeside, hend⟩

/-- The blank and the comment are read up to the newline. -/
theorem Abreast.comment {c after : List Char} (hc : '\n' ∉ c)
    (h : Abreast ('\n' :: after) (' ' :: '#' :: (c ++ '\n' :: after)) d s s')
    (hrest : s.rest = '\n' :: after) (hcode : ∀ l modes, s.modes ≠ .literal l :: modes)
    (hflat : s.depth + s.blocks ≤ maxNesting) :
    ∃ t k', Leads s' t ∧ Beside (d + 1) s k' t ∧ k'.rest = '\n' :: after := by
  obtain ⟨k, rfl, hk, hnear | ⟨-, hovertaken⟩⟩ := h
  · -- the blank is there
    have hrest' : k.rest = ' ' :: '#' :: (c ++ '\n' :: after) := hnear.eq_of_eq hrest
    have hstep : (s.moved k).step = .next ((s.moved k).blank 1) := by
      rw [step_of_cons (hk.code hcode) hrest' (by decide)]
      rfl
    have hblank : ((s.moved k).blank 1).rest = '#' :: (c ++ '\n' :: after) := by
      show k.rest.drop 1 = _
      rw [hrest']
      rfl
    have hbeside : Beside d s ((s.moved k).blank 1).place ((s.moved k).blank 1) :=
      ⟨⟨hk.modes, hk.tokens, hk.comments⟩, true, State.atLineStart _, rfl⟩
    obtain ⟨t, k', hleads, ht⟩ := hbeside.comment hc hcode hblank hflat
    exact ⟨t, k', ((Leads.refl _).step hstep hflat).trans hleads, ht⟩
  · -- the blank has been read with the character before it
    have hrest' : k.rest = '#' :: (c ++ '\n' :: after) := (List.cons.inj hovertaken).2
    have hbeside : Beside d s k (s.moved k) := ⟨hk, s.spaced, s.atLineStart, rfl⟩
    exact hbeside.comment hc hcode hrest' hflat

/-! ## §6. Lines of comments. -/

theorem suffix_contentToken (s : State) (pieces : List Piece) :
    s.tokens <:+ (s.contentToken pieces).tokens ∧ (s.contentToken pieces).comments = s.comments := by
  unfold State.contentToken
  dsimp only
  split
  · exact ⟨List.suffix_refl _, rfl⟩
  · exact ⟨List.suffix_cons _ _, rfl⟩

theorem suffix_closeLiteral (s : State) (l : Literal) :
    s.tokens <:+ (s.closeLiteral l).tokens ∧ (s.closeLiteral l).comments = s.comments := by
  unfold State.closeLiteral
  dsimp only
  split
  · exact ⟨(List.suffix_cons _ _).trans (List.suffix_cons _ _), rfl⟩
  · exact ⟨List.suffix_cons _ _, rfl⟩

/-- The tokens and comments that have been read stay. -/
theorem suffix_of_step (hs : s.step = .next s₁) :
    s.tokens <:+ s₁.tokens ∧ s.comments <:+ s₁.comments := by
  have hmoves : Moves (fun t => s.tokens <:+ t.tokens ∧ s.comments <:+ t.comments)
      (fun t => s.tokens <:+ t.tokens ∧ s.comments <:+ t.comments)
      (fun t => s.tokens <:+ t.tokens ∧ s.comments <:+ t.comments) :=
    { report := fun h _ _ _ => h
      emit := fun h _ _ _ _ => ⟨h.1.trans (List.suffix_cons _ _), h.2⟩
      settle := fun h => h
      character := fun h _ _ _ _ _ _ => ⟨h.1.trans (List.suffix_cons _ _), h.2⟩
      comment := fun h _ _ _ => ⟨h.1, h.2.trans (List.suffix_cons _ _)⟩
      blank := fun h _ _ _ => h
      reject := fun h _ _ _ _ => h }
  unfold State.step at hs
  split at hs
  next l _ _ =>
    obtain ⟨htokens, hcomments⟩ := suffix_contentToken s (readContent l s.rest).1
    obtain ⟨hclose, hclose'⟩ := suffix_closeLiteral (s.contentToken (readContent l s.rest).1) l
    cases concludes_of_stepLiteral hs with
    | close _ => exact ⟨htokens.trans hclose, (hclose'.trans hcomments) ▸ List.suffix_refl _⟩
    | interpolation _ =>
        exact ⟨htokens.trans (List.suffix_cons _ _), hcomments ▸ List.suffix_refl _⟩
  next => exact hmoves.stepCode ⟨List.suffix_refl _, List.suffix_refl _⟩ hs

theorem Ends.suffix {n : Nat} {e : State} (hends : Ends n s (.finish e)) :
    s.tokens <:+ e.tokens ∧ s.comments <:+ e.comments := by
  generalize hfinish : Step.finish e = ended at hends
  induction hends with
  | stop hs =>
      obtain ⟨rfl, -⟩ := atEnd_of_step hfinish.symm
      exact ⟨List.suffix_refl _, List.suffix_refl _⟩
  | deep => cases hfinish
  | next hs _ _ ih =>
      obtain ⟨htokens, hcomments⟩ := suffix_of_step hs
      obtain ⟨htokens', hcomments'⟩ := ih hfinish
      exact ⟨htokens.trans htokens', hcomments.trans hcomments'⟩

theorem Ends.mem_comments {n : Nat} {e : State} (hends : Ends n s (.finish e)) {comment : Comment}
    (h : comment ∈ s.comments) : comment ∈ e.comments := hends.suffix.2.subset h

/-- The line of what comes next is one more than the number of newlines before. -/
theorem Positioned.line_eq {text read : List Char} (h : Positioned text read s) (n : Nat) :
    (s.spanOfNext n).line = read.count '\n' + 1 := by
  show (s.lines.lineCol s.pos).1 = _
  rw [h.lines, h.pos_eq, h.text_eq, LineTable.lineCol_eq]

/-- A comment is on the line of the newline where it ends. -/
theorem line_of_lineComment {text after : List Char} {t : State} (hs : Reachable text s)
    (ht : Reachable text t) (hrest : t.rest = '\n' :: after)
    (hends : s.lineComment.rest = '\n' :: after) (n m : Nat) :
    (s.spanOfNext n).line = (t.spanOfNext m).line := by
  obtain ⟨read, hread⟩ := hs.positioned
  obtain ⟨before, hbefore⟩ := ht.positioned
  -- the comment has no newline in it, so as many are before it as before its end
  have hline : '\n' ∉ s.rest.takeWhile (· != '\n') := fun hmem => by
    have hne := List.mem_takeWhile_imp hmem
    exact bne_iff_ne.mp hne rfl
  have hsplit : s.rest = s.rest.takeWhile (· != '\n') ++ '\n' :: after := by
    have hwhole := append_drop_of_prefix <| List.takeWhile_prefix (l := s.rest) (· != '\n')
    rw [← hends]
    exact hwhole.symm
  have htext : before ++ '\n' :: after = read ++ s.rest.takeWhile (· != '\n') ++ '\n' :: after := by
    rw [List.append_assoc, ← hsplit, ← hread.text_eq, ← hrest, hbefore.text_eq]
  rw [hread.line_eq, hbefore.line_eq, List.append_cancel_right htext, List.count_append,
    List.count_eq_zero.mpr hline, Nat.add_zero]

end Lexer

open Lexer

/-! ## §7. Whole texts. -/

/-- **A comment at the end of a line of code changes no token.**  Where a text can be split into
tokens and a newline of it is read in code, on a line without a comment, a blank and a comment
before that newline leave a text that can be split into the same kinds and values of tokens, with one
comment more. -/
theorem lex_insert_comment {before after : List Char} {lexed : Lexed} {s : State}
    (h : (lex (String.ofList (before ++ '\n' :: after))).1 = .ok lexed)
    (hs : Reachable (before ++ '\n' :: after) s) (hrest : s.rest = '\n' :: after)
    (hcode : ∀ l modes, s.modes ≠ .literal l :: modes)
    (hline : ∀ comment ∈ lexed.comments, comment.span.line ≠ (s.spanOfNext 1).line) {c : List Char}
    (hc : '\n' ∉ c) :
    ∃ lexed', (lex (String.ofList (before ++ ' ' :: '#' :: (c ++ '\n' :: after)))).1 = .ok lexed' ∧
      lexed'.tokens.map Token.pair = lexed.tokens.map Token.pair ∧
      lexed'.comments.length = lexed.comments.length + 1 := by
  obtain ⟨n, e, hends, hmodes, rfl⟩ := ends_of_lex h
  rw [String.toList_ofList] at hends
  have htext := blurred_append (.comment c after hc) before
  -- up to the newline
  have hcomment : ∀ t, Reachable (before ++ '\n' :: after) t → t.step = .next t.lineComment →
      t.lineComment.rest ≠ '\n' :: after := by
    intro t ht hstep hend
    obtain ⟨m, hm⟩ := (ht.step hstep).ends_finish hends
    have hmem := hm.mem_comments (List.mem_cons_self : _ ∈ t.lineComment.comments)
    exact hline _ (List.mem_reverse.mpr hmem) (line_of_lineComment ht hs hrest hend _ 1)
  obtain ⟨s', hleads, habreast⟩ := hs.abreast hends htext hcomment (Nat.le_of_eq (by rw [hrest]))
  -- the comment and the newline
  obtain ⟨m, hm⟩ := hs.ends_finish hends
  obtain ⟨hflat, m₁, hm₁⟩ := hm.of_step (step_newline hcode hrest)
  obtain ⟨t, k, hreads, hbeside, hk⟩ := habreast.comment hc hrest hcode (nesting_newline s ▸ hflat)
  have hnewline := hbeside.newline hrest hk
  have hstep := step_newline (hbeside.code hcode) (hbeside.rest.trans hk)
  -- the rest of the texts
  obtain ⟨n', e', hends', k', rfl, hmatches, -⟩ := hnewline.ends hm₁
  have hleads' := (hleads.trans hreads).step hstep (hnewline.abreast.nesting ▸ hflat)
  obtain ⟨n'', hfinish⟩ := hleads' n' _ hends'
  rw [← String.toList_ofList (l := before ++ ' ' :: '#' :: (c ++ '\n' :: after))] at hfinish
  have hmodes' : k'.modes = [] := by
    have hshapes := hmatches.modes
    rwa [hmodes, List.map_nil, List.map_eq_nil_iff] at hshapes
  refine ⟨_, congrArg Prod.fst (lex_of_ends hfinish hmodes'), ?_, ?_⟩
  · show k'.tokens.reverse.map Token.pair = e.tokens.reverse.map Token.pair
    rw [List.map_reverse, List.map_reverse, hmatches.tokens]
  · show k'.comments.reverse.length = e.comments.reverse.length + 1
    rw [List.length_reverse, List.length_reverse, hmatches.comments]

/-- A comment before a newline that a call on the next line hides. -/
theorem lex_insert_comment_before_call : ∃ lexed lexed',
    (lex "foo\n  .bar # b\n").1 = .ok lexed ∧ (lex "foo #\x7b\n  .bar # b\n").1 = .ok lexed' ∧
      lexed'.tokens.map Token.pair = lexed.tokens.map Token.pair ∧
      lexed'.comments.length = lexed.comments.length + 1 := by
  have hlex : ((lex (String.ofList ("foo".toList ++ '\n' :: "  .bar # b\n".toList))).1.toOption.any
      fun lexed => lexed.comments.all fun comment => comment.span.line !=
        ((State.start ("foo".toList ++ '\n' :: "  .bar # b\n".toList)).word.spanOfNext 1).line)
      = true := by decide +kernel
  cases h : (lex (String.ofList ("foo".toList ++ '\n' :: "  .bar # b\n".toList))).1 with
  | error abort =>
      rw [h] at hlex
      cases hlex
  | ok lexed =>
      rw [h] at hlex
      have hlines := fun comment hmem => bne_iff_ne.mp (List.all_eq_true.mp hlex comment hmem)
      -- the newline is read after the word
      have hword : (State.start ("foo".toList ++ '\n' :: "  .bar # b\n".toList)).step =
          .next (State.start ("foo".toList ++ '\n' :: "  .bar # b\n".toList)).word := by
        rw [step_of_cons (fun _ _ hliteral => List.cons_ne_nil _ _ hliteral.symm) rfl (by decide)]
        rfl
      have hmodes : (State.start ("foo".toList ++ '\n' :: "  .bar # b\n".toList)).word.modes = [] := rfl
      obtain ⟨lexed', hlexed', htokens, hcomments⟩ := lex_insert_comment h (.step .start hword) rfl
        (fun _ _ hliteral => List.cons_ne_nil _ _ (hliteral.symm.trans hmodes)) hlines (c := ['\x7b']) (by decide)
      exact ⟨lexed, lexed', h, hlexed', htokens, hcomments⟩

end RubySyntax.Token
