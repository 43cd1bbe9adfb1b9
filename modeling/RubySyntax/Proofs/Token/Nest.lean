/-
  RubySyntax.Proofs.Token.Nest
  ────────────────────────────
  **LITERALS AND INTERPOLATIONS NEST.**

  The scan keeps two stacks, of the literals and interpolations that are open and of the brackets.
  An interpolation is pushed on both, but a closing bracket pops the second whatever it finds
  there.  So the brackets can lose sight of an interpolation, but never see one that is over: a
  brace that finds an interpolation among the brackets finds it among the modes too.  The tokens
  of literals therefore pair up, however the brackets between them are mismatched.

  Main results:
    • `Nested.step` — how the two stacks and the tokens hang together, after each step,
    • `literals_nest` — so they do in all states of a scan, and at its end nothing is open.
-/
import RubySyntax.Proofs.Token.Reach

namespace RubySyntax.Token.Lexer

open RubySyntax.Text

/-! ## §1. Modes. -/

/-- Whether the content of a literal is read. -/
def Mode.isLiteral : Mode → Bool
  | .literal _ => true
  | .interpolation => false

/-- From the outermost on, literals and interpolations take turns, and a literal comes first. -/
def Alternate (modes : List Mode) : Prop :=
  ∀ i mode, modes.reverse[i]? = some mode → (mode.isLiteral = true ↔ i % 2 = 0)

theorem alternate_nil : Alternate [] := fun _ _ h => nomatch h

theorem alternate_cons {mode : Mode} {modes : List Mode} :
    Alternate (mode :: modes) ↔
      Alternate modes ∧ (mode.isLiteral = true ↔ modes.length % 2 = 0) := by
  unfold Alternate
  rw [List.reverse_cons]
  constructor
  · intro h
    refine ⟨fun i m hm => h i m ?_, ?_⟩
    · rw [List.getElem?_append_left (List.getElem?_eq_some_iff.mp hm).1, hm]
    · have hlast := h modes.length mode
      rw [List.getElem?_append_right (by simp), List.length_reverse, Nat.sub_self] at hlast
      exact hlast rfl
  · rintro ⟨hmodes, hmode⟩ i m hm
    -- the new mode is the innermost one, hence the last of the reversed list
    by_cases hi : i < modes.reverse.length
    · rw [List.getElem?_append_left hi] at hm
      exact hmodes i m hm
    · rw [List.getElem?_append_right (Nat.le_of_not_lt hi), List.getElem?_singleton] at hm
      split at hm
      next hzero =>
        cases hm
        rw [List.length_reverse] at hi hzero
        rwa [show i = modes.length by omega]
      next => cases hm

/-- Another literal can open where no literal is read. -/
theorem Alternate.openLiteral {modes : List Mode} (h : Alternate modes)
    (hcode : ∀ l rest, modes ≠ .literal l :: rest) (l : Literal) :
    Alternate (.literal l :: modes) := by
  refine alternate_cons.mpr ⟨h, iff_of_true rfl ?_⟩
  match modes with
  | [] => rfl
  | .literal l' :: rest => exact absurd rfl (hcode l' rest)
  | .interpolation :: rest =>
      have hodd : ¬ rest.length % 2 = 0 := fun heven => nomatch (alternate_cons.mp h).2.mpr heven
      rw [List.length_cons]
      omega

/-- An interpolation can open where a literal is read. -/
theorem Alternate.openInterpolation {l : Literal} {modes : List Mode}
    (h : Alternate (.literal l :: modes)) : Alternate (.interpolation :: .literal l :: modes) := by
  have heven := (alternate_cons.mp h).2.mp rfl
  refine alternate_cons.mpr ⟨h, iff_of_false Bool.false_ne_true ?_⟩
  rw [List.length_cons]
  omega

/-! ## §2. Tokens. -/

/-- What is open between two tokens. -/
inductive Layer where
  /-- A literal that a token of a kind has opened. -/
  | literal (opener : Kind)
  /-- An interpolation. -/
  | interpolation
  /-- A regular expression that has been closed, whose options come next. -/
  | options
deriving DecidableEq, Repr

/-- The layer of a mode. -/
def Mode.layer : Mode → Layer
  | .literal l => .literal l.opener
  | .interpolation => .interpolation

/-- What is open after a token of a kind, innermost first, if it fits there.  In a literal there is
content, an interpolation begins, or the literal ends; the options of a regular expression follow
its end and nothing else.  Elsewhere a literal begins, an interpolation ends, or the token belongs
to no literal. -/
def nest? (layers : List Layer) (kind : Kind) : Option (List Layer) :=
  match layers with
  | .literal opener :: outer =>
    match kind with
    | .tSTRING_CONTENT => some layers
    | .tSTRING_DBEG => some (.interpolation :: layers)
    | .tSTRING_END => some (if opener = .tREGEXP_BEG then .options :: outer else outer)
    | _ => none
  | .options :: outer => if kind = .tREGEXP_OPT then some outer else none
  | _ =>
    match kind with
    | .tSTRING_BEG | .tXSTRING_BEG | .tSYMBEG | .tREGEXP_BEG => some (.literal kind :: layers)
    | .tSTRING_DEND => if layers = [] then none else some layers.tail
    | _ => if isCode kind then some layers else none

/-- What is open after some tokens, if each of them fits. -/
def nestAll? (layers : List Layer) (kinds : List Kind) : Option (List Layer) :=
  kinds.foldlM nest? layers

theorem nestAll?_snoc (layers : List Layer) (kinds : List Kind) (kind : Kind) :
    nestAll? layers (kinds ++ [kind]) = (nestAll? layers kinds).bind (nest? · kind) := by
  rw [nestAll?, List.foldlM_append]
  refine congrArg _ (funext fun open' => ?_)
  simp [List.foldlM]

section Code

variable {modes : List Mode} (hcode : ∀ l rest, modes ≠ .literal l :: rest)
include hcode

/-- Between literals a token that belongs to none fits, and changes nothing. -/
theorem nest?_isCode {kind : Kind} (hkind : isCode kind = true) :
    nest? (modes.map Mode.layer) kind = some (modes.map Mode.layer) := by
  match modes with
  | .literal l :: rest => exact absurd rfl (hcode l rest)
  | [] | .interpolation :: rest =>
      unfold nest?
      split
      next heq => cases heq
      next heq => cases heq
      next =>
        split
        iterate 5 cases hkind
        exact if_pos hkind

/-- Between literals one can open. -/
theorem nest?_opener (l : Literal) :
    nest? (modes.map Mode.layer) l.opener = some ((Mode.literal l :: modes).map Mode.layer) := by
  obtain ⟨form, close, interpolates, opened⟩ := l
  match modes with
  | .literal l' :: rest => exact absurd rfl (hcode l' rest)
  | [] | .interpolation :: rest => cases form <;> rfl

end Code

/-! ## §3. The invariant. -/

/-- Some tokens, latest first, leave some layers open. -/
def Leaves (tokens : List Token) (layers : List Layer) : Prop :=
  nestAll? [] (tokens.reverse.map (·.kind)) = some layers

theorem Leaves.cons {tokens : List Token} {layers layers' : List Layer} (h : Leaves tokens layers)
    {t : Token} (ht : nest? layers t.kind = some layers') : Leaves (t :: tokens) layers' := by
  rw [Leaves, List.reverse_cons, List.map_append, List.map_singleton, nestAll?_snoc, h,
    Option.bind_some, ht]

/-- How the modes, the brackets and the tokens hang together: literals and interpolations take
turns, no more interpolations are among the brackets than among the modes, and the tokens leave
open what the modes say. -/
structure Nested (s : State) : Prop where
  alternate : Alternate s.modes
  count_le : s.brackets.count .interpolation ≤ s.modes.count .interpolation
  tokens : Leaves s.tokens (s.modes.map Mode.layer)

theorem nested_start (text : List Char) : Nested (State.start text) :=
  ⟨alternate_nil, Nat.le_refl 0, rfl⟩

/-- Literals are no interpolations. -/
theorem count_literal (l : Literal) (modes : List Mode) :
    (Mode.literal l :: modes).count .interpolation = modes.count .interpolation :=
  List.count_cons_of_ne (by simp)

section Step

variable {s s' : State}

/-- In code a bracket that is an interpolation is the one that is read. -/
theorem Nested.modes_eq (h : Nested s) (hcode : ∀ l rest, s.modes ≠ .literal l :: rest)
    (hbracket : s.brackets.head? = some .interpolation) : ∃ outer, s.modes = .interpolation :: outer := by
  obtain ⟨brackets, hbrackets⟩ := List.head?_eq_some_iff.mp hbracket
  have hle := h.count_le
  rw [hbrackets, List.count_cons_self] at hle
  match hmodes : s.modes with
  | [] =>
      rw [hmodes, List.count_nil] at hle
      omega
  | .literal l :: rest => exact absurd hmodes (hcode l rest)
  | .interpolation :: outer => exact ⟨outer, rfl⟩

/-- A token in code keeps what is open together. -/
theorem Nested.shift (h : Nested s) (hcode : ∀ l rest, s.modes ≠ .literal l :: rest) {t : Token}
    (htokens : s'.tokens = t :: s.tokens) (hs : Shift s t.kind s') : Nested s' := by
  have hle := h.count_le
  generalize hkind : t.kind = kind at hs
  have hkeep : isCode kind = true → s'.modes = s.modes → s'.brackets = s.brackets → Nested s' := by
    intro hcodeKind modes brackets
    refine ⟨modes ▸ h.alternate, by rwa [modes, brackets], ?_⟩
    rw [htokens, modes]
    exact h.tokens.cons (by rw [hkind, nest?_isCode hcode hcodeKind])
  cases hs with
  | keep hinline modes brackets => exact hkeep (isCode_of_isInline hinline) modes brackets
  | newline _ modes brackets => exact hkeep rfl modes brackets
  | openBracket hinline bracket hbracket modes brackets =>
      refine ⟨modes ▸ h.alternate, ?_, ?_⟩
      · rwa [modes, brackets, List.count_cons_of_ne hbracket]
      · rw [htokens, modes]
        exact h.tokens.cons (by rw [hkind, nest?_isCode hcode (isCode_of_isInline hinline)])
  | closeBracket hinline modes brackets =>
      refine ⟨modes ▸ h.alternate, ?_, ?_⟩
      · -- the bracket that is lost may be an interpolation, which only helps
        rw [modes, brackets]
        exact Nat.le_trans ((List.tail_sublist _).count_le _) hle
      · rw [htokens, modes]
        exact h.tokens.cons (by rw [hkind, nest?_isCode hcode (isCode_of_isInline hinline)])
  | openLiteral l _ _ modes brackets =>
      refine ⟨?_, ?_, ?_⟩
      · rw [modes]
        exact h.alternate.openLiteral hcode l
      · rwa [modes, brackets, count_literal]
      · rw [htokens, modes]
        exact h.tokens.cons (by rw [hkind, nest?_opener hcode])
  | resume hbracket modes brackets =>
      -- the modes lose an interpolation as the brackets do, so the count stays right
      obtain ⟨outer, houter⟩ := h.modes_eq hcode hbracket
      obtain ⟨rest, hrest⟩ := List.head?_eq_some_iff.mp hbracket
      have halternate := h.alternate
      have htoken := h.tokens
      rw [houter, hrest, List.count_cons_self, List.count_cons_self] at hle
      rw [houter] at halternate htoken modes
      refine ⟨?_, ?_, ?_⟩
      · rw [modes]
        exact (alternate_cons.mp halternate).1
      · rw [modes, brackets, hrest]
        exact Nat.le_of_succ_le_succ hle
      · rw [htokens, modes]
        exact htoken.cons (by rw [hkind]; rfl)

/-- A step in code keeps what is open together. -/
theorem Nested.stepCode (h : Nested s) (hcode : ∀ l rest, s.modes ≠ .literal l :: rest)
    (hs : s.stepCode = .next s') : Nested s' := by
  cases turn_stepCode hs with
  | token hemits =>
      obtain ⟨kind, n, value, -, hshift, -, htokens, -⟩ := hemits.exists_token
      exact h.shift hcode htokens hshift
  | character =>
      have hkind : isCode .tCHARACTER = true := rfl
      exact ⟨h.alternate, h.count_le, h.tokens.cons (nest?_isCode hcode hkind)⟩
  | lineComment => exact ⟨h.alternate, h.count_le, h.tokens⟩
  | document => exact ⟨h.alternate, h.count_le, h.tokens⟩
  | blank => exact ⟨h.alternate, h.count_le, h.tokens⟩
  | reject => exact ⟨h.alternate, h.count_le, h.tokens⟩

/-- The content of a literal leaves the literal open. -/
theorem Nested.contentToken {l : Literal} {outer : List Mode} (h : Nested s)
    (hmodes : s.modes = .literal l :: outer) (pieces : List Piece) :
    Nested (s.contentToken pieces) ∧ (s.contentToken pieces).modes = .literal l :: outer := by
  simp only [State.contentToken]
  split
  · exact ⟨⟨h.alternate, h.count_le, h.tokens⟩, hmodes⟩
  · refine ⟨⟨h.alternate, h.count_le, h.tokens.cons ?_⟩, hmodes⟩
    show nest? (s.modes.map Mode.layer) .tSTRING_CONTENT = some (s.modes.map Mode.layer)
    rw [hmodes]
    rfl

theorem opener_eq_regexp_iff (l : Literal) : l.opener = .tREGEXP_BEG ↔ l.form = .regexp := by
  unfold Literal.opener
  cases l.form <;> simp

/-- The end of a literal closes it. -/
theorem Nested.closeLiteral {l : Literal} {outer : List Mode} (h : Nested s)
    (hmodes : s.modes = .literal l :: outer) : Nested (s.closeLiteral l) := by
  have halternate := h.alternate
  have hcount := h.count_le
  have htokens := h.tokens
  rw [hmodes] at halternate hcount htokens
  rw [count_literal] at hcount
  have hclosed : ∀ t : State, t.modes = s.modes.tail → t.brackets = s.brackets →
      Leaves t.tokens (outer.map Mode.layer) → Nested t := by
    intro t htail hbrackets hleaves
    rw [hmodes, List.tail_cons] at htail
    refine ⟨?_, ?_, ?_⟩
    · rw [htail]
      exact (alternate_cons.mp halternate).1
    · rwa [htail, hbrackets]
    · rwa [htail]
  have hend : ∀ t : Token, t.kind = .tSTRING_END → Leaves (t :: s.tokens)
      (if l.form = .regexp then .options :: outer.map Mode.layer else outer.map Mode.layer) := by
    intro t ht
    refine htokens.cons ?_
    rw [ht]
    simp only [List.map_cons, Mode.layer, nest?, opener_eq_regexp_iff]
  simp only [State.closeLiteral]
  split
  next hform =>
    -- the options follow the closing mark in the same step
    rw [if_pos hform] at hend
    exact hclosed _ rfl rfl ((hend _ rfl).cons rfl)
  next hform =>
    rw [if_neg hform] at hend
    exact hclosed _ rfl rfl (hend _ rfl)

/-- An interpolation is pushed on both stacks. -/
theorem Nested.openInterpolation {l : Literal} {outer : List Mode} (h : Nested s)
    (hmodes : s.modes = .literal l :: outer) : Nested s.openInterpolation := by
  have halternate := h.alternate
  have hcount := h.count_le
  have htokens := h.tokens
  rw [hmodes] at halternate
  refine ⟨?_, ?_, ?_⟩
  · show Alternate (.interpolation :: s.modes)
    rw [hmodes]
    exact halternate.openInterpolation
  · show (Bracket.interpolation :: s.brackets).count .interpolation ≤
      (Mode.interpolation :: s.modes).count .interpolation
    rw [List.count_cons_self, List.count_cons_self]
    exact Nat.succ_le_succ hcount
  · refine htokens.cons ?_
    show nest? (s.modes.map Mode.layer) .tSTRING_DBEG =
      some ((Mode.interpolation :: s.modes).map Mode.layer)
    rw [hmodes]
    rfl

/-- **Each step keeps what is open together.** -/
theorem Nested.step (h : Nested s) (hs : s.step = .next s') : Nested s' := by
  unfold State.step at hs
  split at hs
  next l outer hmodes =>
    obtain ⟨hcontent, hopen⟩ := h.contentToken hmodes (readContent l s.rest).1
    cases concludes_of_stepLiteral hs with
    | close _ => exact hcontent.closeLiteral hopen
    | interpolation _ => exact hcontent.openInterpolation hopen
  next hcode => exact h.stepCode hcode hs

theorem Reachable.nested {text : List Char} (h : Reachable text s) : Nested s := by
  induction h with
  | start => exact nested_start text
  | step _ hs ih => exact ih.step hs

end Step

/-! ## §4. Whole texts. -/

/-- A closing brace in code that finds an interpolation among the brackets returns from it. -/
theorem step_closeBrace {s : State} (hcode : ∀ l rest, s.modes ≠ .literal l :: rest)
    (hbrace : s.rest.head? = some '\x7d') (hbracket : s.brackets.head? = some .interpolation) :
    s.step = .next ({ s with brackets := s.brackets.tail, modes := s.modes.tail }.emitSpelt
      .tSTRING_DEND 1) := by
  obtain ⟨rest, hrest⟩ := List.head?_eq_some_iff.mp hbrace
  -- nothing that is looked for earlier in a step begins with a brace
  have hmarker : s.atEndMarker = false := by
    rw [State.atEndMarker, State.sees, hrest]
    rfl
  have hdocument : s.atDocument = false := by
    rw [State.atDocument, State.sees, hrest]
    rfl
  have htoken : s.token '\x7d' = s.closeBrace := by
    have hname : s.operatorName? = none := by
      rw [State.operatorName?, hrest]
      rfl
    have hplain : findSpelling plainPunctuation s.rest = none := by
      rw [hrest]
      rfl
    unfold State.token
    rw [hname]
    simp only [ite_self]
    unfold State.punctuation
    rw [hplain]
    rfl
  have hstep : s.step = s.stepCode := by
    unfold State.step
    split
    next l rest hmodes => exact absurd hmodes (hcode l rest)
    next => rfl
  have hnext : s.stepCode = .next (s.token '\x7d') := by
    rw [State.stepCode, hmarker, hdocument, Bool.and_false, if_neg Bool.false_ne_true,
      if_neg Bool.false_ne_true, hrest]
    rfl
  rw [hstep, hnext, htoken, State.closeBrace, hbracket]
  rfl

/-- **Literals and interpolations nest**, in whatever way the brackets between them are mismatched.
In all states of a scan literals and interpolations take turns from the outermost on, no more
interpolations are among the brackets than among the modes, and the tokens leave open what the
modes say; a brace that finds an interpolation among the brackets returns from one that is open.
At the end of a text that can be split into tokens nothing is open. -/
theorem literals_nest (text : String) :
    (∀ s, Reachable text.toList s →
      Alternate s.modes ∧
      s.brackets.count .interpolation ≤ s.modes.count .interpolation ∧
      nestAll? [] (s.tokens.reverse.map (·.kind)) = some (s.modes.map Mode.layer) ∧
      ((∀ l rest, s.modes ≠ .literal l :: rest) → s.rest.head? = some '\x7d' →
        s.brackets.head? = some .interpolation →
        ∃ s', s.step = .next s' ∧ s'.lastKind = some .tSTRING_DEND ∧
          s.modes = .interpolation :: s'.modes ∧
          s.brackets = .interpolation :: s'.brackets)) ∧
    ∀ lexed, (lex text).1 = .ok lexed → nestAll? [] (lexed.tokens.map (·.kind)) = some [] := by
  constructor
  · intro s hreach
    have hnested := hreach.nested
    refine ⟨hnested.alternate, hnested.count_le, hnested.tokens, fun hcode hbrace hbracket => ?_⟩
    obtain ⟨outer, houter⟩ := hnested.modes_eq hcode hbracket
    obtain ⟨brackets, hbrackets⟩ := List.head?_eq_some_iff.mp hbracket
    refine ⟨_, step_closeBrace hcode hbrace hbracket, rfl, ?_, ?_⟩
    · show s.modes = .interpolation :: s.modes.tail
      rw [houter, List.tail_cons]
    · show s.brackets = .interpolation :: s.brackets.tail
      rw [hbrackets, List.tail_cons]
  · intro lexed hlex
    obtain ⟨s, hreach, -, hmodes, rfl⟩ := reachable_of_lex hlex
    have hleaves := hreach.nested.tokens
    rw [hmodes] at hleaves
    exact hleaves

/-- A parenthesis that a square bracket closes, and a regular expression, in an interpolation. -/
theorem literals_nest_mismatched : ∃ lexed,
    (lex "\x22#\x7b(]; /a/i\x7d\x22").1 = .ok lexed ∧
      lexed.tokens.map (·.kind) = [.tSTRING_BEG, .tSTRING_DBEG, .tLPAREN, .tRBRACK, .tSEMI,
        .tREGEXP_BEG, .tSTRING_CONTENT, .tSTRING_END, .tREGEXP_OPT, .tSTRING_DEND, .tSTRING_END] ∧
      nestAll? [] (lexed.tokens.map (·.kind)) = some [] := by
  have hlex : ((lex "\x22#\x7b(]; /a/i\x7d\x22").1.toOption.any fun lexed =>
      lexed.tokens.map (·.kind) == [.tSTRING_BEG, .tSTRING_DBEG, .tLPAREN, .tRBRACK, .tSEMI,
        .tREGEXP_BEG, .tSTRING_CONTENT, .tSTRING_END, .tREGEXP_OPT, .tSTRING_DEND, .tSTRING_END])
      = true := by decide +kernel
  cases h : (lex "\x22#\x7b(]; /a/i\x7d\x22").1 with
  | error abort =>
      rw [h] at hlex
      cases hlex
  | ok lexed =>
      rw [h] at hlex
      exact ⟨lexed, rfl, beq_iff_eq.mp hlex, (literals_nest "\x22#\x7b(]; /a/i\x7d\x22").2 lexed h⟩

end RubySyntax.Token.Lexer
