/-
  RubySyntax.Proofs.Token.Alike
  ─────────────────────────────
  **TWO SCANS KEEP PACE.**

  Two scans whose texts part at the end of a line go through the same contexts until there.  What
  a state knows falls into two parts: its context, and its place, which is the text that is left
  and what has been recorded with offsets.  Two states are alike if they are the same but for
  their places, and the places have the same kinds and values of tokens and the same literals
  open.  Every piece of code that is read from such states leads to such states.

  Main results:
    • `follows_word`, `follows_punctuation`, … — pieces of code lead from states that are alike to
      states that are alike, unless the first one has come past the place where the texts part,
    • `follows_token` — any piece of code but a comment.
-/
import RubySyntax.Proofs.Token.Veil

namespace RubySyntax

/-- The kind and the value of a token, without its place. -/
def Token.pair (t : Token) : Token.Kind × String := (t.kind, t.value)

namespace Token.Lexer

open RubySyntax.Text

/-! ## §1. Places. -/

/-- What is open, without the offset at which it was opened. -/
def Mode.shape : Mode → Option (LiteralForm × Char × Bool)
  | .literal l => some (l.form, l.close, l.interpolates)
  | .interpolation => none

/-- The text that is left, and what has been recorded with offsets. -/
structure Place where
  lines : LineTable
  rest : List Char
  pos : Nat
  modes : List Mode
  tokens : List Token
  comments : List Comment
  diagnostics : List Diagnostic

/-- A state at another place. -/
def State.moved (s : State) (k : Place) : State :=
  { s with
    lines := k.lines
    rest := k.rest
    pos := k.pos
    modes := k.modes
    tokens := k.tokens
    comments := k.comments
    diagnostics := k.diagnostics }

/-- The place of a state. -/
def State.place (s : State) : Place :=
  ⟨s.lines, s.rest, s.pos, s.modes, s.tokens, s.comments, s.diagnostics⟩

/-- At a place there are the same tokens and open literals as in a state, and `d` more comments. -/
structure Place.Matches (k : Place) (d : Nat) (s : State) : Prop where
  modes : k.modes.map Mode.shape = s.modes.map Mode.shape
  tokens : k.tokens.map Token.pair = s.tokens.map Token.pair
  comments : k.comments.length = s.comments.length + d

/-- Two states are the same but for their places, and the same text is left up to the ends `X` and
`Y`. -/
def Alike (X Y : List Char) (d : Nat) (s s' : State) : Prop :=
  ∃ k : Place, s' = s.moved k ∧ k.Matches d s ∧ Blurred X Y s.rest k.rest

/-- Two states are alike, or the first one is at its end, and the second one at its end but for a
blank. -/
def Abreast (X Y : List Char) (d : Nat) (s s' : State) : Prop :=
  ∃ k : Place, s' = s.moved k ∧ k.Matches d s ∧
    (Blurred X Y s.rest k.rest ∨ (s.rest = X ∧ ' ' :: k.rest = Y))

/-- As long as the first state has not come past its end, the states are abreast. -/
def Follows (X Y : List Char) (d : Nat) (s s' : State) : Prop :=
  X.length ≤ s.rest.length → Abreast X Y d s s'

variable {X Y : List Char} {d : Nat} {s s' a a' b b' : State} {k : Place}

/-- States that are chosen in the same way are related if both choices are. -/
theorem rel_ite {R : State → State → Prop} {p p' : Prop} [Decidable p] [Decidable p'] (hp : p' ↔ p)
    (ha : p → R a a') (hb : ¬ p → R b b') :
    R (if p then a else b) (if p' then a' else b') := by
  by_cases h : p
  · rw [if_pos h, if_pos (hp.mpr h)]
    exact ha h
  · rw [if_neg h, if_neg (mt hp.mp h)]
    exact hb h

/-! ## §2. Changes of context. -/

/-- A change of context, which does not depend on the place. -/
def Contextual (F : State → State) : Prop := ∀ s k, F (s.moved k) = (F s).moved k

/-- It leaves the place as it is. -/
theorem Contextual.place {F : State → State} (hF : Contextual F) (s : State) :
    (F s).place = s.place := by
  have hmoved : F s = (F s).moved s.place := hF s s.place
  have hplace := congrArg State.place hmoved
  exact hplace

theorem Place.Matches.context {F : State → State} (hF : Contextual F) (hk : k.Matches d s) :
    k.Matches d (F s) := by
  have hplace := hF.place s
  have hmodes : (F s).modes = s.modes := congrArg Place.modes hplace
  have htokens : (F s).tokens = s.tokens := congrArg Place.tokens hplace
  have hcomments : (F s).comments = s.comments := congrArg Place.comments hplace
  exact ⟨hmodes ▸ hk.modes, htokens ▸ hk.tokens, hcomments ▸ hk.comments⟩

theorem Alike.context {F : State → State} (hF : Contextual F) (h : Alike X Y d a a') :
    Alike X Y d (F a) (F a') := by
  have hrest : (F a).rest = a.rest := congrArg Place.rest (hF.place a)
  obtain ⟨k, rfl, hk, h⟩ := h
  exact ⟨k, hF a k, hk.context hF, hrest ▸ h⟩

theorem Abreast.context {F : State → State} (hF : Contextual F) (h : Abreast X Y d a a') :
    Abreast X Y d (F a) (F a') := by
  have hrest : (F a).rest = a.rest := congrArg Place.rest (hF.place a)
  obtain ⟨k, rfl, hk, hnear⟩ := h
  exact ⟨k, hF a k, hk.context hF, hrest ▸ hnear⟩

theorem Follows.context {F : State → State} (hF : Contextual F) (h : Follows X Y d a a') :
    Follows X Y d (F a) (F a') := by
  intro hlength
  have hrest : (F a).rest = a.rest := congrArg Place.rest (hF.place a)
  rw [hrest] at hlength
  exact (h hlength).context hF

theorem contextual_expect (e : Expect) : Contextual fun s => { s with expect := e } :=
  fun _ _ => rfl

theorem contextual_endStatement : Contextual State.endStatement := fun _ _ => rfl

theorem contextual_endName : Contextual State.endName := by
  intro s k
  unfold State.endName
  rw [show (s.moved k).naming = s.naming from rfl]
  rcases s.naming with _ | naming
  · rfl
  · cases naming <;> rfl

theorem contextual_closeDefinition : Contextual State.closeDefinition := by
  intro s k
  unfold State.closeDefinition
  rw [show ((s.moved k).params == .definition (s.moved k).depth) =
    (s.params == .definition s.depth) from rfl]
  split <;> rfl

theorem contextual_closeLambda : Contextual State.closeLambda := fun _ _ => rfl

theorem contextual_afterKeyword (kind : Kind) : Contextual (·.afterKeyword kind) := by
  intro s k
  dsimp only
  unfold State.afterKeyword
  split <;> rfl

/-- What a name that is complete does to the context depends on what was expected before. -/
theorem contextual_endWord (before : State) : Contextual (State.endWord before) := by
  intro s k
  unfold State.endWord
  split
  · exact contextual_endName s k
  · rfl

/-! ## §3. Consuming. -/

/-- What is reported is none of what is compared. -/
theorem Alike.diagnosed (h : Alike X Y d s s') (ds ds' : List Diagnostic) :
    Alike X Y d { s with diagnostics := ds } { s' with diagnostics := ds' } := by
  obtain ⟨k, rfl, hk, h⟩ := h
  exact ⟨{ k with diagnostics := ds' }, rfl, ⟨hk.modes, hk.tokens, hk.comments⟩, h⟩

theorem Alike.report (h : Alike X Y d s s') (fault : Fault) (n : Nat) :
    Alike X Y d (s.report fault n) (s'.report fault n) := h.diagnosed _ _

theorem Alike.sees (h : Alike X Y d s s') (spelling : String)
    (hspelling : ' ' ∉ spelling.toList ∧ '\r' ∉ spelling.toList ∧ '\n' ∉ spelling.toList) :
    s'.sees spelling = s.sees spelling := by
  obtain ⟨k, rfl, -, h⟩ := h
  exact h.isPrefixOf hspelling

theorem Alike.lastKind (h : Alike X Y d s s') : s'.lastKind = s.lastKind := by
  obtain ⟨k, rfl, hk, -⟩ := h
  have htokens := congrArg (fun ts => ts.head?.map Prod.fst) hk.tokens
  simp only [List.head?_map, Option.map_map] at htokens
  exact htokens

/-- The same characters are consumed. -/
theorem Alike.advance (h : Alike X Y d s s') {n : Nat} (hn : X.length ≤ (s.rest.drop n).length) :
    Alike X Y d (s.advance n) (s'.advance n) := by
  obtain ⟨k, rfl, hk, h⟩ := h
  have hline : ((k.rest.take n).getLast?.map (· == '\n')).getD s.atLineStart =
      ((s.rest.take n).getLast?.map (· == '\n')).getD s.atLineStart := by
    rw [h.take hn]
  refine ⟨((s.moved k).advance n).place, ?_, ⟨hk.modes, hk.tokens, hk.comments⟩, h.drop hn⟩
  simp only [State.advance, State.moved, State.place, hline]

theorem Alike.abreast (h : Alike X Y d s s') : Abreast X Y d s s' := by
  obtain ⟨k, rfl, hk, h⟩ := h
  exact ⟨k, rfl, hk, .inl h⟩

theorem follows_blank (h : Alike X Y d s s') (n : Nat) : Follows X Y d (s.blank n) (s'.blank n) := by
  intro hn
  have hF : Contextual fun s => { s with spaced := true } := fun _ _ => rfl
  exact ((h.advance hn).context hF).abreast

theorem follows_reject (h : Alike X Y d s s') (fault : Fault) (n : Nat) :
    Follows X Y d (s.reject fault n) (s'.reject fault n) :=
  fun hn => ((h.report fault n).advance hn).abreast

/-- A token is recorded. -/
theorem Alike.addToken (h : Alike X Y d s s') {t t' : Token} (ht : t'.pair = t.pair) :
    Alike X Y d { s with tokens := t :: s.tokens } { s' with tokens := t' :: s'.tokens } := by
  obtain ⟨k, rfl, hk, h⟩ := h
  refine ⟨{ k with tokens := t' :: k.tokens }, rfl, ⟨hk.modes, ?_, hk.comments⟩, h⟩
  show t'.pair :: k.tokens.map Token.pair = t.pair :: s.tokens.map Token.pair
  rw [ht, hk.tokens]

/-- A comment is recorded. -/
theorem Alike.addComment (h : Alike X Y d s s') (c c' : Comment) :
    Alike X Y d { s with comments := c :: s.comments } { s' with comments := c' :: s'.comments } := by
  obtain ⟨k, rfl, hk, h⟩ := h
  refine ⟨{ k with comments := c' :: k.comments }, rfl, ⟨hk.modes, hk.tokens, ?_⟩, h⟩
  show k.comments.length + 1 = s.comments.length + 1 + d
  rw [hk.comments, Nat.add_right_comm]

/-- A token. -/
theorem Alike.emit (h : Alike X Y d s s') {n : Nat} (hn : X.length ≤ (s.rest.drop n).length)
    (kind : Kind) (value : List Char) : Alike X Y d (s.emit kind n value) (s'.emit kind n value) := by
  have hF : Contextual fun s => { s with blocks := State.countBlocks kind s.blocks, spaced := false } :=
    fun _ _ => rfl
  have ht : Token.pair ⟨kind, String.ofList value, s'.spanOfNext n⟩ =
      Token.pair ⟨kind, String.ofList value, s.spanOfNext n⟩ := rfl
  obtain ⟨k, rfl, -⟩ := id h
  exact ((h.advance hn).context hF).addToken ht

theorem follows_emit (h : Alike X Y d s s') (kind : Kind) (n : Nat) (value : List Char) :
    Follows X Y d (s.emit kind n value) (s'.emit kind n value) :=
  fun hn => (h.emit hn kind value).abreast

theorem Alike.emitSpelt (h : Alike X Y d s s') {n : Nat} (hn : X.length ≤ (s.rest.drop n).length)
    (kind : Kind) : Alike X Y d (s.emitSpelt kind n) (s'.emitSpelt kind n) := by
  have htake : s'.rest.take n = s.rest.take n := by
    obtain ⟨k, rfl, -, h⟩ := h
    exact h.take hn
  rw [State.emitSpelt, State.emitSpelt, htake]
  exact h.emit hn kind _

theorem follows_emitSpelt (h : Alike X Y d s s') (kind : Kind) (n : Nat) :
    Follows X Y d (s.emitSpelt kind n) (s'.emitSpelt kind n) :=
  fun hn => (h.emitSpelt hn kind).abreast

theorem Alike.emitThen (h : Alike X Y d s s') {n : Nat} (hn : X.length ≤ (s.rest.drop n).length)
    (kind : Kind) (expect : Expect) :
    Alike X Y d (s.emitThen kind n expect) (s'.emitThen kind n expect) :=
  (h.emitSpelt hn kind).context (contextual_expect expect)

theorem follows_emitThen (h : Alike X Y d s s') (kind : Kind) (n : Nat) (expect : Expect) :
    Follows X Y d (s.emitThen kind n expect) (s'.emitThen kind n expect) :=
  fun hn => (h.emitThen hn kind expect).abreast

theorem follows_operator (h : Alike X Y d s s') (kind : Kind) (n : Nat) :
    Follows X Y d (s.operator kind n) (s'.operator kind n) :=
  follows_emitThen h kind n .value

/-- A comment. -/
theorem Alike.comment (h : Alike X Y d s s') {n : Nat} (hn : X.length ≤ (s.rest.drop n).length)
    (content content' : List Char) : Alike X Y d (s.comment n content) (s'.comment n content') :=
  (h.advance hn).addComment _ _

theorem follows_assignment (h : Alike X Y d s s') (n : Nat) :
    Follows X Y d (s.assignment n) (s'.assignment n) := by
  intro hn
  have htake : s'.rest.take (n - 1) = s.rest.take (n - 1) := by
    obtain ⟨k, rfl, -, h⟩ := h
    have hmore : X.length ≤ (s.rest.drop (n - 1)).length := by
      have hn : X.length ≤ (s.rest.drop n).length := hn
      rw [List.length_drop] at hn ⊢
      omega
    exact h.take hmore
  rw [State.assignment, State.assignment, htake]
  exact (follows_emit h _ n _).context (contextual_expect .value) hn

/-! ## §4. What is seen and what is open. -/

theorem Alike.blurred (h : Alike X Y d s s') : Blurred X Y s.rest s'.rest := by
  obtain ⟨k, rfl, -, h⟩ := h
  exact h

theorem Alike.marksArgument (h : Alike X Y d s s') {n : Nat}
    (hbehind : Blurred X Y (s.rest.drop n) (s'.rest.drop n)) :
    s'.marksArgument n = s.marksArgument n := by
  obtain ⟨k, rfl, -⟩ := id h
  rw [State.marksArgument, State.marksArgument, hbehind.atSpace]
  rfl

/-- A literal or an interpolation is opened. -/
theorem Follows.pushMode (h : Follows X Y d a a') (m m' : Mode) (hm : m'.shape = m.shape) :
    Follows X Y d { a with modes := m :: a.modes } { a' with modes := m' :: a'.modes } := by
  intro hlength
  obtain ⟨k, rfl, hk, hnear⟩ := h hlength
  refine ⟨{ k with modes := m' :: k.modes }, rfl, ⟨?_, hk.tokens, hk.comments⟩, hnear⟩
  show m'.shape :: k.modes.map Mode.shape = m.shape :: a.modes.map Mode.shape
  rw [hm, hk.modes]

/-- What was opened last is closed. -/
theorem Alike.popMode (h : Alike X Y d s s') :
    Alike X Y d { s with modes := s.modes.tail } { s' with modes := s'.modes.tail } := by
  obtain ⟨k, rfl, hk, h⟩ := h
  refine ⟨{ k with modes := k.modes.tail }, rfl, ⟨?_, hk.tokens, hk.comments⟩, h⟩
  show k.modes.tail.map Mode.shape = s.modes.tail.map Mode.shape
  rw [List.map_tail, List.map_tail, hk.modes]

/-! ## §5. Operators and brackets. -/

theorem follows_openLiteral (h : Alike X Y d s s') (form : LiteralForm) (close : Char)
    (interpolates : Bool) (kind : Kind) (n : Nat) :
    Follows X Y d (s.openLiteral form close interpolates kind n)
      (s'.openLiteral form close interpolates kind n) :=
  (follows_emitSpelt h kind n).pushMode _ _ rfl

theorem follows_argumentMark (h : Alike X Y d s s') (spelling : String)
    (hbehind : Blurred X Y (s.rest.drop spelling.length) (s'.rest.drop spelling.length))
    (mark infixed : Kind) :
    Follows X Y d (s.argumentMark spelling mark infixed) (s'.argumentMark spelling mark infixed) := by
  have hmarks := h.marksArgument hbehind
  unfold State.argumentMark
  dsimp only
  rw [hmarks]
  obtain ⟨k, rfl, -⟩ := id h
  refine rel_ite Iff.rfl (fun _ => ?_) fun _ => follows_operator h infixed _
  refine follows_operator ?_ mark _
  exact rel_ite Iff.rfl (fun _ => h.report _ _) fun _ => h

theorem follows_slash (h : Alike X Y d s s')
    (hbehind : Blurred X Y (s.rest.drop 1) (s'.rest.drop 1)) :
    Follows X Y d s.slash s'.slash := by
  have hmarks := h.marksArgument hbehind
  have hassigns := h.sees "/=" (by decide)
  unfold State.slash
  dsimp only
  rw [hmarks, hassigns]
  obtain ⟨k, rfl, -⟩ := id h
  refine rel_ite Iff.rfl (fun _ => ?_) fun _ => ?_
  · refine follows_openLiteral ?_ .regexp '/' true .tREGEXP_BEG 1
    exact rel_ite Iff.rfl (fun _ => h.report _ _) fun _ => h
  · exact rel_ite Iff.rfl (fun _ => follows_assignment h 2) fun _ => follows_operator h .tDIVIDE 1

theorem follows_number (h : Alike X Y d s s') (signLength : Nat) (negative : Bool)
    (hbehind : Blurred X Y (s.rest.drop signLength) (s'.rest.drop signLength)) :
    Follows X Y d (s.number signLength negative) (s'.number signLength negative) := by
  intro hn
  unfold State.number at hn ⊢
  rw [hbehind.numberLength]
  generalize numberLength (s.rest.drop signLength) = number at hn ⊢
  obtain ⟨kind, n⟩ := number
  dsimp only at hn ⊢
  have hdigits : X.length ≤ ((s.rest.drop signLength).drop n).length := by
    rwa [List.drop_drop]
  rw [hbehind.take hdigits]
  exact (follows_emit h kind _ _).context (contextual_expect .operator) hn

theorem follows_plusOrMinus (h : Alike X Y d s s')
    (hbehind : Blurred X Y (s.rest.drop 1) (s'.rest.drop 1)) (minus : Bool) :
    Follows X Y d (s.plusOrMinus minus) (s'.plusOrMinus minus) := by
  have hmarks := h.marksArgument hbehind
  unfold State.plusOrMinus
  dsimp only
  rw [hmarks, hbehind.nextIs (p := isDigit) (by decide), hbehind.powerFollows]
  obtain ⟨k, rfl, -⟩ := id h
  -- a sign before a digit belongs to the number, unless it is an operator
  refine rel_ite Iff.rfl (fun _ => ?_) fun _ => ?_
  · have hwarned : ∀ fault : Fault, Alike X Y d (if s.marksArgument 1 then s.report fault 1 else s)
        (if s.marksArgument 1 then (s.moved k).report fault 1 else s.moved k) :=
      fun fault => rel_ite Iff.rfl (fun _ => h.report fault 1) fun _ => h
    have hrest : ∀ (t : State) (fault : Fault),
        (if s.marksArgument 1 then t.report fault 1 else t).rest = t.rest := by
      intro t fault
      split <;> rfl
    refine rel_ite Iff.rfl (fun _ => follows_operator (hwarned _) .tUMINUS_NUM 1) fun _ => ?_
    refine follows_number (hwarned _) 1 minus ?_
    rw [hrest, hrest]
    exact hbehind
  · rw [show (s.moved k).beginsValue = s.beginsValue from rfl]
    cases s.beginsValue || s.marksArgument 1 <;> cases minus <;> exact follows_operator h _ 1

theorem follows_lambdaArrow (h : Alike X Y d s s') : Follows X Y d s.lambdaArrow s'.lambdaArrow := by
  have hF : Contextual fun s => { s with
      lambdaAt := some s.depth, params := .lambda s.depth, expect := .argument } := fun _ _ => rfl
  have hfollows := (follows_operator h .tLAMBDA 2).context hF
  exact hfollows

theorem follows_openBracket (h : Alike X Y d s s') (bracket : Bracket) (kind : Kind) :
    Follows X Y d (s.openBracket bracket kind) (s'.openBracket bracket kind) := by
  have hF : Contextual fun s => { s with brackets := bracket :: s.brackets } := fun _ _ => rfl
  exact (follows_operator h kind 1).context hF

/-- The innermost bracket is closed. -/
theorem Alike.popBracket (h : Alike X Y d s s') :
    Alike X Y d { s with brackets := s.brackets.tail } { s' with brackets := s'.brackets.tail } := by
  have hF : Contextual fun s => { s with brackets := s.brackets.tail } := fun _ _ => rfl
  exact h.context hF

theorem follows_closeBracket (h : Alike X Y d s s') (kind : Kind) :
    Follows X Y d (s.closeBracket kind) (s'.closeBracket kind) :=
  follows_emitThen h.popBracket kind 1 .operator

theorem follows_openBrace (h : Alike X Y d s s') : Follows X Y d s.openBrace s'.openBrace := by
  unfold State.openBrace
  obtain ⟨k, rfl, -⟩ := id h
  refine rel_ite Iff.rfl (fun _ => ?_) fun _ => rel_ite Iff.rfl (fun _ => ?_) fun _ => ?_
  · exact follows_openBracket (h.context contextual_closeLambda) _ _
  · exact follows_openBracket h _ _
  · exact follows_openBracket h _ _

theorem follows_closeBrace (h : Alike X Y d s s') : Follows X Y d s.closeBrace s'.closeBrace := by
  unfold State.closeBrace
  obtain ⟨k, rfl, -⟩ := id h
  refine rel_ite Iff.rfl (fun _ => ?_) fun _ => follows_closeBracket h _
  exact follows_emitSpelt h.popBracket.popMode _ 1

/-! ## §6. Other punctuation. -/

theorem follows_bar (h : Alike X Y d s s') : Follows X Y d s.bar s'.bar := by
  unfold State.bar
  dsimp only
  rw [h.lastKind]
  obtain ⟨k, rfl, -⟩ := id h
  rw [show (s.moved k).expect = s.expect from rfl]
  generalize (s.expect == .value &&
    (s.lastKind == some .tLCURLY || s.lastKind == some .tLAMBEG || s.lastKind == some .kDO ||
      s.lastKind == some .kDO_LAMBDA)) = opensParams
  have hF : Contextual fun s => { s with
      params :=
        if opensParams then .block s.depth
        else if s.params == .block s.depth then .none
        else s.params } := fun _ _ => rfl
  exact follows_operator (h.context hF) .tPIPE 1

theorem follows_points (h : Alike X Y d s s') : Follows X Y d s.points s'.points := by
  unfold State.points
  rw [h.sees "..." (by decide), h.sees ".." (by decide)]
  obtain ⟨k, rfl, -⟩ := id h
  refine rel_ite Iff.rfl (fun _ => follows_operator h _ 3) fun _ => ?_
  refine rel_ite Iff.rfl (fun _ => follows_operator h _ 2) fun _ => ?_
  exact follows_emitThen h .tDOT 1 _

/-- A name is complete. -/
theorem Follows.endWord (before : State) (h : Follows X Y d a a') :
    Follows X Y d (State.endWord before a) (State.endWord before a') :=
  h.context (contextual_endWord before)

theorem follows_symbol (h : Alike X Y d s s')
    (hbehind : Blurred X Y (s.rest.drop 1) (s'.rest.drop 1)) : Follows X Y d s.symbol s'.symbol := by
  have hemit : Follows X Y d
      (s.emit .tSYMBOL (State.symbolLength (s.rest.drop 1) + 1)
        ((s.rest.drop 1).take (State.symbolLength (s.rest.drop 1))))
      (s'.emit .tSYMBOL (State.symbolLength (s.rest.drop 1) + 1)
        ((s'.rest.drop 1).take (State.symbolLength (s.rest.drop 1)))) := by
    intro hn
    have hname : X.length ≤
        ((s.rest.drop 1).drop (State.symbolLength (s.rest.drop 1))).length := by
      rwa [List.drop_drop, Nat.add_comm]
    rw [hbehind.take hname]
    exact follows_emit h _ _ _ hn
  unfold State.symbol
  dsimp only
  rw [hbehind.symbolLength]
  obtain ⟨k, rfl, -⟩ := id h
  exact hemit.endWord s

theorem follows_colons (h : Alike X Y d s s')
    (hbehind : Blurred X Y (s.rest.drop 1) (s'.rest.drop 1)) : Follows X Y d s.colons s'.colons := by
  have hsymbol := follows_symbol h hbehind
  unfold State.colons
  rw [h.sees "::" (by decide)]
  obtain ⟨k, rfl, -⟩ := id h
  refine rel_ite Iff.rfl (fun _ => ?_) fun _ => rel_ite Iff.rfl (fun _ => ?_) fun _ => ?_
  · exact rel_ite Iff.rfl (fun _ => follows_operator h .tCOLON3 2)
      fun _ => follows_emitThen h .tCOLON2 2 .method
  · have hF : Contextual fun s => { s with ternaries := s.ternaries.tail } := fun _ _ => rfl
    exact follows_operator (h.context hF) .tCOLON 1
  · have hplain := follows_operator h .tCOLON 1
    generalize s.rest.drop 1 = r, (s.moved k).rest.drop 1 = r' at hbehind
    cases hbehind with
    -- a colon at the end of a line stands alone, be there a newline or a blank
    | ends hv => cases hv <;> exact hplain
    | cons c _ =>
        refine rel_ite Iff.rfl (fun _ => follows_openLiteral h .symbol c true .tSYMBEG 2) fun _ => ?_
        refine rel_ite Iff.rfl (fun _ => follows_openLiteral h .symbol c false .tSYMBEG 2) fun _ => ?_
        exact rel_ite Iff.rfl (fun _ => hsymbol) fun _ => hplain

/-- Past characters of one line the scan does not begin a line. -/
theorem atLineStart_advance {n : Nat} (hline : OneLine s.rest n) (hn : 0 < n) (hrest : s.rest ≠ []) :
    (s.advance n).atLineStart = false := by
  have htake : s.rest.take n ≠ [] := by
    rw [Ne, List.take_eq_nil_iff]
    exact not_or.mpr ⟨Nat.ne_of_gt hn, hrest⟩
  have hlast : (s.rest.take n).getLast htake ≠ '\n' :=
    fun heq => hline (heq ▸ List.getLast_mem htake)
  show ((s.rest.take n).getLast?.map (· == '\n')).getD s.atLineStart = false
  rw [List.getLast?_eq_some_getLast htake]
  exact beq_eq_false_iff_ne.mpr hlast

/-- A token that takes the blank before the comment. -/
theorem Alike.emit_overtaking (h : Alike X Y d s s') {n : Nat} (hn : 0 < n) (hrest : s.rest ≠ [])
    (hline : OneLine s.rest n) (hline' : OneLine s'.rest (n + 1)) (hX : s.rest.drop n = X)
    (hY : ' ' :: s'.rest.drop (n + 1) = Y) (kind : Kind) (value : List Char) :
    Abreast X Y d (s.emit kind n value) (s'.emit kind (n + 1) value) := by
  have hrest' : s'.rest ≠ [] := by
    have hempty := h.blurred.isEmpty
    rintro heq
    rw [heq] at hempty
    exact hrest (List.isEmpty_iff.mp hempty.symm)
  -- neither state begins a line: the last character read is no newline in the one, and the blank
  -- in the other
  have hstart : ((s.rest.take n).getLast?.map (· == '\n')).getD s.atLineStart = false :=
    atLineStart_advance hline hn hrest
  have hstart' : ((s'.rest.take (n + 1)).getLast?.map (· == '\n')).getD s'.atLineStart = false :=
    atLineStart_advance hline' (Nat.succ_pos n) hrest'
  obtain ⟨k, rfl, hk, -⟩ := h
  refine ⟨((s.moved k).emit kind (n + 1) value).place, ?_, ⟨hk.modes, ?_, hk.comments⟩, .inr ⟨hX, hY⟩⟩
  · simp only [State.emit, State.advance, State.place, hstart, hstart']
    rfl
  · show _ :: k.tokens.map Token.pair = _ :: s.tokens.map Token.pair
    rw [hk.tokens]
    rfl

/-- A character after its question mark. -/
def State.character (s : State) (piece : Piece) : State :=
  let reported := match piece.fault? with
    | some fault =>
      { s with diagnostics :=
          fault.diagnostic (s.spanOf (s.pos + 1) (s.pos + 1 + byteLength piece.source))
            :: s.diagnostics }
    | none => s
  { reported.emit .tCHARACTER (1 + piece.source.length) piece.value with expect := .operator }

theorem rest_character (s : State) (piece : Piece) :
    (s.character piece).rest = s.rest.drop (1 + piece.source.length) := by
  unfold State.character
  dsimp only
  split <;> rfl

theorem questionMark_eq (s : State) : s.questionMark =
    match if s.beginsValue || (s.expect == .argument && s.spaced) then
        State.characterPiece? (s.rest.drop 1) else none with
    | some piece => s.character piece
    | none =>
      let mark := s.operator .tEH 1
      { mark with ternaries := mark.depth :: mark.ternaries } := rfl

theorem follows_character (h : Alike X Y d s s') (piece : Piece) :
    Follows X Y d (s.character piece) (s'.character piece) := by
  unfold State.character
  dsimp only
  split
  next => exact (follows_emit (h.diagnosed _ _) _ _ _).context (contextual_expect .operator)
  next => exact (follows_emit h _ _ _).context (contextual_expect .operator)

/-- A character that takes the blank before the comment. -/
theorem Alike.character_overtaking (h : Alike X Y d s s') {c : Char} {r r' : List Char}
    (hc : c ≠ '\n') (hr : s.rest = c :: r) (hr' : s'.rest = c :: r') {piece piece' : Piece}
    (hsource : piece.source <+: r) (hsource' : piece'.source <+: r')
    (hovertakes : Overtakes X Y r r' piece piece') :
    Abreast X Y d (s.character piece) (s'.character piece') := by
  have hlength : 1 + piece'.source.length = 1 + piece.source.length + 1 := by
    rw [hovertakes.source_eq, List.length_append]
    rfl
  have hline : OneLine s.rest (1 + piece.source.length) := by
    rw [hr, Nat.add_comm]
    exact (oneLine_of_isPrefix hsource hovertakes.line).cons hc
  have hline' : OneLine s'.rest (1 + piece'.source.length) := by
    rw [hr', Nat.add_comm]
    refine (oneLine_of_isPrefix hsource' ?_).cons hc
    rw [hovertakes.source_eq, List.mem_append]
    exact not_or.mpr ⟨hovertakes.line, by decide⟩
  -- behind the pieces the place is passed in both texts, by one blank more in the second
  have hX : s.rest.drop (1 + piece.source.length) = X := by
    rw [hr, Nat.add_comm]
    exact hovertakes.rest
  have hY : ' ' :: s'.rest.drop (1 + piece'.source.length) = Y := by
    rw [hr', Nat.add_comm]
    exact hovertakes.rest'
  rw [hlength] at hline' hY
  have hne : s.rest ≠ [] := hr ▸ List.cons_ne_nil _ _
  have hpos : 0 < 1 + piece.source.length := by omega
  have hreported : ∀ ds ds', Abreast X Y d
      ({ s with diagnostics := ds }.emit .tCHARACTER (1 + piece.source.length) piece.value)
      ({ s' with diagnostics := ds' }.emit .tCHARACTER (1 + piece.source.length + 1) piece.value) :=
    fun ds ds' => (h.diagnosed ds ds').emit_overtaking hpos hne hline hline' hX hY _ _
  unfold State.character
  rw [hovertakes.value_eq, hovertakes.fault_eq, hlength]
  dsimp only
  split
  next => exact (hreported _ _).context (contextual_expect .operator)
  next => exact (hreported _ _).context (contextual_expect .operator)

theorem follows_questionMark (h : Alike X Y d s s') {c : Char} {r r' : List Char} (hc : c ≠ '\n')
    (hr : s.rest = c :: r) (hr' : s'.rest = c :: r') (hbehind : Blurred X Y r r') :
    Follows X Y d s.questionMark s'.questionMark := by
  have hmark : Follows X Y d { s.operator .tEH 1 with
      ternaries := (s.operator .tEH 1).depth :: (s.operator .tEH 1).ternaries } { s'.operator .tEH 1 with
      ternaries := (s'.operator .tEH 1).depth :: (s'.operator .tEH 1).ternaries } := by
    have hF : Contextual fun s => { s with ternaries := s.depth :: s.ternaries } := fun _ _ => rfl
    exact (follows_operator h .tEH 1).context hF
  -- an escape by code points may end at the place in the one text and take the blank in the other
  have hcharacter : ∀ {piece : Piece}, State.characterPiece? r = some piece →
      X.length ≤ (s.character piece).rest.length →
      ∃ piece', State.characterPiece? r' = some piece' ∧
        Abreast X Y d (s.character piece) (s'.character piece') := by
    intro piece hpiece hlength
    have hbefore : X.length ≤ (r.drop piece.source.length).length := by
      rwa [rest_character, hr, Nat.add_comm] at hlength
    rcases hbehind.characterPiece?_eq_some hpiece hbefore with hsame | ⟨piece', hpiece', hovertakes⟩
    · exact ⟨piece, hsame, follows_character h piece hlength⟩
    · exact ⟨piece', hpiece', h.character_overtaking hc hr hr' (characterPiece?_isPrefix hpiece)
        (characterPiece?_isPrefix hpiece') hovertakes⟩
  have hdrop : s.rest.drop 1 = r := by rw [hr]; rfl
  have hdrop' : s'.rest.drop 1 = r' := by rw [hr']; rfl
  rw [questionMark_eq, questionMark_eq, hdrop, hdrop']
  obtain ⟨k, rfl, -⟩ := id h
  rw [show (s.moved k).beginsValue = s.beginsValue from rfl, show (s.moved k).expect = s.expect from rfl,
    show (s.moved k).spaced = s.spaced from rfl]
  generalize (s.beginsValue || (s.expect == .argument && s.spaced)) = allowed
  cases allowed with
  | false => exact hmark
  | true =>
      rw [if_pos rfl, if_pos rfl]
      cases hpiece : State.characterPiece? r with
      | none =>
          rw [hbehind.characterPiece?_eq_none hpiece]
          exact hmark
      | some piece =>
          intro hlength
          obtain ⟨piece', hpiece', habreast⟩ := hcharacter hpiece hlength
          rw [hpiece']
          exact habreast

/-! ## §7. All punctuation. -/

/-- Behind a spelling that is seen the texts still part at the same place. -/
theorem Alike.behind_spelling (h : Alike X Y d s s') {spelling : String}
    (hspelling : '\n' ∉ spelling.toList) (hsees : s.sees spelling = true) :
    Blurred X Y (s.rest.drop spelling.length) (s'.rest.drop spelling.length) :=
  h.blurred.drop_of_line (oneLine_of_isPrefixOf hspelling hsees) (length_le_of_isPrefixOf hsees)

theorem follows_punctuation (h : Alike X Y d s s') {c : Char} {r r' : List Char} (hc : c ≠ '\n')
    (hr : s.rest = c :: r) (hr' : s'.rest = c :: r') (hbehind : Blurred X Y r r') :
    Follows X Y d (s.punctuation c) (s'.punctuation c) := by
  have hdrop : Blurred X Y (s.rest.drop 1) (s'.rest.drop 1) := by
    rw [hr, hr']
    exact hbehind
  unfold State.punctuation
  rw [h.blurred.findSpelling plainPunctuation (by decide),
    h.sees "->" (by decide), h.sees "**" (by decide),
    h.sees "&." (by decide)]
  split
  next => exact follows_operator h _ _
  next => exact follows_assignment h _
  next =>
    -- one condition after the other, each of which holds in both states or in neither
    refine rel_ite Iff.rfl (fun _ => ?_) fun _ => ?_
    · exact follows_operator (h.context contextual_closeDefinition) .tEQL 1
    refine rel_ite Iff.rfl (fun _ => follows_plusOrMinus h hdrop false) fun _ => ?_
    refine rel_ite Iff.rfl (fun _ => ?_) fun _ => ?_
    · exact rel_ite Iff.rfl (fun _ => follows_lambdaArrow h) fun _ => follows_plusOrMinus h hdrop true
    refine rel_ite Iff.rfl (fun _ => ?_) fun _ => ?_
    · exact rel_ite Iff.rfl
        (fun hsees => follows_argumentMark h "**" (h.behind_spelling (by decide) hsees) .tDSTAR .tPOW)
        fun _ => follows_argumentMark h "*" hdrop .tSTAR .tSTAR2
    refine rel_ite Iff.rfl (fun _ => follows_slash h hdrop) fun _ => ?_
    refine rel_ite Iff.rfl (fun _ => ?_) fun _ => ?_
    · exact rel_ite Iff.rfl (fun _ => follows_emitThen h .tANDDOT 2 .method)
        fun _ => follows_argumentMark h "&" hdrop .tAMPER .tAMPER2
    refine rel_ite Iff.rfl (fun _ => follows_bar h) fun _ => ?_
    obtain ⟨k, rfl, -⟩ := id h
    refine rel_ite Iff.rfl (fun _ => follows_openBracket h .paren _) fun _ => ?_
    refine rel_ite Iff.rfl (fun _ => ?_) fun _ => ?_
    · exact (follows_closeBracket h .tRPAREN).context contextual_closeDefinition
    refine rel_ite Iff.rfl (fun _ => follows_openBracket h .square _) fun _ => ?_
    refine rel_ite Iff.rfl (fun _ => follows_closeBracket h .tRBRACK) fun _ => ?_
    refine rel_ite Iff.rfl (fun _ => follows_openBrace h) fun _ => ?_
    refine rel_ite Iff.rfl (fun _ => follows_closeBrace h) fun _ => ?_
    refine rel_ite Iff.rfl (fun _ => follows_points h) fun _ => ?_
    refine rel_ite Iff.rfl (fun _ => follows_colons h hdrop) fun _ => ?_
    refine rel_ite Iff.rfl (fun _ => follows_questionMark h hc hr hr' hbehind) fun _ => ?_
    refine rel_ite Iff.rfl (fun _ => follows_emitThen h .tCOMMA 1 _) fun _ => ?_
    refine rel_ite Iff.rfl (fun _ => ?_) fun _ => follows_reject h _ 1
    exact (follows_operator h .tSEMI 1).context contextual_endStatement

/-- A method name made of operator characters is there in both states or in none. -/
theorem follows_operatorName? (h : Alike X Y d s s') :
    (s.operatorName? = none ∧ s'.operatorName? = none) ∨
      ∃ a a', s.operatorName? = some a ∧ s'.operatorName? = some a' ∧ Follows X Y d a a' := by
  unfold State.operatorName?
  rw [h.blurred.findSpelling methodOperators (by decide)]
  cases findSpelling methodOperators s.rest with
  | none => exact .inl ⟨rfl, rfl⟩
  | some entry =>
      exact .inr ⟨_, _, rfl, rfl, (follows_emitSpelt h entry.2 _).context contextual_endName⟩

/-! ## §8. Names and variables. -/

theorem follows_definedWord (h : Alike X Y d s s') (word : Word)
    (hbehind : Blurred X Y (s.rest.drop word.chars.length) (s'.rest.drop word.chars.length)) :
    Follows X Y d (s.definedWord word) (s'.definedWord word) := by
  have hpoint := hbehind.head?_and (c := '.') (by decide) (f := fun t => t.head? != some '.')
    fun h => by rw [bne, bne, h.head? (by decide)]
  have hequals := hbehind.head?_and (c := '=') (by decide) (f := fun t => t.head? == some '(')
    fun h => h.head? (by decide)
  unfold State.definedWord
  dsimp only
  rw [Bool.and_assoc, Bool.and_assoc, Bool.and_assoc, Bool.and_assoc]
  rw [hpoint, hequals]
  obtain ⟨k, rfl, -⟩ := id h
  refine rel_ite Iff.rfl (fun _ => follows_emitThen h _ _ .operator) fun _ => ?_
  refine rel_ite Iff.rfl (fun _ => ?_) fun _ => ?_
  · exact (follows_emitSpelt h _ _).context contextual_endName
  · exact (follows_emitSpelt h _ _).context contextual_endName

theorem follows_label (h : Alike X Y d s s') (chars : List Char) :
    Follows X Y d (s.label chars) (s'.label chars) := by
  intro hlength
  have hbehind : Blurred X Y (s.rest.drop (chars.length + 1)) (s'.rest.drop (chars.length + 1)) :=
    h.blurred.drop hlength
  unfold State.label
  dsimp only
  rw [hbehind.labelCloses]
  exact (follows_emit h .tLABEL _ chars).context (contextual_expect _) hlength

theorem Alike.keywordKind (h : Alike X Y d s s') (keyword : Kind) :
    (s'.keywordKind keyword).1 = (s.keywordKind keyword).1 ∧
      Alike X Y d (s.keywordKind keyword).2 (s'.keywordKind keyword).2 := by
  have hloop : Contextual fun s => { s with loopAt := none } := fun _ _ => rfl
  unfold State.keywordKind
  obtain ⟨k, rfl, -⟩ := id h
  rw [show ((s.moved k).loopAt == some (s.moved k).depth) = (s.loopAt == some s.depth) from rfl,
    show ((s.moved k).lambdaAt == some (s.moved k).depth) = (s.lambdaAt == some s.depth) from rfl,
    show ((s.moved k).expect == .value) = (s.expect == .value) from rfl]
  split
  · split
    · exact ⟨rfl, h.context hloop⟩
    · split
      · exact ⟨rfl, h.context contextual_closeLambda⟩
      · exact ⟨rfl, h⟩
  · split
    · exact ⟨rfl, h⟩
    · exact ⟨rfl, h⟩

theorem follows_keyword (h : Alike X Y d s s') (keyword : Kind) (n : Nat) :
    Follows X Y d (s.keyword keyword n) (s'.keyword keyword n) := by
  obtain ⟨hkind, hcontext⟩ := h.keywordKind keyword
  unfold State.keyword
  dsimp only
  rw [hkind]
  exact (follows_emitSpelt hcontext _ n).context (contextual_afterKeyword _)

theorem follows_plainName (h : Alike X Y d s s') (word : Word)
    (hbehind : Blurred X Y (s.rest.drop word.chars.length) (s'.rest.drop word.chars.length)) :
    Follows X Y d (s.plainName word) (s'.plainName word) := by
  unfold State.plainName
  dsimp only
  -- what binds the name is seen in both texts
  rw [h.lastKind, hbehind.assignmentAhead]
  obtain ⟨k, rfl, -⟩ := id h
  refine rel_ite Iff.rfl (fun _ => ?_) fun _ => follows_emitThen h _ _ .argument
  rw [show (s.moved k).params = s.params from rfl]
  generalize (s.params != .none || s.lastKind == some .kFOR ||
    assignmentAhead (s.rest.drop word.chars.length)) = binds
  have hF : Contextual fun s => { s with
      locals :=
        if binds && !s.locals.contains (String.ofList word.chars) then
          String.ofList word.chars :: s.locals
        else s.locals } := fun _ _ => rfl
  exact follows_emitThen (h.context hF) _ _ _

theorem follows_word (h : Alike X Y d s s') : Follows X Y d s.word s'.word := by
  have hbehind := h.blurred.drop_word
  have hcolon := hbehind.head?_and (c := ':') (by decide) (f := fun t => t.head? != some ':')
    fun h => by rw [bne, bne, h.head? (by decide)]
  unfold State.word
  dsimp only
  rw [h.blurred.readWord]
  generalize readWord s.rest = word at hbehind hcolon ⊢
  have hlabel : ∀ allowed : Bool,
      (!word.marked && (s'.rest.drop word.chars.length).head? == some ':' &&
        (s'.rest.drop word.chars.length).tail.head? != some ':' && allowed) =
      (!word.marked && (s.rest.drop word.chars.length).head? == some ':' &&
        (s.rest.drop word.chars.length).tail.head? != some ':' && allowed) := by
    intro allowed
    simpa only [Bool.and_assoc] using congrArg (fun b => !word.marked && b && allowed) hcolon
  rw [hlabel]
  obtain ⟨k, rfl, -⟩ := id h
  -- the name of a definition, of a call, of a label; a keyword, or any other name
  refine rel_ite Iff.rfl (fun _ => follows_definedWord h word hbehind) fun _ => ?_
  refine rel_ite Iff.rfl (fun _ => follows_emitThen h _ _ .argument) fun _ => ?_
  refine rel_ite Iff.rfl (fun _ => follows_label h word.chars) fun _ => ?_
  cases keyword? (String.ofList word.chars) with
  | some keyword => exact follows_keyword h keyword _
  | none => exact follows_plainName h word hbehind

theorem follows_atVariable (h : Alike X Y d s s')
    (hdrop : Blurred X Y (s.rest.drop 1) (s'.rest.drop 1)) :
    Follows X Y d s.atVariable s'.atVariable := by
  have hbehind : Blurred X Y (s.rest.drop (if s.sees "@@" then 2 else 1))
      (s'.rest.drop (if s.sees "@@" then 2 else 1)) := by
    split
    next hsees => exact h.behind_spelling (by decide) hsees
    next => exact hdrop
  unfold State.atVariable
  dsimp only
  rw [h.sees "@@" (by decide), hbehind.nextIs (by decide), hbehind.takeWhile (by decide)]
  obtain ⟨k, rfl, -⟩ := id h
  refine rel_ite Iff.rfl (fun _ => ?_) fun _ => follows_reject h _ _
  exact (follows_emitSpelt h _ _).endWord s

theorem follows_globalVariable (h : Alike X Y d s s')
    (hdrop : Blurred X Y (s.rest.drop 1) (s'.rest.drop 1)) :
    Follows X Y d s.globalVariable s'.globalVariable := by
  have hemit : ∀ kind n, Follows X Y d
      (s.emit kind (n + 1) (if kind = .tNTH_REF then (s.rest.drop 1).take n else s.rest.take (n + 1)))
      (s'.emit kind (n + 1)
        (if kind = .tNTH_REF then (s'.rest.drop 1).take n else s'.rest.take (n + 1))) := by
    intro kind n hn
    have hname : X.length ≤ ((s.rest.drop 1).drop n).length := by
      rwa [List.drop_drop, Nat.add_comm]
    rw [hdrop.take hname, h.blurred.take hn]
    exact follows_emit h kind _ _ hn
  unfold State.globalVariable
  rw [hdrop.globalLength?]
  obtain ⟨k, rfl, -⟩ := id h
  split
  next kind n _ => exact (hemit kind n).endWord s
  next => exact follows_reject h .bareGlobalVariable 1

/-! ## §9. Newlines, and any piece of code. -/

theorem follows_newline (h : Alike X Y d s s') : Follows X Y d s.newline s'.newline := by
  intro hlength
  have hdrop : Blurred X Y (s.rest.drop 1) (s'.rest.drop 1) := by
    refine h.blurred.drop ?_
    unfold State.newline at hlength
    split at hlength
    · exact hlength
    · exact hlength
  revert hlength
  unfold State.newline
  rw [hdrop.continuesWithCall]
  obtain ⟨k, rfl, -⟩ := id h
  refine rel_ite (R := Follows X Y d) Iff.rfl (fun _ => ?_) fun _ => follows_blank h 1
  exact (follows_emitSpelt h .tNL 1).context contextual_endStatement

/-- **Any piece of code but a comment leads from states that are alike to states that are
abreast.** -/
theorem follows_token (h : Alike X Y d s s') {c : Char} {r r' : List Char} (hc : c ≠ '#')
    (hr : s.rest = c :: r) (hr' : s'.rest = c :: r') (hbehind : Blurred X Y r r') :
    Follows X Y d (s.token c) (s'.token c) := by
  have hdrop : Blurred X Y (s.rest.drop 1) (s'.rest.drop 1) := by
    rw [hr, hr']
    exact hbehind
  unfold State.token
  refine rel_ite Iff.rfl (fun hmark => absurd (beq_iff_eq.mp hmark) hc) fun _ => ?_
  refine rel_ite Iff.rfl (fun _ => follows_newline h) fun hline => ?_
  have hline : c ≠ '\n' := fun heq => hline (beq_iff_eq.mpr heq)
  have hoperator := follows_operatorName? h
  have hpunctuation := follows_punctuation h hline hr hr' hbehind
  -- from here on the first character and the context decide, and they are the same
  obtain ⟨k, rfl, -⟩ := id h
  refine rel_ite Iff.rfl (fun _ => follows_number h 0 false h.blurred) fun _ => ?_
  refine rel_ite Iff.rfl (fun _ => follows_openLiteral h .string c true .tSTRING_BEG 1) fun _ => ?_
  refine rel_ite Iff.rfl (fun _ => follows_openLiteral h .string c false .tSTRING_BEG 1) fun _ => ?_
  refine rel_ite Iff.rfl (fun _ => follows_openLiteral h .command c true .tXSTRING_BEG 1) fun _ => ?_
  refine rel_ite Iff.rfl (fun _ => follows_atVariable h hdrop) fun _ => ?_
  refine rel_ite Iff.rfl (fun _ => follows_globalVariable h hdrop) fun _ => ?_
  refine rel_ite Iff.rfl (fun _ => follows_word h) fun _ => ?_
  rw [show (s.moved k).expect = s.expect from rfl]
  cases s.expect == .definedName with
  | false => exact hpunctuation
  | true =>
      rw [if_pos rfl, if_pos rfl]
      rcases hoperator with ⟨hnone, hnone'⟩ | ⟨a, a', hsome, hsome', hfollows⟩
      · rw [hnone, hnone']
        exact hpunctuation
      · rw [hsome, hsome']
        exact hfollows

end Token.Lexer

end RubySyntax
