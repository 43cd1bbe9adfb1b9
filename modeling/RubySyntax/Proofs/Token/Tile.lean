/-
  RubySyntax.Proofs.Token.Tile
  ────────────────────────────
  **THE WORD `do` BETWEEN TWO TOKENS.**

  What has been read of a text is laid out in tiles: tokens, comments, blanks, and stretches that
  are rejected.  A tile that is no token is quiet: blanks aside, it does not begin with a `d`.  So
  is the token of a newline, a semicolon, a comma or an `end`.  A token `do` of a loop is these two
  characters, and its word ends there.  So from the text between two places where tiles meet it can
  be told whether a `do` of a loop comes first, if all tokens there are of these kinds:

      header # do      header \⏎do      header ; done      header  do

  What a token begins with also says whether it assigns: the look ahead of a name sees each operator
  that does, where it stands.

  Main results:
    • `lays_word`, `lays_stepCode` — what the text of a token says about its kind,
    • `Tiled.step` — each step lays tiles,
    • `lex_beginsWithDo` — the text between two places begins with `do` exactly if a `do` of a loop
      stands there and only blanks are before it.
-/
import RubySyntax.Node.Loop
import RubySyntax.Proofs.Token.Marker
import RubySyntax.Proofs.Token.Number

namespace RubySyntax

open RubySyntax.Text

/-! ## §1. Quiet texts. -/

/-- Blanks at its beginning aside, a text does not begin with a `d`. -/
def Quiet (cs : List Char) : Prop := (cs.dropWhile isBlank).head? ≠ some 'd'

section Quiet

variable {cs a b : List Char} {c : Char}

theorem quiet_of_blank (h : cs.all isBlank = true) : Quiet cs := by
  have hdrop : cs.dropWhile isBlank = [] := List.dropWhile_eq_nil_iff.mpr (List.all_eq_true.mp h)
  rw [Quiet, hdrop]
  exact nofun

theorem quiet_cons (hc : isBlank c = false) (hd : c ≠ 'd') : Quiet (c :: cs) := by
  rw [Quiet, List.dropWhile_cons, hc]
  exact fun h => hd (Option.some.inj h)

/-- A quiet text is blank, or whatever stands behind it does not show. -/
theorem Quiet.blank_or (h : Quiet a) : a.all isBlank = true ∨ ∀ b, Quiet (a ++ b) := by
  cases hrest : a.dropWhile isBlank with
  | nil => exact .inl (List.all_eq_true.mpr (List.dropWhile_eq_nil_iff.mp hrest))
  | cons c rest =>
      refine .inr fun b => ?_
      rw [Quiet, hrest] at h
      rw [Quiet, List.dropWhile_append, hrest]
      exact h

theorem Quiet.append (ha : Quiet a) (hb : Quiet b) : Quiet (a ++ b) := by
  rcases ha.blank_or with hblank | hquiet
  · rwa [Quiet, List.dropWhile_append_of_pos (List.all_eq_true.mp hblank)]
  · exact hquiet b

theorem quiet_flatMap {α : Type} {text : α → List Char} {as : List α}
    (h : ∀ a ∈ as, Quiet (text a)) : Quiet (as.flatMap text) := by
  induction as with
  | nil => exact quiet_of_blank rfl
  | cons a as ih =>
      obtain ⟨ha, has⟩ := List.forall_mem_cons.mp h
      exact ha.append (ih has)

/-- A quiet text does not begin with `do`. -/
theorem Quiet.beginsWithDo (h : Quiet cs) : Node.beginsWithDo cs = false := by
  rw [Quiet] at h
  unfold Node.beginsWithDo
  split
  next heq => exact absurd (by rw [heq]; rfl) h
  next heq => exact absurd (by rw [heq]; rfl) h
  next => rfl

/-- If a text begins with `do`, what is quiet at its beginning is blank. -/
theorem Quiet.blank_of_beginsWithDo (ha : Quiet a) (h : Node.beginsWithDo (a ++ b) = true) :
    a.all isBlank = true := by
  refine ha.blank_or.resolve_right fun hquiet => ?_
  rw [(hquiet b).beginsWithDo] at h
  cases h

theorem beginsWithDo_append (ha : a.all isBlank = true) :
    Node.beginsWithDo (a ++ b) = Node.beginsWithDo b := by
  unfold Node.beginsWithDo
  rw [List.dropWhile_append_of_pos (List.all_eq_true.mp ha)]

end Quiet

namespace Token.Lexer

open State

/-- A character that is in no word is neither a letter nor a digit nor a low line. -/
theorem of_not_isNameChar {c : Char} (h : isNameChar c = false) :
    isAlphanumeric c = false ∧ (c == '_') = false := by
  simp only [isNameChar, isNameStart, Bool.or_eq_false_iff, Bool.not_eq_false'] at h
  obtain ⟨⟨⟨hline, hletter⟩, hascii⟩, hdigit⟩ := h
  exact ⟨by rw [isAlphanumeric, hascii, if_pos rfl, hletter, hdigit]; rfl, hline⟩

/-- The word `do`, and some of what comes after it. -/
theorem beginsWithDo_word {more after : List Char} (hmore : more <+: after)
    (h : nextIs isNameChar after = false) : Node.beginsWithDo ('d' :: 'o' :: more) = true := by
  have hd : isBlank 'd' = false := by decide
  rw [Node.beginsWithDo, List.dropWhile_cons_of_neg (by rw [hd]; exact Bool.false_ne_true)]
  cases more with
  | nil => rfl
  | cons c more =>
      obtain ⟨rest, rfl⟩ := hmore
      obtain ⟨halphanumeric, hline⟩ := of_not_isNameChar (c := c) h
      simp [halphanumeric, hline]

/-! ## §2. Words and marks. -/

/-- The kinds of tokens that are quiet and may stand around the `do` of a loop. -/
def quietKinds : List Kind := [.tCOMMA, .tNL, .tSEMI, .kEND]

/-- The kinds of the operators that assign. -/
def assignmentKinds : List Kind := [.tEQL, .tOP_ASGN]

/-- What the first characters of a text say about the kind of the token that they become. -/
structure Tells (rest : List Char) (kind : Kind) (n : Nat) : Prop where
  /-- A token of a quiet kind is quiet. -/
  quiet : kind ∈ quietKinds → Quiet (rest.take n)
  /-- The `do` of a loop is a whole word. -/
  word : kind = .kDO_COND → rest.take n = ['d', 'o'] ∧ nextIs isNameChar (rest.drop n) = false
  /-- The look ahead sees an operator that assigns. -/
  assigns : kind ∈ assignmentKinds → assignmentAhead rest = true

/-- A step past the next characters. -/
structure Takes (s s' : State) (n : Nat) : Prop where
  le : n ≤ s.rest.length
  rest_eq : s'.rest = s.rest.drop n
  pos_eq : s'.pos = s.pos + s.bytesOfNext n

/-- A step lays a tile: a token that its text tells about, or quiet text, which opens and closes no
literal. -/
inductive Lays (s s' : State) : Prop where
  | token {kind : Kind} {n : Nat} {value : String} (takes : Takes s s' n)
      (tokens : s'.tokens = ⟨kind, value, s.spanOfNext n⟩ :: s.tokens)
      (tells : Tells s.rest kind n)
  | other {n : Nat} (takes : Takes s s' n) (tokens : s'.tokens = s.tokens)
      (modes : s'.modes = s.modes) (quiet : Quiet (s.rest.take n))

theorem tells_of_other {rest : List Char} {kind : Kind} {n : Nat} (hquiet : kind ∉ quietKinds)
    (hword : kind ≠ .kDO_COND) (hassigns : kind ∉ assignmentKinds) : Tells rest kind n :=
  ⟨fun h => absurd h hquiet, fun h => absurd h hword, fun h => absurd h hassigns⟩

theorem tells_nameKind {rest : List Char} (word : Word) (n : Nat) :
    Tells rest (nameKind word) n := by
  unfold nameKind
  split
  · exact tells_of_other (by decide) (by decide) (by decide)
  split
  · exact tells_of_other (by decide) (by decide) (by decide)
  · exact tells_of_other (by decide) (by decide) (by decide)

/-- The word that a keyword is. -/
theorem keyword?_eq_some {kind : Kind} {word : String} (h : keyword? word = some kind) :
    (kind = .kDO → word = "do") ∧ (kind ∈ quietKinds → word = "end") ∧ kind ≠ .kDO_COND ∧
      modifierKind kind ≠ .kDO_COND ∧ (modifierKind kind ∈ quietKinds → word = "end") ∧
        kind ∉ assignmentKinds ∧ modifierKind kind ∉ assignmentKinds := by
  have hall : ∀ entry ∈ keywords, (entry.2 = .kDO → entry.1 = "do") ∧
      (entry.2 ∈ quietKinds → entry.1 = "end") ∧ entry.2 ≠ .kDO_COND ∧
        modifierKind entry.2 ≠ .kDO_COND ∧
          (modifierKind entry.2 ∈ quietKinds → entry.1 = "end") ∧
            entry.2 ∉ assignmentKinds ∧ modifierKind entry.2 ∉ assignmentKinds := by
    decide
  obtain ⟨before, after, heq, -⟩ := List.lookup_eq_some_iff.mp h
  exact hall (word, kind) (heq ▸ List.mem_append_right _ List.mem_cons_self)

/-- Behind a run of characters there is none of them. -/
theorem nextIs_dropWhile {p : Char → Bool} (cs : List Char) :
    nextIs p (cs.dropWhile p) = false := by
  cases hrest : cs.dropWhile p with
  | nil => rfl
  | cons c rest =>
      have hhead := List.head?_dropWhile_not p cs
      rw [hrest] at hhead
      simpa [nextIs] using hhead

/-- A word without a mark is followed by no character of a word. -/
theorem nextIs_drop_readWord {cs : List Char} (h : (readWord cs).chars = ['d', 'o']) :
    nextIs isNameChar (cs.drop 2) = false := by
  -- the characters of the word are those of the name, which has no mark
  have hname : cs.takeWhile isNameChar = ['d', 'o'] := by
    simp only [readWord] at h
    split at h
    next mark rest _ =>
      split at h
      next hmark =>
        have hlast := congrArg List.getLast? h
        rw [List.getLast?_concat] at hlast
        obtain rfl : mark = 'o' := Option.some.inj hlast
        simp at hmark
      next => exact h
    next => exact h
  have hdrop : cs.drop 2 = cs.dropWhile isNameChar := by
    conv_lhs => rw [← List.takeWhile_append_dropWhile (p := isNameChar) (l := cs), hname]
    rfl
  rw [hdrop]
  exact nextIs_dropWhile cs

/-! ## §3. Words. -/

section Words

variable {s s' : State} {kind : Kind} {n : Nat}

/-- A token, whatever becomes of the context. -/
theorem lays_records {t : State} {value : List Char} (hn : n ≤ s.rest.length)
    (hrecords : s'.records = (t.emit kind n value).records) (ht : t.records = s.records)
    (hlines : t.lines = s.lines) (htells : Tells s.rest kind n) : Lays s s' := by
  have hrest : t.rest = s.rest := congrArg Records.rest ht
  have hpos : t.pos = s.pos := congrArg Records.pos ht
  have htokens : t.tokens = s.tokens := congrArg Records.tokens ht
  have hbytes : t.bytesOfNext n = s.bytesOfNext n := by rw [State.bytesOfNext, hrest]; rfl
  have hspan : t.spanOfNext n = s.spanOfNext n := by
    rw [State.spanOfNext, State.spanOf, hbytes, hpos, hlines]
    rfl
  have hemitted : s'.tokens = ⟨kind, String.ofList value, s.spanOfNext n⟩ :: s.tokens := by
    rw [← hspan, ← htokens]
    exact congrArg Records.tokens hrecords
  refine .token ⟨hn, ?_, ?_⟩ hemitted htells
  · exact (congrArg Records.rest hrecords).trans (congrArg (List.drop n) hrest)
  · refine (congrArg Records.pos hrecords).trans ?_
    show t.pos + t.bytesOfNext n = _
    rw [hpos, hbytes]

theorem lays_emit {t : State} {value : List Char} (hn : n ≤ s.rest.length)
    (hframe : s'.frame = (t.emit kind n value).frame) (ht : t.frame = s.frame)
    (htells : Tells s.rest kind n) : Lays s s' :=
  lays_records hn (congrArg (·.1) hframe) (congrArg (·.1) ht) (congrArg (·.2.1) ht) htells

/-- A keyword tells what its characters are. -/
theorem lays_keyword {word : Word} (hn : word.chars.length ≤ s.rest.length)
    (hword : word = readWord s.rest) (hkind : keyword? (String.ofList word.chars) = some kind) :
    Lays s (s.keyword kind word.chars.length) := by
  obtain ⟨hdo, hend, hnot, hmodified, hmodifiedEnd, hassigns, hassignsModified⟩ :=
    keyword?_eq_some hkind
  have htake : s.rest.take word.chars.length = word.chars := by
    obtain ⟨after, hafter⟩ := readWord_isPrefix s.rest
    rw [← hword] at hafter
    conv_lhs => rw [← hafter, List.take_left]
  have htells : ∀ {kind'}, kind' ≠ .kDO_COND →
      (kind' ∈ quietKinds → String.ofList word.chars = "end") → kind' ∉ assignmentKinds →
        Tells s.rest kind' word.chars.length := by
    intro kind' hne hquiet hassigns
    refine ⟨fun h => ?_, fun h => absurd h hne, fun h => absurd h hassigns⟩
    rw [htake, String.ofList_injective (hquiet h)]
    exact quiet_cons (by decide) (by decide)
  -- The kind depends on the context; the context that the keyword ends is none of the records.
  have hcontext : (s.keywordKind kind).2.frame = s.frame ∧
      Tells s.rest (s.keywordKind kind).1 word.chars.length := by
    unfold State.keywordKind
    split
    next hkind =>
      split
      · have hchars : word.chars = ['d', 'o'] := String.ofList_injective (hdo hkind)
        refine ⟨rfl, nofun, fun _ => ?_, nofun⟩
        rw [htake, hchars]
        exact ⟨rfl, nextIs_drop_readWord (hword ▸ hchars)⟩
      split
      · exact ⟨rfl, nofun, nofun, nofun⟩
      · exact ⟨rfl, nofun, nofun, nofun⟩
    next =>
      split
      · exact ⟨rfl, htells hnot hend hassigns⟩
      · exact ⟨rfl, htells hmodified hmodifiedEnd hassignsModified⟩
  exact lays_emit hn (frame_afterKeyword _ _) hcontext.1 hcontext.2

/-- **What a word tells.** -/
theorem lays_word (s : State) : Lays s s.word := by
  have hn : (readWord s.rest).chars.length ≤ s.rest.length := (readWord_isPrefix _).length_le
  have hmore : ∀ {d}, (s.rest.drop (readWord s.rest).chars.length).head? = some d →
      (readWord s.rest).chars.length + 1 ≤ s.rest.length := fun hd => add_one_le_of_head? hn hd
  simp only [State.word]
  -- one condition after another, in the order in which the word is tried
  split
  · simp only [State.definedWord]
    split
    · refine lays_emit hn rfl rfl ?_
      split
      · exact tells_of_other (by decide) (by decide) (by decide)
      · exact tells_nameKind _ _
    split
    next hequals =>
      simp only [Bool.and_eq_true, beq_iff_eq] at hequals
      exact lays_emit (hmore hequals.1.2) (frame_endName _) rfl (tells_nameKind _ _)
    next => exact lays_emit hn (frame_endName _) rfl (tells_nameKind _ _)
  split
  · exact lays_emit hn rfl rfl (tells_nameKind _ _)
  split
  next hlabel =>
    simp only [Bool.and_eq_true, beq_iff_eq] at hlabel
    have htells : Tells s.rest .tLABEL ((readWord s.rest).chars.length + 1) :=
      tells_of_other (by decide) (by decide) (by decide)
    exact lays_emit (hmore hlabel.1.1.2) rfl rfl htells
  split
  next kind hkind => exact lays_keyword hn rfl hkind
  next =>
    simp only [State.plainName]
    split
    · exact lays_emit hn rfl rfl (tells_nameKind _ _)
    · exact lays_emit hn rfl rfl (tells_nameKind _ _)

end Words

/-! ## §4. Operators that assign. -/

section Assignments

variable {cs rest : List Char}

/-- An operator that assigns is seen where it stands. -/
theorem assignmentAhead_of_isPrefixOf {op : String} (hop : op ∈ assignmentOperators)
    (h : op.toList.isPrefixOf cs = true) : assignmentAhead cs = true := by
  obtain ⟨more, rfl⟩ := List.isPrefixOf_iff_prefix.mp h
  simp only [assignmentOperators, List.mem_cons, List.not_mem_nil, or_false] at hop
  rcases hop with rfl | rfl | rfl | rfl | rfl | rfl | rfl | rfl | rfl | rfl | rfl | rfl | rfl
  all_goals rfl

/-- So is an equals sign that begins no other operator. -/
theorem assignmentAhead_of_equals (h : findSpelling plainPunctuation ('=' :: rest) = none) :
    assignmentAhead ('=' :: rest) = true := by
  have hnone := List.find?_eq_none.mp h
  show (!nextIs (fun c => c == '=' || c == '~' || c == '>') rest) = true
  rw [Bool.not_eq_true', Bool.eq_false_iff]
  intro hnext
  obtain ⟨c, more, rfl, hc⟩ := exists_cons_of_nextIs hnext
  simp only [Bool.or_eq_true, beq_iff_eq] at hc
  obtain (rfl | rfl) | rfl := hc
  · exact hnone ("==", some .tEQ) (by decide) rfl
  · exact hnone ("=~", some .tMATCH) (by decide) rfl
  · exact hnone ("=>", some .tASSOC) (by decide) rfl

end Assignments

/-! ## §5. Other code. -/

/-- The kinds of tokens that their text tells most about: the `do` of a loop, and the operators that
assign. -/
def tellingKinds : List Kind := .kDO_COND :: assignmentKinds

/-- A token of a kind may begin a text without a word: it is no `do` of a loop, and the look ahead
sees it if it assigns. -/
structure Fits (rest : List Char) (kind : Kind) : Prop where
  word : kind ≠ .kDO_COND
  assigns : kind ∈ assignmentKinds → assignmentAhead rest = true

theorem fits_of_other {rest : List Char} {kind : Kind} (h : kind ∉ tellingKinds) : Fits rest kind :=
  ⟨fun hword => h (hword ▸ List.mem_cons_self),
    fun hassigns => absurd (List.mem_cons_of_mem _ hassigns) h⟩

/-- A step adds no token, or one that may begin the text. -/
def Adds (s s' : State) : Prop :=
  s'.tokens = s.tokens ∨ ∃ t, s'.tokens = t :: s.tokens ∧ Fits s.rest t.kind

section Code

variable {s s' : State} {c : Char} {rest : List Char} {kind : Kind} {n : Nat}

theorem adds_token (kind : Kind) {value : String} {span : Span}
    (h : s'.tokens = ⟨kind, value, span⟩ :: s.tokens) (hkind : kind ∉ tellingKinds) : Adds s s' :=
  .inr ⟨_, h, fits_of_other hkind⟩

/-- An operator that assigns, which the look ahead sees. -/
theorem adds_assignment {kind : Kind} {value : String} {span : Span}
    (h : s'.tokens = ⟨kind, value, span⟩ :: s.tokens) (hkind : kind ≠ .kDO_COND)
    (hahead : assignmentAhead s.rest = true) : Adds s s' :=
  .inr ⟨_, h, hkind, fun _ => hahead⟩

theorem adds_frame (h : Adds s s') {s'' : State} (hframe : s''.frame = s'.frame) : Adds s s'' := by
  have htokens : s''.tokens = s'.tokens := congrArg (·.1.tokens) hframe
  rwa [Adds, htokens]

theorem adds_ite {p : Prop} [Decidable p] {a b : State} (ha : Adds s a) (hb : Adds s b) :
    Adds s (if p then a else b) := by
  split
  · exact ha
  · exact hb

theorem adds_number (hs : s'.tokens = s.tokens) (signLength : Nat) (negative : Bool) :
    Adds s (s'.number signLength negative) := by
  have hkind : ∀ cs, (numberLength cs).1 ∉ tellingKinds := by
    intro cs
    have hbody : (bodyLength cs).1 ∉ tellingKinds := by
      unfold bodyLength
      split
      · simp [tellingKinds, assignmentKinds]
      · dsimp only
        split <;> simp [tellingKinds, assignmentKinds]
    simp only [numberLength]
    split
    · split <;> simp [tellingKinds, assignmentKinds]
    · split
      · simp [tellingKinds, assignmentKinds]
      · exact hbody
  exact adds_token _ (congrArg _ hs) (hkind _)

theorem adds_argumentMark (spelling : String) {mark infixed : Kind} (hmark : mark ∉ tellingKinds)
    (hinfixed : infixed ∉ tellingKinds) : Adds s (s.argumentMark spelling mark infixed) := by
  simp only [State.argumentMark]
  split
  · split
    · exact adds_token _ rfl hmark
    · exact adds_token _ rfl hmark
  · exact adds_token _ rfl hinfixed

theorem adds_slash (s : State) : Adds s s.slash := by
  simp only [State.slash]
  split
  · split
    · exact adds_token .tREGEXP_BEG rfl (by decide)
    · exact adds_token .tREGEXP_BEG rfl (by decide)
  split
  next hsees =>
    have hop : "/=" ∈ assignmentOperators := by decide
    exact adds_assignment rfl (by decide) (assignmentAhead_of_isPrefixOf hop hsees)
  next => exact adds_token .tDIVIDE rfl (by decide)

theorem adds_plusOrMinus (s : State) (minus : Bool) : Adds s (s.plusOrMinus minus) := by
  simp only [State.plusOrMinus]
  split
  · split
    · split
      · exact adds_token .tUMINUS_NUM rfl (by decide)
      · exact adds_token .tUMINUS_NUM rfl (by decide)
    · split
      · exact adds_number rfl 1 minus
      · exact adds_number rfl 1 minus
  · split
    · exact adds_token .tUMINUS rfl (by decide)
    · exact adds_token .tUPLUS rfl (by decide)
    · exact adds_token .tMINUS rfl (by decide)
    · exact adds_token .tPLUS rfl (by decide)

theorem adds_openBracket (bracket : Bracket) {beginning close argument spacedOut : Kind}
    (hbeginning : beginning ∉ tellingKinds) (hclose : close ∉ tellingKinds)
    (hargument : argument ∉ tellingKinds) (hspaced : spacedOut ∉ tellingKinds) :
    Adds s (s.openBracket bracket (s.bracketKind beginning close argument spacedOut)) := by
  refine adds_token _ rfl ?_
  unfold State.bracketKind
  split
  · exact hbeginning
  split
  · exact hclose
  split
  · exact hargument
  · exact hspaced

theorem adds_openBrace (s : State) : Adds s s.openBrace :=
  adds_ite (adds_token .tLAMBEG rfl (by decide))
    (adds_ite (adds_token .tLBRACE rfl (by decide)) (adds_token .tLCURLY rfl (by decide)))

theorem adds_points (s : State) : Adds s s.points := by
  unfold State.points
  split
  · refine adds_token _ rfl ?_
    split <;> decide
  split
  · refine adds_token _ rfl ?_
    split <;> decide
  · exact adds_token .tDOT rfl (by decide)

theorem adds_colons (s : State) : Adds s s.colons := by
  have hcolon : ∀ {t : State}, t.tokens = s.tokens → Adds s (t.operator .tCOLON 1) :=
    fun ht => adds_token .tCOLON (congrArg _ ht) (by decide)
  unfold State.colons
  refine adds_ite (adds_ite (adds_token .tCOLON3 rfl (by decide))
    (adds_token .tCOLON2 rfl (by decide))) (adds_ite (hcolon rfl) ?_)
  split
  · refine adds_ite (adds_token .tSYMBEG rfl (by decide))
      (adds_ite (adds_token .tSYMBEG rfl (by decide)) (adds_ite ?_ (hcolon rfl)))
    exact adds_frame (adds_token .tSYMBOL rfl (by decide)) (frame_endWord _ _)
  · exact hcolon rfl

theorem adds_questionMark (s : State) : Adds s s.questionMark := by
  simp only [State.questionMark]
  split
  · split
    · exact adds_token .tCHARACTER rfl (by decide)
    · exact adds_token .tCHARACTER rfl (by decide)
  · exact adds_token .tEH rfl (by decide)

theorem adds_operatorName? (s : State) : ∀ named ∈ s.operatorName?, Adds s named := by
  intro named hnamed
  obtain ⟨⟨spelling, kind⟩, hfound, rfl⟩ := Option.map_eq_some_iff.mp hnamed
  have hkinds : ∀ entry ∈ methodOperators, entry.2 ∉ tellingKinds := by decide
  have hkind : kind ∉ tellingKinds := hkinds _ (List.mem_of_find?_eq_some hfound)
  exact adds_frame (adds_token _ rfl hkind) (frame_endName _)

theorem adds_punctuation (hrest : s.rest = c :: rest) : Adds s (s.punctuation c) := by
  unfold State.punctuation
  split
  next spelling kind hfound =>
    have hkinds : ∀ entry ∈ plainPunctuation, ∀ kind ∈ entry.2, kind ∉ tellingKinds := by decide
    exact adds_token _ rfl (hkinds _ (List.mem_of_find?_eq_some hfound) kind rfl)
  next spelling hfound =>
    have hspelling : ∀ entry ∈ plainPunctuation, entry.2 = none →
        entry.1 ∈ assignmentOperators := by
      decide
    have hsees := List.find?_some hfound
    exact adds_assignment rfl nofun (assignmentAhead_of_isPrefixOf
      (hspelling _ (List.mem_of_find?_eq_some hfound) rfl) hsees)
  next hnone =>
    by_cases hequals : (c == '=') = true
    · have htokens : s.closeDefinition.tokens = s.tokens :=
        congrArg (·.1.tokens) (frame_closeDefinition s)
      rw [if_pos hequals]
      rw [hrest, beq_iff_eq.mp hequals] at hnone
      refine adds_assignment (congrArg _ htokens) nofun ?_
      rw [hrest, beq_iff_eq.mp hequals]
      exact assignmentAhead_of_equals hnone
    rw [if_neg hequals]
    refine adds_ite (adds_plusOrMinus s _) <| adds_ite
      (adds_ite (adds_token .tLAMBDA rfl (by decide)) (adds_plusOrMinus s _)) <|
      adds_ite (adds_ite (adds_argumentMark _ (by decide) (by decide))
        (adds_argumentMark _ (by decide) (by decide))) <|
      adds_ite (adds_slash s) <|
      adds_ite (adds_ite (adds_token .tANDDOT rfl (by decide))
        (adds_argumentMark _ (by decide) (by decide))) <|
      adds_ite (adds_token .tPIPE rfl (by decide)) <|
      adds_ite (adds_openBracket _ (by decide) (by decide) (by decide) (by decide)) <|
      adds_ite ?_ <|
      adds_ite (adds_openBracket _ (by decide) (by decide) (by decide) (by decide)) <|
      adds_ite (adds_token .tRBRACK rfl (by decide)) <| adds_ite (adds_openBrace s) <|
      adds_ite (adds_ite (adds_token .tSTRING_DEND rfl (by decide))
        (adds_token .tRCURLY rfl (by decide))) <|
      adds_ite (adds_points s) <| adds_ite (adds_colons s) <| adds_ite (adds_questionMark s) <|
      adds_ite (adds_token .tCOMMA rfl (by decide)) <|
      adds_ite (adds_token .tSEMI rfl (by decide)) (.inl rfl)
    exact adds_frame (adds_token .tRPAREN rfl (by decide)) (frame_closeDefinition _)

/-- Code that does not begin with a word. -/
theorem adds_code (hrest : s.rest = c :: rest) (hstart : isNameStart c = false) :
    Adds s (s.token c) := by
  unfold State.token
  rw [hstart]
  refine adds_ite (.inl rfl) <| adds_ite ?_ <| adds_ite (adds_number rfl 0 false) <|
    adds_ite (adds_token .tSTRING_BEG rfl (by decide)) <|
    adds_ite (adds_token .tSTRING_BEG rfl (by decide)) <|
    adds_ite (adds_token .tXSTRING_BEG rfl (by decide)) <| adds_ite ?_ <| adds_ite ?_ ?_
  · exact adds_ite (adds_token .tNL rfl (by decide)) (.inl rfl)
  · unfold State.atVariable
    dsimp only
    refine adds_ite (adds_frame (adds_token _ rfl ?_) (frame_endWord _ _)) (.inl rfl)
    split <;> decide
  · unfold State.globalVariable
    split
    next kind n hkind =>
      have hne : kind ∉ tellingKinds := by
        unfold State.globalLength? at hkind
        split at hkind
        · cases hkind
        · repeat' split at hkind
          all_goals cases hkind
          all_goals decide
      exact adds_frame (adds_token _ rfl hne) (frame_endWord _ _)
    next => exact .inl rfl
  · rw [if_neg Bool.false_ne_true]
    split
    next named hnamed =>
      split at hnamed
      · exact adds_operatorName? s named hnamed
      · cases hnamed
    next => exact adds_punctuation hrest

end Code

/-! ## §6. Steps. -/

section Steps

variable {s s' : State} {c : Char} {rest : List Char} {n : Nat}

theorem Separator.quiet {lexeme : List Char} (h : Separator lexeme) : Quiet lexeme := by
  cases h with
  | @space c hc =>
      refine quiet_of_blank ?_
      simp only [State.isSpace, Bool.or_eq_true, beq_iff_eq] at hc
      rcases hc with ((((rfl | rfl) | rfl) | rfl) | rfl) | rfl <;> decide
  | hidden => exact quiet_cons (by decide) (by decide)
  | hiddenReturn => exact quiet_cons (by decide) (by decide)

/-- A character that is in no word is blank only if it separates tokens. -/
theorem isSpace_of_isBlank (hstart : isNameStart c = false) (hc : isBlank c = true) :
    State.isSpace c = true := by
  have hascii : isAscii c = true := by
    simp only [isNameStart, Bool.or_eq_false_iff, Bool.not_eq_false'] at hstart
    exact hstart.2
  have hall : ∀ code < 0x80, isBlank (Char.ofNat code) = true →
      State.isSpace (Char.ofNat code) = true := by decide
  have := hall c.toNat (by simpa [isAscii] using hascii)
  rw [Char.ofNat_toNat] at this
  exact this hc

/-- A character that tells that what begins with it is quiet. -/
def Heads (c : Char) : Prop := c = '\n' ∨ (isBlank c = false ∧ c ≠ 'd')

theorem quiet_take (hc : Heads c) (hrest : s.rest = c :: rest) (hn : Lexeme s.rest n) :
    Quiet (s.rest.take n) := by
  obtain ⟨⟨hpos, -⟩, hline⟩ := hn
  rw [hrest] at hline ⊢
  cases n with
  | zero => exact absurd hpos (Nat.lt_irrefl 0)
  | succ n =>
      rcases hc with rfl | ⟨hblank, hd⟩
      · -- only the last character may be a newline
        cases n with
        | zero =>
            show Quiet ['\n']
            exact quiet_of_blank (by decide)
        | succ n => exact absurd List.mem_cons_self hline
      · exact quiet_cons hblank hd

theorem quiet_take_of_head (hblank : isBlank c = false) (hd : c ≠ 'd') (hrest : s.rest = c :: rest)
    (hn : 0 < n) : Quiet (s.rest.take n) := by
  rw [hrest]
  cases n with
  | zero => exact absurd hn (Nat.lt_irrefl 0)
  | succ n => exact quiet_cons hblank hd

/-- What a token of code records. -/
theorem Emits.lays (h : Emits s s') (hadds : Adds s s') (hc : Heads c)
    (hrest : s.rest = c :: rest) : Lays s s' := by
  obtain @⟨t, hw, kind, n, value, hn, hrecords, -, -⟩ := h
  have htokens : s'.tokens = ⟨kind, String.ofList value, s.spanOfNext n⟩ :: s.tokens := by
    cases hw with
    | silent => exact congrArg Records.tokens hrecords
    | warning => exact congrArg Records.tokens hrecords
  -- what the step adds is one token, so it is the token that the scan was asked about
  have hkind : Fits s.rest kind := by
    rcases hadds with hsame | ⟨t, ht, hkind⟩
    · have := congrArg List.length (htokens.symm.trans hsame)
      simp at this
    · cases htokens.symm.trans ht
      exact hkind
  have htells : Tells s.rest kind n :=
    ⟨fun _ => quiet_take hc hrest hn, fun h => absurd h hkind.word, hkind.assigns⟩
  cases hw with
  | silent =>
      exact .token ⟨hn.le, congrArg Records.rest hrecords, congrArg Records.pos hrecords⟩ htokens
        htells
  | warning =>
      exact .token ⟨hn.le, congrArg Records.rest hrecords, congrArg Records.pos hrecords⟩ htokens
        htells

/-- Code that does not begin with a word or a blank. -/
theorem Turn.lays (h : Turn s s') (hadds : Adds s s') (hc : Heads c) (hrest : s.rest = c :: rest) :
    Lays s s' := by
  cases h with
  | token hemits => exact hemits.lays hadds hc hrest
  | @character n hn d value _ _ _ =>
      exact .token ⟨hn.le, rfl, rfl⟩ rfl (tells_of_other (by decide) (by decide) (by decide))
  | lineComment hhead =>
      obtain ⟨rest, hrest⟩ := List.head?_eq_some_iff.mp hhead
      exact .other ⟨length_takeWhile_le _ _, rfl, rfl⟩ rfl rfl
        (quiet_take_of_head (by decide) (by decide) hrest (offers_lineComment hhead).pos)
  | document _ hat hn =>
      rw [State.atDocument, Bool.and_eq_true] at hat
      obtain ⟨more, hmore⟩ := List.isPrefixOf_iff_prefix.mp hat.1
      exact .other ⟨documentLength?_le hn, rfl, rfl⟩ rfl rfl
        (quiet_take_of_head (by decide) (by decide) hmore.symm (documentLength?_pos hn))
  | blank hn hblank => exact .other ⟨hn.le, rfl, rfl⟩ rfl rfl hblank.quiet
  | reject hn _ _ => exact .other ⟨hn.le, rfl, rfl⟩ rfl rfl (quiet_take hc hrest hn)

/-- A character that begins a word is code of a word. -/
theorem token_eq_word (s : State) (hstart : isNameStart c = true) : s.token c = s.word := by
  have hne : ∀ {d}, isNameStart d = false → c ≠ d := by
    rintro d hd rfl
    rw [hd] at hstart
    cases hstart
  have hdigit : isDigit c = false := by
    rw [Bool.eq_false_iff]
    intro hdigit
    have := forall_digit (P := (isNameStart · = false)) (by decide) hdigit
    rw [this] at hstart
    cases hstart
  simp [State.token, hne (d := '#') (by decide), hne (d := '\n') (by decide), hdigit,
    hne (d := '\x22') (by decide), hne (d := '\x27') (by decide), hne (d := '\x60') (by decide),
    hne (d := '@') (by decide), hne (d := '$') (by decide), hstart]

/-- Where no blank is and no word begins, what begins is quiet. -/
theorem heads_of_code (hstart : isNameStart c = false)
    (hblank : State.blankLength? (c :: rest) = none) : Heads c := by
  by_cases hend : c = '\n'
  · exact .inl hend
  refine .inr ⟨?_, fun hd => by rw [hd] at hstart; cases hstart⟩
  rw [Bool.eq_false_iff]
  intro hc
  have hspace := isSpace_of_isBlank hstart hc
  have hlength : State.blankLength? (c :: rest) ≠ none := by
    unfold State.blankLength?
    split
    · decide
    · decide
    · simp_all
    · simp_all
  exact hlength hblank

/-- **A step in code lays a tile.** -/
theorem lays_stepCode (hs : s.stepCode = .next s') : Lays s s' := by
  unfold State.stepCode at hs
  split at hs
  · cases hs
  split at hs
  next hat =>
    rw [Bool.and_eq_true] at hat
    have hdocument := hat.2
    rw [State.atDocument, Bool.and_eq_true] at hdocument
    obtain ⟨more, hmore⟩ := List.isPrefixOf_iff_prefix.mp hdocument.1
    split at hs
    next n hn =>
      cases hs
      exact (Turn.document hat.1 hat.2 hn).lays (.inl rfl) (.inr ⟨by decide, by decide⟩) hmore.symm
    next => cases hs
  split at hs
  next => cases hs
  next c rest hrest =>
    split at hs
    next n hn =>
      cases hs
      obtain ⟨-, hle, hseparator⟩ := separator_of_blankLength? hn
      exact .other ⟨hle, rfl, rfl⟩ rfl rfl hseparator.quiet
    next hblank =>
      cases hs
      -- words read on from their first character; every other token is told by it
      by_cases hstart : isNameStart c = true
      · rw [token_eq_word s hstart]
        exact lays_word s
      · rw [Bool.not_eq_true] at hstart
        rw [hrest] at hblank
        exact (turn_token hrest).lays (adds_code hrest hstart) (heads_of_code hstart hblank) hrest

end Steps

/-! ## §7. Tiles. -/

/-- A stretch of a text, and the token that it became, if it became one. -/
structure Tile where
  text : List Char
  token? : Option Token

/-- The text of some tiles. -/
def textOf (tiles : List Tile) : List Char := tiles.flatMap Tile.text

/-- The tokens of some tiles. -/
def tokensOf (tiles : List Tile) : List Token := tiles.filterMap Tile.token?

/-- A tile at an offset, with a text after it. -/
structure Tile.Lies (t : Tile) (offset : Nat) (after : List Char) : Prop where
  place : ∀ u ∈ t.token?, u.span.start = offset ∧ u.span.stop = offset + byteLength t.text
  quiet : (∀ u ∈ t.token?, u.kind ∈ quietKinds) → Quiet t.text
  word : ∀ u ∈ t.token?, u.kind = .kDO_COND → t.text = ['d', 'o'] ∧ nextIs isNameChar after = false

/-- Tiles lie one behind the other, with a text after them. -/
def Laid (tiles : List Tile) (after : List Char) : Prop :=
  ∀ before t behind, tiles = before ++ t :: behind →
    t.Lies (byteLength (textOf before)) (textOf behind ++ after)

/-- What has been read of a text, in tiles. -/
structure Tiled (text : List Char) (tiles : List Tile) (s : State) : Prop where
  text_eq : text = textOf tiles ++ s.rest
  pos_eq : s.pos = byteLength (textOf tiles)
  tokens_eq : s.tokens.reverse = tokensOf tiles
  laid : Laid tiles s.rest

section Tiles

variable {text after : List Char} {tiles : List Tile} {s s' : State}

theorem textOf_append (a b : List Tile) : textOf (a ++ b) = textOf a ++ textOf b :=
  List.flatMap_append

theorem textOf_cons (t : Tile) (tiles : List Tile) : textOf (t :: tiles) = t.text ++ textOf tiles :=
  rfl

theorem textOf_singleton (t : Tile) : textOf [t] = t.text := List.append_nil _

theorem Laid.snoc {t : Tile} (h : Laid tiles (t.text ++ after))
    (ht : t.Lies (byteLength (textOf tiles)) after) : Laid (tiles ++ [t]) after := by
  intro before u behind heq
  rcases List.eq_nil_or_concat behind with rfl | ⟨behind, v, rfl⟩
  · -- the last one
    obtain ⟨rfl, hu⟩ := List.append_inj' heq rfl
    cases hu
    exact ht
  · have heq' : tiles ++ [t] = (before ++ u :: behind) ++ [v] := by simpa using heq
    obtain ⟨htiles, hv⟩ := List.append_inj' heq' rfl
    cases hv
    have hlies := h before u behind htiles
    rwa [List.concat_eq_append, textOf_append, List.append_assoc, textOf_singleton]

/-- **Tiles lie one behind the other** as they are laid. -/
theorem Tiled.lays (h : Tiled text tiles s) (hs : Lays s s') :
    ∃ t, Tiled text (tiles ++ [t]) s' := by
  have htext : ∀ {n} {token? : Option Token}, s'.rest = s.rest.drop n →
      textOf (tiles ++ [⟨s.rest.take n, token?⟩]) ++ s'.rest = textOf tiles ++ s.rest := by
    intro n token? hrest
    rw [textOf_append, List.append_assoc, textOf_cons, hrest]
    simp [textOf]
  have hpos : ∀ {n} {token? : Option Token}, Takes s s' n →
      s'.pos = byteLength (textOf (tiles ++ [⟨s.rest.take n, token?⟩])) := by
    intro n token? htakes
    rw [textOf_append, byteLength_append, htakes.pos_eq, h.pos_eq, bytesOfNext_eq htakes.le]
    simp [textOf]
  have hlaid : ∀ {n} {token? : Option Token}, s'.rest = s.rest.drop n →
      (Tile.mk (s.rest.take n) token?).Lies (byteLength (textOf tiles)) s'.rest →
        Laid (tiles ++ [⟨s.rest.take n, token?⟩]) s'.rest := by
    intro n token? hrest hlies
    refine Laid.snoc ?_ hlies
    rw [hrest, List.take_append_drop]
    exact h.laid
  cases hs with
  | @token kind n value takes tokens tells =>
      refine ⟨⟨s.rest.take n, some ⟨kind, value, s.spanOfNext n⟩⟩,
        h.text_eq.trans (htext takes.rest_eq).symm, hpos takes, ?_,
        hlaid takes.rest_eq ⟨?_, fun hquiet => tells.quiet (hquiet _ rfl), ?_⟩⟩
      · rw [tokens, List.reverse_cons, h.tokens_eq]
        simp [tokensOf]
      · rintro u ⟨⟩
        rw [← h.pos_eq, ← bytesOfNext_eq takes.le]
        exact ⟨rfl, rfl⟩
      · rintro u ⟨⟩ hkind
        rw [takes.rest_eq]
        exact tells.word hkind
  | @other n takes tokens _ quiet =>
      refine ⟨⟨s.rest.take n, none⟩, h.text_eq.trans (htext takes.rest_eq).symm, hpos takes, ?_,
        hlaid takes.rest_eq ⟨nofun, fun _ => quiet, nofun⟩⟩
      rw [tokens, h.tokens_eq]
      simp [tokensOf]

/-- Only what is left, the offset and the tokens of a state matter. -/
theorem Tiled.congr (h : Tiled text tiles s) (hrest : s'.rest = s.rest) (hpos : s'.pos = s.pos)
    (htokens : s'.tokens = s.tokens) : Tiled text tiles s' := by
  obtain ⟨htext, hoffset, htiles, hlaid⟩ := h
  rw [← hrest] at htext hlaid
  rw [← hpos] at hoffset
  rw [← htokens] at htiles
  exact ⟨htext, hoffset, htiles, hlaid⟩

/-! ## §8. Literals. -/

theorem Tiled.emit (h : Tiled text tiles s) (kind : Kind) {n : Nat} {value : List Char}
    (hn : n ≤ s.rest.length) (hquiet : kind ∉ quietKinds) (hother : kind ∉ tellingKinds) :
    ∃ tiles', Tiled text tiles' (s.emit kind n value) := by
  have hfits : Fits s.rest kind := fits_of_other hother
  obtain ⟨t, ht⟩ := h.lays (lays_records hn rfl rfl rfl
    ⟨fun h => absurd h hquiet, fun h => absurd h hfits.word, hfits.assigns⟩)
  exact ⟨_, ht⟩

theorem Tiled.contentToken (h : Tiled text tiles s) {pieces : List Piece}
    (hsource : sourceOf pieces <+: s.rest) :
    ∃ tiles', Tiled text tiles' (s.contentToken pieces) := by
  have hreported : Tiled text tiles
      { s with diagnostics := s.reportPieces s.pos pieces s.diagnostics } := h.congr rfl rfl rfl
  simp only [State.contentToken]
  split
  · exact ⟨tiles, hreported⟩
  · exact hreported.emit _ hsource.length_le (by decide) (by decide)

theorem Tiled.closeLiteral (h : Tiled text tiles s) (hone : 1 ≤ s.rest.length) (l : Literal) :
    ∃ tiles', Tiled text tiles' (s.closeLiteral l) := by
  have hpopped : Tiled text tiles { s with modes := s.modes.tail } := h.congr rfl rfl rfl
  obtain ⟨tiles', hclosed⟩ := hpopped.emit .tSTRING_END hone (by decide) (by decide)
  have hclosed : Tiled text tiles'
      ({ s with modes := s.modes.tail }.emitThen .tSTRING_END 1 .operator) :=
    hclosed.congr rfl rfl rfl
  simp only [State.closeLiteral]
  split
  · exact hclosed.emit _ (length_takeWhile_le _ _) (by decide) (by decide)
  · exact ⟨tiles', hclosed⟩

theorem Tiled.openInterpolation (h : Tiled text tiles s) (htwo : 2 ≤ s.rest.length) :
    ∃ tiles', Tiled text tiles' s.openInterpolation := by
  obtain ⟨tiles', hopened⟩ := h.emit .tSTRING_DBEG htwo (by decide) (by decide)
  exact ⟨tiles', hopened.congr rfl rfl rfl⟩

theorem Tiled.stepLiteral (h : Tiled text tiles s) (l : Literal) (hs : s.stepLiteral l = .next s') :
    ∃ tiles', Tiled text tiles' s' := by
  obtain ⟨tiles', hcontent⟩ := h.contentToken (readContent_isPrefix l s.rest)
  cases concludes_of_stepLiteral hs with
  | close hrest => exact hcontent.closeLiteral (by simp [hrest]) l
  | interpolation hrest => exact hcontent.openInterpolation (by simp [hrest])

/-- **A step lays tiles.** -/
theorem Tiled.step (h : Tiled text tiles s) (hs : s.step = .next s') :
    ∃ tiles', Tiled text tiles' s' := by
  unfold State.step at hs
  split at hs
  · exact h.stepLiteral _ hs
  · obtain ⟨t, ht⟩ := h.lays (lays_stepCode hs)
    exact ⟨_, ht⟩

/-- Wherever the scan comes to, what it has read lies in tiles. -/
theorem Reachable.tiled (h : Reachable text s) : ∃ tiles, Tiled text tiles s := by
  induction h with
  | start => exact ⟨[], rfl, rfl, rfl, fun before t behind heq => by cases before <;> cases heq⟩
  | step _ hs ih =>
      obtain ⟨tiles, htiles⟩ := ih
      exact htiles.step hs

end Tiles

/-! ## §9. Cuts. -/

section Cuts

variable {text before before' : List Char} {tiles : List Tile} {rest : List Char} {a b : Nat}

theorem slice_append (before stretch after : List Char) :
    slice (before ++ stretch ++ after) (byteLength before) (byteLength (before ++ stretch))
      = stretch := by
  rw [slice, byteLength_append, slice?_append]
  rfl

/-- A place where tiles meet. -/
def Meet (tiles : List Tile) (offset : Nat) : Prop :=
  ∃ before after, tiles = before ++ after ∧ byteLength (textOf before) = offset

/-- The tile of a token. -/
theorem exists_tile {t : Token} (h : t ∈ tokensOf tiles) : ∃ before tile after,
    tiles = before ++ tile :: after ∧ tile.token? = some t := by
  obtain ⟨tile, htile, ht⟩ := List.mem_filterMap.mp h
  obtain ⟨before, after, htiles⟩ := List.append_of_mem htile
  exact ⟨before, tile, after, htiles, ht⟩

/-- Tiles meet where a token begins and where it ends. -/
theorem Laid.meet (h : Laid tiles rest) {t : Token} (ht : t ∈ tokensOf tiles) :
    Meet tiles t.span.start ∧ Meet tiles t.span.stop := by
  obtain ⟨before, tile, after, htiles, htoken⟩ := exists_tile ht
  obtain ⟨hstart, hstop⟩ := (h before tile after htiles).place t htoken
  refine ⟨⟨before, tile :: after, htiles, hstart.symm⟩, before ++ [tile], after, ?_, ?_⟩
  · rw [htiles, List.append_assoc, List.singleton_append]
  · rw [textOf_append, byteLength_append, textOf_singleton, hstop]

/-- The tiles between two places where tiles meet. -/
theorem exists_between (ha : Meet tiles a) (hb : Meet tiles b) (hab : a ≤ b) :
    ∃ before gap after, tiles = before ++ gap ++ after ∧ byteLength (textOf before) = a ∧
      byteLength (textOf (before ++ gap)) = b := by
  obtain ⟨before, more, htiles, hbefore⟩ := ha
  obtain ⟨before', after, htiles', hbefore'⟩ := hb
  rcases List.prefix_or_prefix_of_prefix ⟨more, htiles.symm⟩ ⟨after, htiles'.symm⟩ with
    ⟨gap, rfl⟩ | ⟨gap, rfl⟩
  · exact ⟨before, gap, after, htiles', hbefore, hbefore'⟩
  · -- only tiles without a text lie between the places
    refine ⟨before', [], after, by rwa [List.append_nil], ?_, by rwa [List.append_nil]⟩
    rw [textOf_append, byteLength_append] at hbefore
    omega

/-- Tiles of which none is the `do` of a loop are quiet, if their tokens are of quiet kinds. -/
theorem Laid.quiet (h : Laid tiles rest) (before after : List Tile) {gap : List Tile}
    (htiles : tiles = before ++ gap ++ after)
    (hkinds : ∀ t ∈ tokensOf gap, t.span.start < t.span.stop → t.kind ∈ quietKinds) :
    Quiet (textOf gap) := by
  refine quiet_flatMap fun tile htile => ?_
  obtain ⟨front, back, rfl⟩ := List.append_of_mem htile
  have hlies := h (before ++ front) tile (back ++ after) (by rw [htiles]; simp)
  by_cases hempty : tile.text = []
  · -- the options of a regular expression that has none
    rw [hempty]
    exact quiet_of_blank rfl
  refine hlies.quiet fun t ht => hkinds t (List.mem_filterMap.mpr ⟨tile, htile, ht⟩) ?_
  obtain ⟨hstart, hstop⟩ := hlies.place t ht
  obtain ⟨c, more, hmore⟩ := List.exists_cons_of_ne_nil hempty
  have hpos := c.utf8Size_pos
  rw [hmore, byteLength] at hstop
  omega

/-- The first `do` of a loop in some tiles. -/
theorem exists_first {gap : List Tile} {t : Token} (ht : t ∈ tokensOf gap)
    (hkind : t.kind = .kDO_COND) : ∃ front tile back u, gap = front ++ tile :: back ∧
      tile.token? = some u ∧ u.kind = .kDO_COND ∧ ∀ v ∈ tokensOf front, v.kind ≠ .kDO_COND := by
  induction gap with
  | nil => cases ht
  | cons tile gap ih =>
      by_cases hfirst : ∃ u, tile.token? = some u ∧ u.kind = .kDO_COND
      · obtain ⟨u, hu, hukind⟩ := hfirst
        exact ⟨[], tile, gap, u, rfl, hu, hukind, fun v hv => nomatch hv⟩
      · have hgap : t ∈ tokensOf gap := by
          obtain ⟨tile', htile', ht'⟩ := List.mem_filterMap.mp ht
          rcases List.mem_cons.mp htile' with rfl | htile'
          · exact absurd ⟨t, ht', hkind⟩ hfirst
          · exact List.mem_filterMap.mpr ⟨tile', htile', ht'⟩
        obtain ⟨front, tile', back, u, rfl, hu, hukind, hfront⟩ := ih hgap
        refine ⟨tile :: front, tile', back, u, rfl, hu, hukind, fun v hv hvkind => ?_⟩
        obtain ⟨w, hw, hv'⟩ := List.mem_filterMap.mp hv
        rcases List.mem_cons.mp hw with rfl | hw
        · exact hfirst ⟨v, hv', hvkind⟩
        · exact hfront v (List.mem_filterMap.mpr ⟨w, hw, hv'⟩) hvkind

/-- Behind a blank a token `do` of a loop is seen. -/
theorem Laid.beginsWithDo (h : Laid tiles rest) (ha : Meet tiles a) (hb : Meet tiles b)
    {t : Token} (ht : t ∈ tokensOf tiles) (hkind : t.kind = .kDO_COND) (hstart : a ≤ t.span.start)
    (hstop : t.span.stop ≤ b)
    (hblank : (slice (textOf tiles ++ rest) a t.span.start).all isBlank = true) :
    Node.beginsWithDo (slice (textOf tiles ++ rest) a b) = true := by
  obtain ⟨front, tile, back, htiles, htoken⟩ := exists_tile ht
  have hlies := h front tile back htiles
  obtain ⟨htext, hnext⟩ := hlies.word t htoken hkind
  obtain ⟨hbegins, hends⟩ := hlies.place t htoken
  rw [htext] at hends
  -- the whole text, cut at both ends of the word
  have hwhole : textOf tiles ++ rest = textOf front ++ ['d', 'o'] ++ (textOf back ++ rest) := by
    rw [htiles, textOf_append, textOf_cons, htext]
    simp only [List.append_assoc]
  obtain ⟨before, more, hbefore, rfl⟩ := ha
  obtain ⟨before', more', hbefore', rfl⟩ := hb
  have hfirst : textOf before ++ (textOf more ++ rest) =
      textOf front ++ (['d', 'o'] ++ (textOf back ++ rest)) := by
    rw [← List.append_assoc, ← textOf_append, ← hbefore, hwhole, List.append_assoc]
  have hlast : textOf front ++ ['d', 'o'] ++ (textOf back ++ rest) =
      textOf before' ++ (textOf more' ++ rest) := by
    rw [← hwhole, hbefore', textOf_append, List.append_assoc]
  -- so the slice is a blank, the word, and a beginning of what comes after it
  obtain ⟨blank, hfront⟩ := prefix_of_byteLength_le hfirst (hbegins ▸ hstart)
  obtain ⟨some_, hword⟩ := prefix_of_byteLength_le hlast (by
    rw [byteLength_append, ← hends]
    exact hstop)
  have hbehind : some_ ++ (textOf more' ++ rest) = textOf back ++ rest := by
    rw [← hword, List.append_assoc _ some_] at hlast
    exact (List.append_cancel_left hlast).symm
  rw [hwhole, hbegins, ← hfront, List.append_assoc _ ['d', 'o'], slice_append] at hblank
  have hslice : slice (textOf tiles ++ rest) (byteLength (textOf before))
      (byteLength (textOf before')) = blank ++ 'd' :: 'o' :: some_ := by
    have hcut := slice_append (textOf before) (blank ++ 'd' :: 'o' :: some_)
      (textOf more' ++ rest)
    have hreach : textOf before ++ (blank ++ 'd' :: 'o' :: some_) = textOf before' := by
      rw [← hword, ← hfront]
      simp
    rw [hreach] at hcut
    rw [← hcut, hbefore', textOf_append, List.append_assoc]
  rw [hslice, beginsWithDo_append hblank]
  exact beginsWithDo_word ⟨textOf more' ++ rest, hbehind⟩ hnext

/-- The text of the tiles between two others. -/
theorem slice_tiles {tiles : List Tile} (before gap after : List Tile)
    (htiles : tiles = before ++ gap ++ after) :
    slice (textOf tiles ++ rest) (byteLength (textOf before)) (byteLength (textOf (before ++ gap)))
      = textOf gap := by
  rw [htiles, textOf_append, textOf_append, List.append_assoc]
  exact slice_append _ _ _

/-- A token between two places is within them. -/
theorem Laid.within {before gap after front back : List Tile} {tile : Tile} {t : Token}
    (h : Laid (before ++ gap ++ after) rest) (hgap : gap = front ++ tile :: back)
    (ht : tile.token? = some t) : t.span.start = byteLength (textOf (before ++ front)) ∧
      byteLength (textOf before) ≤ t.span.start ∧
        t.span.stop ≤ byteLength (textOf (before ++ gap)) := by
  obtain ⟨hstart, hstop⟩ :=
    (h (before ++ front) tile (back ++ after) (by rw [hgap]; simp)).place t ht
  refine ⟨hstart, ?_, ?_⟩
  · rw [hstart, textOf_append, byteLength_append]
    exact Nat.le_add_right _ _
  · rw [hstop, hgap]
    simp only [textOf_append, textOf_cons, byteLength_append]
    omega

/-- If a `do` is seen, the `do` of a loop is there, behind a blank. -/
theorem Laid.exists_do (h : Laid tiles rest) (ha : Meet tiles a) (hb : Meet tiles b) (hab : a ≤ b)
    (hkinds : ∀ t ∈ tokensOf tiles, a ≤ t.span.start → t.span.stop ≤ b →
      t.span.start < t.span.stop → t.kind ∈ quietKinds ∨ t.kind = .kDO_COND)
    (hbegins : Node.beginsWithDo (slice (textOf tiles ++ rest) a b) = true) :
    ∃ t ∈ tokensOf tiles, t.kind = .kDO_COND ∧ a ≤ t.span.start ∧ t.span.stop ≤ b ∧
      (slice (textOf tiles ++ rest) a t.span.start).all isBlank = true := by
  obtain ⟨before, gap, after, rfl, rfl, rfl⟩ := exists_between ha hb hab
  rw [slice_tiles before gap after rfl] at hbegins
  have hmem : ∀ {t}, t ∈ tokensOf gap → t ∈ tokensOf (before ++ gap ++ after) := by
    intro t ht
    simp only [tokensOf, List.filterMap_append, List.mem_append]
    exact .inl (.inr ht)
  have hgapKinds : ∀ t ∈ tokensOf gap, t.span.start < t.span.stop →
      t.kind ∈ quietKinds ∨ t.kind = .kDO_COND := by
    intro t ht hwide
    obtain ⟨front, tile, back, hgap, htoken⟩ := exists_tile ht
    obtain ⟨-, hstart, hstop⟩ := h.within hgap htoken
    exact hkinds t (hmem ht) hstart hstop hwide
  by_cases hdo : ∃ t ∈ tokensOf gap, t.kind = .kDO_COND
  · -- what is before the first one is quiet, and so it is blank
    obtain ⟨t, ht, hkind⟩ := hdo
    obtain ⟨front, tile, back, u, rfl, hu, hukind, hfront⟩ := exists_first ht hkind
    obtain ⟨hplace, hstart, hstop⟩ := h.within rfl hu
    have htiles : before ++ (front ++ tile :: back) ++ after =
        before ++ front ++ (tile :: back ++ after) := by simp
    have hfrontQuiet : Quiet (textOf front) := by
      refine h.quiet before _ htiles fun v hv hwide => ?_
      have hv' : v ∈ tokensOf (front ++ tile :: back) := by
        rw [tokensOf, List.filterMap_append]
        exact List.mem_append_left _ hv
      exact (hgapKinds v hv' hwide).resolve_right (hfront v hv)
    have hugap : u ∈ tokensOf (front ++ tile :: back) :=
      List.mem_filterMap.mpr ⟨tile, List.mem_append_right _ List.mem_cons_self, hu⟩
    refine ⟨u, hmem hugap, hukind, hstart, hstop, ?_⟩
    rw [hplace, slice_tiles before front _ htiles]
    rw [textOf_append] at hbegins
    exact hfrontQuiet.blank_of_beginsWithDo hbegins
  · -- without a `do` all tiles are quiet
    have hquiet : Quiet (textOf gap) := h.quiet before after rfl fun t ht hwide =>
      (hgapKinds t ht hwide).resolve_right fun hkind => hdo ⟨t, ht, hkind⟩
    rw [hquiet.beginsWithDo] at hbegins
    cases hbegins

end Cuts

end Token.Lexer

namespace Token

open Lexer Text

/-- The text that has been split into tokens lies in tiles. -/
theorem lex_tiled {text : String} {lexed : Lexed} (h : (lex text).1 = .ok lexed) :
    ∃ tiles rest, text.toList = textOf tiles ++ rest ∧ Laid tiles rest ∧
      lexed.tokens = tokensOf tiles := by
  obtain ⟨s, hs, -, -, rfl⟩ := reachable_of_lex h
  obtain ⟨tiles, htext, -, htokens, hlaid⟩ := hs.tiled
  exact ⟨tiles, s.rest, htext, hlaid, htokens⟩

/-- **The text between two places begins with the word `do` exactly if a `do` of a loop stands there
and only blanks are before it**, if all tokens between the places are of quiet kinds or such. -/
theorem lex_beginsWithDo {text : String} {lexed : Lexed} (h : (lex text).1 = .ok lexed) {a b : Nat}
    (ha : ∃ t ∈ lexed.tokens, t.span.stop = a)
    (hb : ∃ t ∈ lexed.tokens, t.span.start = b ∨ t.span.stop = b) (hab : a ≤ b)
    (hkinds : ∀ t ∈ lexed.tokens, a ≤ t.span.start → t.span.stop ≤ b →
      t.span.start < t.span.stop → t.kind ∈ quietKinds ∨ t.kind = .kDO_COND) :
    Node.beginsWithDo (slice text.toList a b) = true ↔ ∃ t ∈ lexed.tokens, t.kind = .kDO_COND ∧
      a ≤ t.span.start ∧ t.span.stop ≤ b ∧
        (slice text.toList a t.span.start).all isBlank = true := by
  obtain ⟨tiles, rest, htext, hlaid, htokens⟩ := lex_tiled h
  rw [htokens] at ha hb hkinds ⊢
  rw [htext]
  obtain ⟨t, ht, rfl⟩ := ha
  have hfirst : Meet tiles t.span.stop := (hlaid.meet ht).2
  have hlast : Meet tiles b := by
    obtain ⟨u, hu, rfl | rfl⟩ := hb
    · exact (hlaid.meet hu).1
    · exact (hlaid.meet hu).2
  constructor
  · exact hlaid.exists_do hfirst hlast hab hkinds
  · rintro ⟨u, hu, hkind, hstart, hstop, hblank⟩
    exact hlaid.beginsWithDo hfirst hlast hu hkind hstart hstop hblank

end Token

end RubySyntax
