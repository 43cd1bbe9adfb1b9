/-
  RubySyntax.Proofs.Token.Name
  ────────────────────────────
  **NAMES BEHIND EACH OTHER.**

  A plain name is no keyword, begins with no capital letter and ends in no mark.  Of names with
  blanks between them each is one token, and behind each of them arguments may begin, since none is
  a variable.  So a brace behind the last one opens a block, and a `do` opens one as well:

      f g h do end      tIDENTIFIER tIDENTIFIER tIDENTIFIER kDO kEND

  Main results:
    • `step_name`, `word_name` — a plain name is one step and one token,
    • `AfterNames.names` — so are names behind each other,
    • `lex_names` — the tokens of names and an empty block.
-/
import RubySyntax.Proofs.Token.Tile

namespace RubySyntax.Token

open RubySyntax.Text Lexer

/-! ## §1. Names. -/

/-- A name that is neither a keyword nor a constant, without a mark at its end. -/
structure PlainName where
  chars : List Char
  begins : nextIs isNameStart chars = true
  small : nextIs isUpper chars = false
  whole : ∀ c ∈ chars, isNameChar c = true
  notKeyword : keyword? (String.ofList chars) = none

namespace PlainName

/-- The name as a text. -/
def text (name : PlainName) : String := String.ofList name.chars

/-- A name may have capital letters and digits behind its first character. -/
example : ∃ name : PlainName, name.text = "each_1stPair" :=
  ⟨⟨"each_1stPair".toList, by decide +kernel, by decide +kernel,
    List.all_eq_true.mp (by decide +kernel), by decide +kernel⟩, rfl⟩

theorem exists_cons (name : PlainName) : ∃ c rest, name.chars = c :: rest ∧ isNameStart c = true := by
  obtain ⟨chars, begins, -, -, -⟩ := name
  cases chars with
  | nil => cases begins
  | cons c rest => exact ⟨c, rest, rfl, begins⟩

theorem takeWhile_append (name : PlainName) (after : List Char) :
    (name.chars ++ ' ' :: after).takeWhile isNameChar = name.chars := by
  rw [List.takeWhile_append_of_pos name.whole, List.takeWhile_cons_of_neg (by decide),
    List.append_nil]

/-- Before a blank a name is a word. -/
theorem readWord_append (name : PlainName) (after : List Char) :
    readWord (name.chars ++ ' ' :: after) = ⟨name.chars, false⟩ := by
  simp [readWord, name.takeWhile_append]

theorem nameKind_eq (name : PlainName) : nameKind ⟨name.chars, false⟩ = .tIDENTIFIER := by
  simp [nameKind, name.small]

end PlainName

/-- A character of an operator begins no name. -/
theorem ne_of_isNameStart {c d : Char} (hc : isNameStart c = true) (hd : isNameStart d = false) :
    c ≠ d := by
  rintro rfl
  rw [hd] at hc
  cases hc

/-- Nor does a blank. -/
theorem blankLength?_of_isNameStart {c : Char} {rest : List Char} (hc : isNameStart c = true) :
    State.blankLength? (c :: rest) = none := by
  have hne : ∀ {d}, isNameStart d = false → c ≠ d := ne_of_isNameStart hc
  have hspace : State.isSpace c = false := by
    simp [State.isSpace, hne (d := ' ') (by decide), hne (d := '\t') (by decide),
      hne (d := '\n') (by decide), hne (d := '\r') (by decide), hne (d := '\x0b') (by decide),
      hne (d := '\x0c') (by decide)]
  unfold State.blankLength?
  split
  next h => exact absurd (List.cons.inj h).1 (hne (by decide))
  next h => exact absurd (List.cons.inj h).1 (hne (by decide))
  next h =>
    cases h
    simp [hspace]
  next => rfl

/-- The characters that an assignment may begin with. -/
theorem head_of_assignmentOperators : ∀ op ∈ assignmentOperators, ∃ d rest, op.toList = d :: rest ∧
    isNameStart d = false ∧ d ≠ '\x7b' := by
  have hheads : ∀ op ∈ assignmentOperators,
      op.toList.head?.any (fun d => !isNameStart d && d != '\x7b') = true := by
    decide +kernel
  intro op hop
  have hhead := hheads op hop
  cases htext : op.toList with
  | nil =>
      rw [htext] at hhead
      cases hhead
  | cons d rest =>
      rw [htext] at hhead
      exact ⟨d, rest, rfl, by simpa using hhead⟩

/-- Before a name or a brace no assignment is ahead. -/
theorem assignmentAhead_blank {after : List Char}
    (h : nextIs (fun c => isNameStart c || c == '\x7b') after = true) :
    assignmentAhead (' ' :: after) = false := by
  obtain ⟨c, more, rfl⟩ : ∃ c more, after = c :: more := by
    cases after with
    | nil => cases h
    | cons c more => exact ⟨c, more, rfl⟩
  have hne : ∀ {d}, isNameStart d = false ∧ d ≠ '\x7b' → c ≠ d := by
    rintro d ⟨hd, hbrace⟩ rfl
    simp [nextIs, hd, hbrace] at h
  have hspace : isSpaceOrTab c = false := by
    simp [isSpaceOrTab, hne (d := ' ') (by decide), hne (d := '\t') (by decide)]
  have hdrop : (' ' :: c :: more).dropWhile isSpaceOrTab = c :: more := by
    rw [List.dropWhile_cons_of_pos (by decide), List.dropWhile_cons_of_neg (by simp [hspace])]
  rw [assignmentAhead, hdrop]
  split
  next h => exact absurd (List.cons.inj h).1 (hne (by decide))
  next =>
    rw [List.any_eq_false]
    intro op hop hprefix
    obtain ⟨d, rest, hop, hd⟩ := head_of_assignmentOperators op hop
    obtain ⟨more, hmore⟩ := List.isPrefixOf_iff_prefix.mp hprefix
    rw [hop] at hmore
    exact hne hd (List.cons.inj hmore).1.symm

/-! ## §2. Steps. -/

section Steps

variable {s : State} {name : PlainName} {after : List Char}

/-- A name before a blank is not the line that ends a program. -/
theorem atEndMarker_name (hrest : s.rest = name.chars ++ ' ' :: after) : s.atEndMarker = false := by
  rw [Bool.eq_false_iff]
  intro h
  obtain ⟨more, hmore, hend⟩ := eq_append_of_atEndMarker h
  -- the marker would be the whole name, and then a blank would follow it
  have hword : ("__END__".toList ++ more).takeWhile isNameChar = "__END__".toList := by
    rw [List.takeWhile_append_of_pos (List.all_eq_true.mp (by decide))]
    obtain rfl | ⟨after, rfl⟩ | ⟨after, rfl⟩ := hend <;> rfl
  rw [hrest] at hmore
  rw [← hmore, name.takeWhile_append] at hword
  rw [hword] at hmore
  have hblank := List.append_cancel_left hmore
  obtain rfl | ⟨after, rfl⟩ | ⟨after, rfl⟩ := hend
  · cases hblank
  · cases (List.cons.inj hblank).1
  · cases (List.cons.inj hblank).1

theorem not_literal (hmodes : s.modes = []) : ∀ l modes, s.modes ≠ .literal l :: modes := by
  rw [hmodes]
  exact nofun

/-- A name is read as a word. -/
theorem step_name (hmodes : s.modes = []) (hrest : s.rest = name.chars ++ ' ' :: after) :
    s.step = .next s.word := by
  obtain ⟨c, rest, hchars, hc⟩ := name.exists_cons
  have hrest' : s.rest = c :: (rest ++ ' ' :: after) := by rw [hrest, hchars, List.cons_append]
  have hne : ∀ {d}, isNameStart d = false → c ≠ d := ne_of_isNameStart hc
  rw [step_of_not_marker (not_literal hmodes) hrest' (atEndMarker_name hrest) (hne (by decide)),
    blankLength?_of_isNameStart hc]
  exact congrArg Step.next (token_eq_word s hc)

/-- A name that is not bound may have arguments. -/
theorem word_name (hrest : s.rest = name.chars ++ ' ' :: after)
    (hexpect : s.expect = .value ∨ s.expect = .argument) (hparams : s.params = .none)
    (hlocals : s.locals = []) (hlast : s.lastKind ≠ some .kFOR)
    (hahead : assignmentAhead (' ' :: after) = false) :
    s.word = s.emitThen .tIDENTIFIER name.chars.length .argument := by
  have hdrop : s.rest.drop name.chars.length = ' ' :: after := by rw [hrest, List.drop_left]
  have hbinds : (s.params != .none || s.lastKind == some .kFOR ||
      assignmentAhead (s.rest.drop name.chars.length)) = false := by
    rw [hdrop, hahead, hparams, beq_eq_false_iff_ne.mpr hlast]
    rfl
  have hplain : s.plainName ⟨name.chars, false⟩ =
      s.emitThen .tIDENTIFIER name.chars.length .argument := by
    have hfree : s.locals.contains (String.ofList name.chars) = false := by
      rw [hlocals]
      rfl
    simp only [State.plainName, name.nameKind_eq, if_true, hbinds, Bool.false_and,
      Bool.false_eq_true, if_false, hfree]
  have hname : (s.expect == .definedName) = false ∧ (s.expect == .method) = false := by
    obtain h | h := hexpect <;> rw [h] <;> decide
  have hword : readWord s.rest = ⟨name.chars, false⟩ := by rw [hrest, name.readWord_append]
  simp [State.word, hword, hname, hdrop, name.notKeyword, hplain]

/-- Some tokens have been read without a report, the latest first, and one bracket or block at most is
open. -/
structure ReadSoFar (s : State) (tokens : List (Kind × String)) (rest : List Char) : Prop where
  rest : s.rest = rest
  tokens : s.tokens.map (fun t => (t.kind, t.value)) = tokens
  modes : s.modes = []
  comments : s.comments = []
  diagnostics : s.diagnostics = []
  flat : s.depth + s.blocks ≤ 1

namespace ReadSoFar

variable {tokens : List (Kind × String)} {rest : List Char}

/-- A blank is passed. -/
theorem blank (h : ReadSoFar s tokens (' ' :: rest)) :
    s.step = .next (s.blank 1) ∧ ReadSoFar (s.blank 1) tokens rest :=
  ⟨step_of_cons (not_literal h.modes) h.rest (by decide),
    congrArg (List.drop 1) h.rest, h.tokens, h.modes, h.comments, h.diagnostics, h.flat⟩

/-- A token is read. -/
theorem emitThen (lexeme : List Char) (h : ReadSoFar s tokens (lexeme ++ rest)) (kind : Kind)
    (expect : Expect) (hflat : s.depth + State.countBlocks kind s.blocks ≤ 1) :
    ReadSoFar (s.emitThen kind lexeme.length expect) ((kind, String.ofList lexeme) :: tokens) rest where
  rest := by
    show s.rest.drop lexeme.length = rest
    rw [h.rest, List.drop_left]
  tokens := by
    show (kind, String.ofList (s.rest.take lexeme.length)) ::
      s.tokens.map (fun t => (t.kind, t.value)) = _
    rw [h.rest, List.take_left, h.tokens]
  modes := h.modes
  comments := h.comments
  diagnostics := h.diagnostics
  flat := hflat

/-- A bracket is closed. -/
theorem closes (h : ReadSoFar s tokens rest) :
    ReadSoFar { s with brackets := s.brackets.tail } tokens rest :=
  ⟨h.rest, h.tokens, h.modes, h.comments, h.diagnostics, by
    refine Nat.le_trans (Nat.add_le_add_right ?_ _) h.flat
    rw [State.depth, List.length_tail]
    exact Nat.sub_le _ _⟩

theorem le_maxNesting (h : ReadSoFar s tokens rest) : s.depth + s.blocks ≤ maxNesting :=
  Nat.le_trans h.flat (by decide)

/-- At the end of the text the scan ends. -/
theorem ends (h : ReadSoFar s tokens []) : Ends 1 s (.finish s) := by
  have hstop := step_of_rest_eq_nil h.rest h.modes
  exact hstop ▸ .stop fun s' hs' => nomatch hstop.symm.trans hs'

end ReadSoFar

/-- The kinds and texts of the tokens of some names. -/
def nameTokens (names : List PlainName) : List (Kind × String) :=
  names.map fun name => (.tIDENTIFIER, name.text)

/-- After some names, the latest first, with nothing open or bound. -/
structure AfterNames (s : State) (names : List PlainName) (rest : List Char) : Prop
    extends ReadSoFar s (nameTokens names) rest where
  expect : s.expect = .value ∨ s.expect = .argument
  brackets : s.brackets = []
  params : s.params = .none
  loopAt : s.loopAt = none
  lambdaAt : s.lambdaAt = none
  blocks : s.blocks = 0
  locals : s.locals = []

theorem afterNames_start (text : List Char) : AfterNames (State.start text) [] text :=
  ⟨⟨rfl, rfl, rfl, rfl, rfl, Nat.zero_le _⟩, .inl rfl, rfl, rfl, rfl, rfl, rfl, rfl⟩

namespace AfterNames

variable {names : List PlainName} {rest : List Char}

/-- A blank is passed. -/
theorem blank (h : AfterNames s names (' ' :: rest)) :
    s.step = .next (s.blank 1) ∧ AfterNames (s.blank 1) names rest :=
  ⟨h.toReadSoFar.blank.1, h.toReadSoFar.blank.2, h.expect, h.brackets, h.params, h.loopAt, h.lambdaAt,
    h.blocks, h.locals⟩

/-- A name is read. -/
theorem word (h : AfterNames s names (name.chars ++ ' ' :: after))
    (hahead : assignmentAhead (' ' :: after) = false) :
    ∃ s', s.step = .next s' ∧ AfterNames s' (name :: names) (' ' :: after) ∧
      s'.expect = .argument := by
  have hlast : s.lastKind ≠ some .kFOR := by
    have hkinds := congrArg (List.map Prod.fst) h.tokens
    rw [List.map_map, nameTokens, List.map_map] at hkinds
    have hhead := congrArg List.head? hkinds
    rw [List.head?_map, List.head?_map] at hhead
    rw [show s.lastKind = _ from hhead]
    cases names <;> exact nofun
  have hword := word_name h.rest h.expect h.params h.locals hlast hahead
  exact ⟨_, (step_name h.modes h.rest).trans (congrArg Step.next hword),
    ⟨h.toReadSoFar.emitThen name.chars .tIDENTIFIER .argument h.flat, .inr rfl, h.brackets, h.params, h.loopAt, h.lambdaAt, h.blocks,
      h.locals⟩, rfl⟩

end AfterNames

/-- Names with blanks between them. -/
def joinNames (names : List PlainName) (last : PlainName) : List Char :=
  (names.flatMap fun name => name.chars ++ [' ']) ++ last.chars

theorem beginsName_joinNames (names : List PlainName) (last : PlainName) (after : List Char) :
    nextIs (fun c => isNameStart c || c == '\x7b') (joinNames names last ++ after) = true := by
  cases names with
  | nil =>
      obtain ⟨c, rest, hchars, hc⟩ := last.exists_cons
      simp [joinNames, hchars, nextIs, hc]
  | cons name names =>
      obtain ⟨c, rest, hchars, hc⟩ := name.exists_cons
      simp [joinNames, hchars, nextIs, hc]

/-- **Names are read one after the other.** -/
theorem AfterNames.names (ending : List Char)
    (hending : nextIs (fun c => isNameStart c || c == '\x7b') ending = true)
    (names : List PlainName) (last : PlainName) : ∀ {before : List PlainName} {s : State},
      AfterNames s before (joinNames names last ++ ' ' :: ending) →
      ∃ s', (∀ n e, Ends n s' e → ∃ m, Ends m s e) ∧ s'.expect = .argument ∧
        AfterNames s' (last :: (names.reverse ++ before)) (' ' :: ending) := by
  induction names with
  | nil =>
      intro before s h
      obtain ⟨s', hstep, hs', hexpect⟩ := h.word (assignmentAhead_blank hending)
      exact ⟨s', fun n e hends => ⟨_, .next hstep hs'.le_maxNesting hends⟩, hexpect, hs'⟩
  | cons name names ih =>
      intro before s h
      have htext : joinNames (name :: names) last ++ ' ' :: ending =
          name.chars ++ ' ' :: (joinNames names last ++ ' ' :: ending) := by
        simp [joinNames]
      rw [htext] at h
      obtain ⟨s₁, hstep, h₁, -⟩ :=
        h.word (assignmentAhead_blank (beginsName_joinNames names last _))
      obtain ⟨hblank, h₂⟩ := h₁.blank
      obtain ⟨s', hs', hexpect, h'⟩ := ih h₂
      refine ⟨s', fun n e hends => ?_, hexpect, ?_⟩
      · obtain ⟨m, hm⟩ := hs' n e hends
        exact ⟨_, .next hstep h₁.le_maxNesting (.next hblank h₂.le_maxNesting hm)⟩
      · rw [List.reverse_cons, List.append_assoc]
        exact h'

/-- A keyword is read, where neither a method name nor a label can stand. -/
theorem step_keyword (c : Char) (cs after : List Char) (kind : Kind) (hmodes : s.modes = [])
    (hrest : s.rest = c :: cs ++ after) (hc : isNameStart c = true ∧ c ≠ '_')
    (hword : readWord s.rest = ⟨c :: cs, false⟩)
    (hkind : keyword? (String.ofList (c :: cs)) = some kind)
    (hexpect : s.expect = .value ∨ s.expect = .argument) (hcolon : after.head? ≠ some ':') :
    s.step = .next (s.keyword kind (c :: cs).length) := by
  have hne : ∀ {d}, isNameStart d = false → c ≠ d := ne_of_isNameStart hc.1
  have hdrop : s.rest.drop (c :: cs).length = after := by rw [hrest, List.drop_left]
  have hname : (s.expect == .definedName) = false ∧ (s.expect == .method) = false := by
    obtain h | h := hexpect <;> rw [h] <;> decide
  have hlabel : (after.head? == some ':') = false := beq_eq_false_iff_ne.mpr hcolon
  have hkeyword : s.word = s.keyword kind (c :: cs).length := by
    simp only [State.word, hword, hname, hdrop, hlabel, hkind, Bool.false_eq_true, if_false,
      Bool.and_false, Bool.false_and]
  rw [step_of_cons (not_literal hmodes) hrest ⟨hc.2, hne (by decide)⟩,
    blankLength?_of_isNameStart hc.1, token_eq_word s hc.1, hkeyword]

/-- The word `do` opens a block where no loop and no lambda waits for it. -/
theorem keyword_do (hloop : s.loopAt = none) (hlambda : s.lambdaAt = none) (n : Nat) :
    s.keyword .kDO n = s.emitThen .kDO n .value := by
  simp [State.keyword, State.keywordKind, hloop, hlambda, State.afterKeyword, State.emitThen]

theorem keyword_end (n : Nat) : s.keyword .kEND n = s.emitThen .kEND n .operator := by
  simp [State.keyword, State.keywordKind, modifierKind, State.afterKeyword, State.emitThen]

/-- **Behind names `do` and `end` are two tokens.** -/
theorem AfterNames.ends_do {names : List PlainName}
    (h : AfterNames s names [' ', 'd', 'o', ' ', 'e', 'n', 'd']) :
    ∃ n s', Ends n s (.finish s') ∧
      ReadSoFar s' ((.kEND, "end") :: (.kDO, "do") :: nameTokens names) [] := by
  obtain ⟨hblank, h₁⟩ := h.blank
  generalize s.blank 1 = s₁ at hblank h₁
  have hdo : s₁.step = .next (s₁.emitThen .kDO 2 .value) := by
    rw [← keyword_do h₁.loopAt h₁.lambdaAt 2]
    exact step_keyword 'd' ['o'] [' ', 'e', 'n', 'd'] .kDO h₁.modes h₁.rest (by decide)
      (by rw [h₁.rest]; rfl) (by decide +kernel) h₁.expect (by decide)
  have hone : s₁.depth + State.countBlocks .kDO s₁.blocks ≤ 1 := by
    rw [State.depth, h₁.brackets, h₁.blocks]
    decide
  have h₂ : ReadSoFar (s₁.emitThen .kDO 2 .value) ((.kDO, "do") :: nameTokens names)
      [' ', 'e', 'n', 'd'] := h₁.toReadSoFar.emitThen ['d', 'o'] .kDO .value hone
  obtain ⟨hblank', h₃⟩ := h₂.blank
  have hend : ((s₁.emitThen .kDO 2 .value).blank 1).step = .next _ :=
    step_keyword 'e' ['n', 'd'] [] .kEND h₃.modes h₃.rest (by decide) (by rw [h₃.rest]; rfl)
      (by decide +kernel) (.inl rfl) (by decide)
  rw [keyword_end] at hend
  have h₄ : ReadSoFar _ ((.kEND, "end") :: (.kDO, "do") :: nameTokens names) [] :=
    h₃.emitThen ['e', 'n', 'd'] .kEND .operator
      (Nat.le_trans (Nat.add_le_add_left (Nat.sub_le _ _) _) h₃.flat)
  exact ⟨_, _, .next hblank h₁.le_maxNesting (.next hdo h₂.le_maxNesting
    (.next hblank' h₃.le_maxNesting (.next hend h₄.le_maxNesting h₄.ends))), h₄⟩

/-- Where an argument may stand a brace opens a block. -/
theorem step_braceOpens (hmodes : s.modes = []) (hrest : s.rest = '\x7b' :: after)
    (hexpect : s.expect = .argument) (hlambda : s.lambdaAt = none) :
    s.step = .next (s.openBracket .brace .tLCURLY) := by
  have hnone : findSpelling plainPunctuation s.rest = none := by
    rw [hrest]
    rfl
  rw [step_of_cons (not_literal hmodes) hrest (by decide)]
  refine congrArg Step.next ?_
  simp [State.token, hexpect, isDigit, isNameStart, isLetter, isUpper, isLower, isAscii,
    State.punctuation, hnone, State.openBrace, hlambda, State.beginsValue]

/-- A brace closes the block that a brace has opened. -/
theorem step_braceCloses (hmodes : s.modes = []) (hrest : s.rest = '\x7d' :: after)
    (hexpect : s.expect = .value) (hopen : s.brackets.head? = some .brace) :
    s.step = .next (s.closeBracket .tRCURLY) := by
  have hnone : findSpelling plainPunctuation s.rest = none := by
    rw [hrest]
    rfl
  rw [step_of_cons (not_literal hmodes) hrest (by decide)]
  refine congrArg Step.next ?_
  simp [State.token, isDigit, isNameStart, isLetter, isUpper, isLower, isAscii,
    State.punctuation, hnone, State.closeBrace, hopen, hexpect]

/-- **So are two braces.** -/
theorem AfterNames.ends_braces {names : List PlainName}
    (h : AfterNames s names [' ', '\x7b', ' ', '\x7d']) (hexpect : s.expect = .argument) :
    ∃ n s', Ends n s (.finish s') ∧
      ReadSoFar s' ((.tRCURLY, "\x7d") :: (.tLCURLY, "\x7b") :: nameTokens names) [] := by
  obtain ⟨hblank, h₁⟩ := h.blank
  have hexpect₁ : (s.blank 1).expect = .argument := hexpect
  generalize s.blank 1 = s₁ at hblank h₁ hexpect₁
  have hopen := step_braceOpens h₁.modes h₁.rest hexpect₁ h₁.lambdaAt
  have h₂ : ReadSoFar (s₁.openBracket .brace .tLCURLY) ((.tLCURLY, "\x7b") :: nameTokens names)
      [' ', '\x7d'] := by
    have hone : s₁.depth + State.countBlocks .tLCURLY s₁.blocks ≤ 0 := by
      rw [State.depth, h₁.brackets, h₁.blocks]
      decide
    obtain ⟨hrest, htokens, hmodes, hcomments, hdiagnostics, -⟩ := h₁.toReadSoFar.emitThen
      ['\x7b'] .tLCURLY .value (Nat.le_succ_of_le hone)
    refine ⟨hrest, htokens, hmodes, hcomments, hdiagnostics, ?_⟩
    show (Bracket.brace :: s₁.brackets).length + s₁.blocks ≤ 1
    rw [h₁.brackets, h₁.blocks]
    decide
  obtain ⟨hblank', h₃⟩ := h₂.blank
  have hclose := step_braceCloses h₃.modes h₃.rest rfl rfl
  have h₄ : ReadSoFar _ ((.tRCURLY, "\x7d") :: (.tLCURLY, "\x7b") :: nameTokens names) [] :=
    h₃.closes.emitThen ['\x7d'] .tRCURLY .operator h₃.closes.flat
  exact ⟨_, _, .next hblank h₁.le_maxNesting (.next hopen h₂.le_maxNesting
    (.next hblank' h₃.le_maxNesting (.next hclose h₄.le_maxNesting h₄.ends))), h₄⟩

end Steps

/-- A text whose scan ends quietly is split into the tokens that have been read. -/
theorem lex_of_readSoFar {text : List Char} {n : Nat} {s : State} {tokens : List (Kind × String)}
    (hends : Ends n (State.start text) (.finish s)) (h : ReadSoFar s tokens []) :
    ∃ lexed, lex (String.ofList text) = (.ok lexed, []) ∧
      lexed.tokens.map (fun t => (t.kind, t.value)) = tokens.reverse := by
  rw [← String.toList_ofList (l := text)] at hends
  refine ⟨_, lex_of_ends hends h.modes |>.trans (by rw [h.diagnostics]; rfl), ?_⟩
  rw [List.map_reverse, h.tokens]

/-- **Names and an empty block are split into their tokens.** -/
theorem lex_names (names : List PlainName) (last : PlainName) :
    (∃ lexed, lex (String.ofList (joinNames names last ++ " do end".toList)) = (.ok lexed, []) ∧
      lexed.tokens.map (fun t => (t.kind, t.value)) =
        nameTokens names ++ [(.tIDENTIFIER, last.text), (.kDO, "do"), (.kEND, "end")]) ∧
    ∃ lexed, lex (String.ofList (joinNames names last ++ " \x7b \x7d".toList)) = (.ok lexed, []) ∧
      lexed.tokens.map (fun t => (t.kind, t.value)) =
        nameTokens names ++
          [(.tIDENTIFIER, last.text), (.tLCURLY, "\x7b"), (.tRCURLY, "\x7d")] := by
  have hreverse : nameTokens (last :: (names.reverse ++ [])) =
      (.tIDENTIFIER, last.text) :: (nameTokens names).reverse := by
    rw [List.append_nil, nameTokens, List.map_cons, List.map_reverse]
    rfl
  constructor
  · obtain ⟨s, hs, -, hnames⟩ := (afterNames_start _).names
      ['d', 'o', ' ', 'e', 'n', 'd'] rfl names last
    obtain ⟨n, s', hends, hread⟩ := hnames.ends_do
    obtain ⟨m, hm⟩ := hs n _ hends
    obtain ⟨lexed, hlex, htokens⟩ := lex_of_readSoFar hm hread
    refine ⟨lexed, hlex, htokens.trans ?_⟩
    rw [hreverse]
    simp
  · obtain ⟨s, hs, hexpect, hnames⟩ := (afterNames_start _).names
      ['\x7b', ' ', '\x7d'] rfl names last
    obtain ⟨n, s', hends, hread⟩ := hnames.ends_braces hexpect
    obtain ⟨m, hm⟩ := hs n _ hends
    obtain ⟨lexed, hlex, htokens⟩ := lex_of_readSoFar hm hread
    refine ⟨lexed, hlex, htokens.trans ?_⟩
    rw [hreverse]
    simp

end RubySyntax.Token
