/-
  RubySyntax.Proofs.Token.Assignment
  ──────────────────────────────────
  **AN ASSIGNMENT BEHIND A NAME.**

  A name that is about to be assigned becomes known, and an operator behind a known name is read as
  one.  Whether it is about to be assigned is looked up in the text behind it, before anything there
  is read.  The look ahead passes spaces and tabs.  The scan passes more before the next token:

      x = 1       x   += 1       seen
      x \⏎= 1     (x⏎= 1)        not seen: a newline is passed that is hidden, or in a bracket

  So what the look ahead sees is the next token, and the other way round only if nothing but spaces
  and tabs stands before it.

  Main results:
    • `next_unique`, `next_iff_prefix` — what it is to be the next token,
    • `Reachable.start_cases` — the next token begins here, or further on,
    • `step_assignment` — behind a name the scan reads the operator that the look ahead sees,
    • `assignmentAhead_iff_next` — exactly what the look ahead says about the next token.
-/
import Mathlib.Logic.Relation
import RubySyntax.Proofs.Token.Name

namespace RubySyntax.Token.Lexer

open RubySyntax.Text

/-! ## §1. The next token. -/

/-- A state of the scan comes right before another. -/
def State.Precedes (s s' : State) : Prop := s.step = .next s'

/-- Behind some tokens of a source, the latest first, a token is read next. -/
def Next (source : String) (tokens : List Token) (t : Token) : Prop :=
  ∃ s, Reachable source.toList s ∧ t :: tokens <:+ s.tokens

section Next

variable {text : List Char} {source : String} {s s' : State} {tokens : List Token} {t t' : Token}

theorem Reachable.path (h : Reachable text s) :
    Relation.ReflTransGen State.Precedes (State.start text) s := by
  induction h with
  | start => exact .refl
  | step _ hs ih => exact ih.tail hs

/-- Of two states that the scan comes to, one leads to the other. -/
theorem Reachable.total (h : Reachable text s) (h' : Reachable text s') :
    Relation.ReflTransGen State.Precedes s s' ∨ Relation.ReflTransGen State.Precedes s' s :=
  Relation.ReflTransGen.total_of_right_unique
    (fun _ _ _ hb hc => Step.next.inj (hb.symm.trans hc)) h.path h'.path

/-- On the way no token is lost. -/
theorem suffix_of_path (h : Relation.ReflTransGen State.Precedes s s') :
    s.tokens <:+ s'.tokens := by
  induction h with
  | refl => exact List.suffix_refl _
  | tail _ hs ih => exact ih.trans (suffix_of_step hs).1

/-- There is one token behind some others. -/
theorem cons_suffix_unique {later : List Token} (h : t :: tokens <:+ later)
    (h' : t' :: tokens <:+ later) : t = t' :=
  (List.cons.inj ((List.suffix_of_suffix_length_le h h' (Nat.le_refl _)).eq_of_length rfl)).1

/-- **One token at most is next.** -/
theorem next_unique (h : Next source tokens t) (h' : Next source tokens t') : t = t' := by
  obtain ⟨s, hs, ht⟩ := h
  obtain ⟨s', hs', ht'⟩ := h'
  rcases hs.total hs' with hpath | hpath
  · exact cons_suffix_unique (ht.trans (suffix_of_path hpath)) ht'
  · exact cons_suffix_unique ht (ht'.trans (suffix_of_path hpath))

/-- **In a source that is split into tokens** the next one stands behind the others. -/
theorem next_iff_prefix {lexed : Lexed} (hlex : (lex source).1 = .ok lexed) :
    Next source tokens t ↔ tokens.reverse ++ [t] <+: lexed.tokens := by
  obtain ⟨n, e, hends, -, rfl⟩ := ends_of_lex hlex
  rw [← List.reverse_cons, List.reverse_prefix]
  constructor
  · rintro ⟨s, hs, ht⟩
    obtain ⟨m, hm⟩ := hs.ends_finish hends
    exact ht.trans hm.suffix.1
  · exact fun ht => ⟨e, (hends.reachable .start e rfl).1, ht⟩

/-- A step in code reads the next token, or comes nearer to it. -/
theorem lays_of_step (hcode : ∀ l modes, s.modes ≠ .literal l :: modes) (hs : s.step = .next s') :
    Lays s s' := by
  unfold State.step at hs
  split at hs
  next l modes hmodes => exact absurd hmodes (hcode l modes)
  next => exact lays_stepCode hs

/-- The next token does not begin before the text that is left. -/
theorem start_le_of_path (h : Relation.ReflTransGen State.Precedes s s')
    (hcode : ∀ l modes, s.modes ≠ .literal l :: modes) (ht : t :: s.tokens <:+ s'.tokens) :
    s.pos ≤ t.span.start := by
  induction h using Relation.ReflTransGen.head_induction_on with
  | refl => exact absurd ht.length_le (Nat.not_succ_le_self _)
  | head hs hpath ih =>
      cases lays_of_step hcode hs with
      | token takes tokens tells =>
          rw [cons_suffix_unique ht (tokens ▸ suffix_of_path hpath)]
          exact Nat.le_refl _
      | other takes tokens modes quiet =>
          have hstart := ih (modes ▸ hcode) (tokens ▸ ht)
          rw [takes.pos_eq] at hstart
          exact Nat.le_trans (Nat.le_add_right _ _) hstart

/-- **The next token begins here**, and then the look ahead sees it if it assigns, **or further
on.** -/
theorem Reachable.start_cases (h : Reachable source.toList s)
    (hcode : ∀ l modes, s.modes ≠ .literal l :: modes) (hnext : Next source s.tokens t) :
    (t.span.start = s.pos ∧ (t.kind ∈ assignmentKinds → assignmentAhead s.rest = true)) ∨
      s.pos < t.span.start := by
  obtain ⟨s', hs', ht⟩ := hnext
  have hpath : Relation.ReflTransGen State.Precedes s s' := by
    refine (h.total hs').resolve_right fun hpath => ?_
    exact absurd (ht.trans (suffix_of_path hpath)).length_le (Nat.not_succ_le_self _)
  obtain rfl | ⟨s₁, hs, hpath⟩ := hpath.cases_head
  · exact absurd ht.length_le (Nat.not_succ_le_self _)
  cases lays_of_step hcode hs with
  | token takes tokens tells =>
      rw [cons_suffix_unique ht (tokens ▸ suffix_of_path hpath)]
      exact .inl ⟨rfl, tells.assigns⟩
  | other takes tokens modes quiet =>
      exact .inr (Nat.lt_of_lt_of_le (h.pos_lt hs).1
        (start_le_of_path hpath (modes ▸ hcode) (tokens ▸ ht)))

end Next

/-! ## §2. Operators that assign. -/

section Operators

variable {s : State} {c : Char} {rest : List Char}

/-- The characters that operators that assign begin with. -/
def assignmentStarts : List Char := ['=', '*', '|', '&', '<', '>', '+', '-', '/', '%', '^']

/-- Such a character is no blank, and it is punctuation unless the name of a method is expected. -/
theorem token_of_assignmentStarts (hc : c ∈ assignmentStarts) (hname : s.expect ≠ .definedName) :
    State.blankLength? (c :: rest) = none ∧ s.token c = s.punctuation c := by
  obtain ⟨hspace, hbackslash, hmark, hnewline, hdigit, hquote, hapostrophe, hcommand, hat, hdollar,
      hletter⟩ : State.isSpace c = false ∧ c ≠ '\\' ∧ c ≠ '#' ∧ c ≠ '\n' ∧ isDigit c = false ∧
        c ≠ '\x22' ∧ c ≠ '\x27' ∧ c ≠ '\x60' ∧ c ≠ '@' ∧ c ≠ '$' ∧ isNameStart c = false := by
    simp only [assignmentStarts, List.mem_cons, List.not_mem_nil, or_false] at hc
    rcases hc with rfl | rfl | rfl | rfl | rfl | rfl | rfl | rfl | rfl | rfl | rfl
    all_goals decide
  constructor
  · simp [State.blankLength?, hbackslash, hspace]
  · simp [State.token, hmark, hnewline, hdigit, hquote, hapostrophe, hcommand, hat, hdollar,
      hletter, hname]

/-- All operators that assign but one are in the table. -/
theorem findSpelling_assignment {op : String} (hop : op ∈ assignmentOperators) (hslash : op ≠ "/=")
    (more : List Char) : findSpelling plainPunctuation (op.toList ++ more) = some (op, none) := by
  simp only [assignmentOperators, List.mem_cons, List.not_mem_nil, or_false] at hop
  rcases hop with rfl | rfl | rfl | rfl | rfl | rfl | rfl | rfl | rfl | rfl | rfl | rfl | rfl
  all_goals first | exact absurd rfl hslash | rfl

/-- An equals sign that begins no other operator is not in it. -/
theorem findSpelling_equals (h : nextIs (fun c => c == '=' || c == '~' || c == '>') rest = false) :
    findSpelling plainPunctuation ('=' :: rest) = none := by
  rw [findSpelling, List.find?_eq_none]
  cases rest with
  | nil => decide
  | cons d more =>
      simp only [nextIs, Bool.or_eq_false_iff, beq_eq_false_iff_ne] at h
      obtain ⟨⟨hequals, htilde⟩, harrow⟩ := h
      simp [plainPunctuation, hequals.symm, htilde.symm, harrow.symm]

/-- An operator that assigns is read where a state of the scan is. -/
def ReadsAssignment (s s' : State) : Prop :=
  ∃ t, s'.tokens = t :: s.tokens ∧ t.kind ∈ assignmentKinds ∧ t.span.start = s.pos

theorem readsAssignment_assignment (s : State) (n : Nat) : ReadsAssignment s (s.assignment n) :=
  ⟨_, rfl, List.mem_cons_of_mem _ List.mem_cons_self, rfl⟩

theorem readsAssignment_equals (s : State) :
    ReadsAssignment s (s.closeDefinition.operator .tEQL 1) := by
  unfold State.closeDefinition
  split
  · exact ⟨_, rfl, List.mem_cons_self, rfl⟩
  · exact ⟨_, rfl, List.mem_cons_self, rfl⟩

/-- The look ahead passes blanks. -/
theorem assignmentAhead_dropWhile (cs : List Char) :
    assignmentAhead (cs.dropWhile isSpaceOrTab) = assignmentAhead cs := by
  rw [assignmentAhead, List.dropWhile_idempotent]
  rfl

/-- Behind a value the operator that the look ahead sees is read. -/
theorem readsAssignment_punctuation (hexpect : s.expect = .operator)
    (hblank : s.rest.dropWhile isSpaceOrTab = s.rest) (hahead : assignmentAhead s.rest = true) :
    ∃ c rest, s.rest = c :: rest ∧ c ∈ assignmentStarts ∧ ReadsAssignment s (s.punctuation c) := by
  rw [assignmentAhead, hblank] at hahead
  split at hahead
  next rest hrest =>
    rw [Bool.not_eq_true'] at hahead
    have hpunctuation : s.punctuation '=' = s.closeDefinition.operator .tEQL 1 := by
      rw [State.punctuation, hrest, findSpelling_equals hahead]
      rfl
    exact ⟨_, _, hrest, List.mem_cons_self, hpunctuation ▸ readsAssignment_equals s⟩
  next =>
    -- an operator with an equals sign behind it
    obtain ⟨op, hop, hprefix⟩ := List.any_eq_true.mp hahead
    obtain ⟨more, hmore⟩ := List.isPrefixOf_iff_prefix.mp hprefix
    have hstarts : ∀ op ∈ assignmentOperators,
        op.toList.head?.any assignmentStarts.contains = true := by
      decide +kernel
    obtain ⟨c, hstart, hc⟩ := (Option.any_eq_true _ _).mp (hstarts op hop)
    obtain ⟨rest, hrest⟩ := List.head?_eq_some_iff.mp hstart
    refine ⟨c, rest ++ more, by rw [← hmore, hrest, List.cons_append],
      List.contains_iff_mem.mp hc, ?_⟩
    by_cases hslash : op = "/="
    · -- a slash is punctuation that depends on the context
      subst hslash
      obtain rfl : c = '/' := Option.some.inj hstart.symm
      have hsees : s.sees "/=" = true := hprefix
      have hspelling : findSpelling plainPunctuation s.rest = none := by
        rw [← hmore]
        rfl
      have hpunctuation : s.punctuation '/' = s.assignment 2 := by
        rw [State.punctuation, hspelling]
        show s.slash = _
        simp [State.slash, State.beginsValue, State.marksArgument, hexpect, hsees]
      rw [hpunctuation]
      exact readsAssignment_assignment s 2
    · have hpunctuation : s.punctuation c = s.assignment op.length := by
        rw [State.punctuation, ← hmore, findSpelling_assignment hop hslash]
      rw [hpunctuation]
      exact readsAssignment_assignment s _

/-- **Behind a value on its line the operator that the look ahead sees is read.** -/
theorem step_assignment (hcode : ∀ l modes, s.modes ≠ .literal l :: modes)
    (hline : s.atLineStart = false) (hexpect : s.expect = .operator)
    (hblank : s.rest.dropWhile isSpaceOrTab = s.rest) (hahead : assignmentAhead s.rest = true) :
    ∃ s', s.step = .next s' ∧ ReadsAssignment s s' := by
  obtain ⟨c, rest, hrest, hc, hreads⟩ := readsAssignment_punctuation hexpect hblank hahead
  obtain ⟨hlength, htoken⟩ : State.blankLength? (c :: rest) = none ∧
      s.token c = s.punctuation c := token_of_assignmentStarts hc (by simp [hexpect])
  have hstep : s.step = .next (s.token c) := by
    rw [step_of_code hcode hrest (by rw [hline]; rfl) (by rw [hline]; rfl), hlength]
  exact ⟨s.token c, hstep, htoken ▸ hreads⟩

end Operators

/-- Behind some characters of a line the scan is at no line's beginning. -/
theorem Reachable.atLineStart_eq_false {text line : List Char} {u : State} (hs : Reachable text s)
    (hu : Reachable text u) (hrest : s.rest = line ++ u.rest) (hne : line ≠ [])
    (hline : '\n' ∉ line) : u.atLineStart = false := by
  obtain ⟨-, read, hread⟩ := hs.scanned
  obtain ⟨-, read', hread'⟩ := hu.scanned
  have htext : read' ++ u.rest = read ++ line ++ u.rest := by
    rw [← hread'.text_eq, hread.text_eq, hrest, List.append_assoc]
  rw [Bool.eq_false_iff]
  intro hstart
  rw [hread'.lineStart, List.append_cancel_right htext] at hstart
  rcases hstart with hnil | hlast
  · exact hne (List.append_eq_nil_iff.mp hnil).2
  · rw [List.getLast?_append_of_ne_nil _ hne] at hlast
    exact hline (List.mem_of_getLast? hlast)

/-- What is true of all characters up to an offset is true of the one before it. -/
theorem nextIs_of_all_slice {p : Char → Bool} {before blanks rest front back : List Char}
    (htext : before ++ blanks ++ rest = front ++ back)
    (hlater : byteLength (before ++ blanks) < byteLength front)
    (hall : (slice (front ++ back) (byteLength before) (byteLength front)).all p = true) :
    nextIs p rest = true := by
  obtain ⟨more, rfl⟩ := prefix_of_byteLength_le htext (Nat.le_of_lt hlater)
  cases more with
  | nil => exact absurd hlater (by rw [List.append_nil]; exact Nat.lt_irrefl _)
  | cons c more =>
      rw [List.append_assoc _ (c :: more)] at htext
      rw [List.append_cancel_left htext]
      rw [List.append_assoc before, slice_append, List.all_append, Bool.and_eq_true] at hall
      exact ((Bool.and_eq_true _ _).mp hall.2).1

/-! ## §3. Names. -/

/-- What follows the word that comes next. -/
def afterWord (s : State) : List Char := s.rest.drop (readWord s.rest).chars.length

/-- The token of a name that comes next. -/
def nameToken (s : State) : Token :=
  ⟨.tIDENTIFIER, String.ofList (readWord s.rest).chars,
    s.spanOfNext (readWord s.rest).chars.length⟩

/-- Only spaces and tabs stand between the name and a token. -/
def Adjoins (source : String) (s : State) (t : Token) : Prop :=
  (slice source.toList (nameToken s).span.stop t.span.start).all isSpaceOrTab = true

section Words

variable {text : List Char} {s : State}

/-- The characters of the word are the next ones. -/
theorem take_readWord (s : State) :
    s.rest.take (readWord s.rest).chars.length = (readWord s.rest).chars :=
  (List.prefix_iff_eq_take.mp (readWord_isPrefix s.rest)).symm

theorem tokens_emitThen (s : State) (locals : List String) (expect : Expect) :
    ({ s with locals }.emitThen .tIDENTIFIER (readWord s.rest).chars.length expect).tokens =
      nameToken s :: s.tokens := by
  show Token.mk _ (String.ofList (s.rest.take _)) _ :: s.tokens = _
  rw [take_readWord]
  rfl

theorem append_afterWord (s : State) : (readWord s.rest).chars ++ afterWord s = s.rest :=
  (congrArg (· ++ afterWord s) (take_readWord s).symm).trans (List.take_append_drop _ _)

/-- The text behind the name begins where its token ends. -/
theorem exists_before (hs : Reachable text s) : ∃ before, text = before ++ afterWord s ∧
    byteLength before = (nameToken s).span.stop := by
  obtain ⟨-, read, hread⟩ := hs.scanned
  refine ⟨read ++ (readWord s.rest).chars, ?_, ?_⟩
  · rw [List.append_assoc, append_afterWord, hread.text_eq]
  · rw [nameToken, hread.stop_eq (readWord_isPrefix _).length_le, take_readWord, byteLength_append]

/-- Behind the name blanks stand, and what is no blank. -/
theorem append_blanks (before : List Char) (s : State) : before ++ afterWord s =
    before ++ (afterWord s).takeWhile isSpaceOrTab ++ (afterWord s).dropWhile isSpaceOrTab := by
  rw [List.append_assoc, List.takeWhile_append_dropWhile]

/-- The names that are known when another one has been bound, or not. -/
theorem mem_bind {names : List String} {name bound : String} {binds : Bool} :
    name ∈ (if binds && !names.contains bound then bound :: names else names) ↔
      name ∈ names ∨ name = bound ∧ binds = true := by
  cases binds with
  | false => simp
  | true =>
      rw [Bool.true_and]
      split
      next => simp [or_comm]
      next hknown =>
        have hmem : bound ∈ names := by simpa using hknown
        exact ⟨.inl, fun h => h.elim id fun h => h.1 ▸ hmem⟩

end Words

/-! ## §4. Free names. -/

/-- A name comes next that nothing else binds: it stands neither in a parameter list nor behind a
`for`, and is no keyword, no label and no name of a method.  Whether it becomes known is left to the
look ahead. -/
structure FreeName (s : State) : Prop where
  code : ∀ l modes, s.modes ≠ .literal l :: modes
  begins : nextIs isNameStart s.rest = true
  small : nameKind (readWord s.rest) = .tIDENTIFIER
  notKeyword : keyword? (String.ofList (readWord s.rest).chars) = none
  notLabel : ¬((afterWord s).head? = some ':' ∧ (afterWord s).tail.head? ≠ some ':' ∧
    s.allowsLabel = true)
  notMethod : s.expect ≠ .method ∧ s.expect ≠ .definedName
  notEnd : (s.atLineStart && s.atEndMarker) = false
  params : s.params = .none
  notFor : s.lastKind ≠ some .kFOR

namespace FreeName

variable {text : List Char} {s : State}

/-- The word is plain. -/
theorem word_eq (h : FreeName s) : s.word = s.plainName (readWord s.rest) := by
  have hlabel : (!(readWord s.rest).marked && (afterWord s).head? == some ':' &&
      (afterWord s).tail.head? != some ':' && s.allowsLabel) = false := by
    rw [Bool.eq_false_iff]
    intro hlabel
    simp only [Bool.and_eq_true, beq_iff_eq, bne_iff_ne] at hlabel
    exact h.notLabel ⟨hlabel.1.1.2, hlabel.1.2, hlabel.2⟩
  have hmethod : (s.expect == .method) = false := beq_eq_false_iff_ne.mpr h.notMethod.1
  have hdefined : (s.expect == .definedName) = false := beq_eq_false_iff_ne.mpr h.notMethod.2
  rw [afterWord] at hlabel
  simp only [State.word, hdefined, hmethod, hlabel, h.notKeyword, Bool.false_eq_true, if_false]

theorem step_eq (h : FreeName s) : s.step = .next (s.plainName (readWord s.rest)) := by
  obtain ⟨c, rest, hrest, hc⟩ := exists_cons_of_nextIs h.begins
  have hdocument := atDocument_eq_false hrest (ne_of_isNameStart hc (by decide))
  rw [step_of_code h.code hrest h.notEnd (by rw [hdocument, Bool.and_false]),
    blankLength?_of_isNameStart hc, token_eq_word s hc, h.word_eq]

/-- What reading the name does. -/
theorem plainName_eq (h : FreeName s) : ∃ locals expect,
    s.plainName (readWord s.rest) =
      { s with locals }.emitThen .tIDENTIFIER (readWord s.rest).chars.length expect ∧
    (∀ name, name ∈ locals ↔ name ∈ s.locals ∨
      name = (nameToken s).value ∧ assignmentAhead (afterWord s) = true) ∧
    (assignmentAhead (afterWord s) = true → expect = .operator) := by
  have hnone : (s.params != .none || s.lastKind == some .kFOR) = false := by
    rw [h.params, beq_eq_false_iff_ne.mpr h.notFor]
    rfl
  simp only [State.plainName, h.small, if_true, hnone, Bool.false_or]
  refine ⟨_, _, rfl, fun name => mem_bind, fun hahead => ?_⟩
  rw [if_pos]
  exact List.contains_iff_mem.mpr (mem_bind.mpr (.inr ⟨rfl, hahead⟩))

/-- Behind the name and the blanks after it the scan is on the same line, and if the look ahead sees
an assignment the name is a value. -/
theorem exists_behind (h : FreeName s) (hs : Reachable text s) : ∃ u, Reachable text u ∧
    u.tokens = nameToken s :: s.tokens ∧ u.rest = (afterWord s).dropWhile isSpaceOrTab ∧
    u.pos = (nameToken s).span.stop + byteLength ((afterWord s).takeWhile isSpaceOrTab) ∧
    (∀ l modes, u.modes ≠ .literal l :: modes) ∧ u.atLineStart = false ∧
    (assignmentAhead (afterWord s) = true → u.expect = .operator) := by
  obtain ⟨locals, expect, hname, -, hexpect⟩ := h.plainName_eq
  -- after the step that reads the word only blanks are passed
  have hstep := h.step_eq
  rw [hname] at hstep
  obtain ⟨spaced, atLineStart, hu⟩ := (hs.step hstep).blanks
    (fun c hc => List.mem_takeWhile_imp hc) h.code List.takeWhile_append_dropWhile.symm
  have hrest : s.rest = (readWord s.rest).chars ++ (afterWord s).takeWhile isSpaceOrTab ++
      (afterWord s).dropWhile isSpaceOrTab := by
    rw [← append_blanks, append_afterWord]
  refine ⟨_, hu, tokens_emitThen s locals expect, rfl, rfl, h.code,
    hs.atLineStart_eq_false hu hrest ?_ ?_, hexpect⟩
  · obtain ⟨c, rest, hcons, hc⟩ := exists_cons_of_nextIs h.begins
    have hpos : 0 < (readWord (c :: rest)).chars.length := readWord_pos hc
    rw [← hcons] at hpos
    exact List.append_ne_nil_of_left_ne_nil (List.length_pos_iff.mp hpos) _
  · rw [List.mem_append, not_or]
    refine ⟨readWord_line _, fun hmem => ?_⟩
    exact absurd (List.mem_takeWhile_imp hmem) (by decide)

variable {source : String} {t : Token}

/-- **What the look ahead sees is the next token.** -/
theorem exists_next (h : FreeName s) (hs : Reachable source.toList s)
    (hahead : assignmentAhead (afterWord s) = true) :
    ∃ t, Next source (nameToken s :: s.tokens) t ∧ t.kind ∈ assignmentKinds ∧
      Adjoins source s t := by
  obtain ⟨u, hu, htokens, hrest, hpos, hcode, hline, hexpect⟩ := h.exists_behind hs
  obtain ⟨s', hstep, t, ht, hkind, hstart⟩ := step_assignment hcode hline (hexpect hahead)
    (hrest ▸ List.dropWhile_idempotent _ _) (by rw [hrest, assignmentAhead_dropWhile, hahead])
  refine ⟨t, ⟨s', hu.step hstep, ht ▸ htokens ▸ List.suffix_refl _⟩, hkind, ?_⟩
  obtain ⟨before, htext, hbefore⟩ := exists_before hs
  rw [Adjoins, hstart, hpos, ← hbefore, ← byteLength_append, htext, append_blanks, slice_append]
  exact List.all_takeWhile

/-- **It is seen if it assigns** and only spaces and tabs stand before it. -/
theorem assignmentAhead_of_next (h : FreeName s) (hs : Reachable source.toList s)
    (hnext : Next source (nameToken s :: s.tokens) t) (hkind : t.kind ∈ assignmentKinds)
    (hadjoins : Adjoins source s t) : assignmentAhead (afterWord s) = true := by
  obtain ⟨u, hu, htokens, hrest, hpos, hcode, -⟩ := h.exists_behind hs
  obtain ⟨before, htext, hbefore⟩ := exists_before hs
  rw [← htokens] at hnext
  obtain ⟨-, hassigns⟩ | hlater := hu.start_cases hcode hnext
  · rw [← assignmentAhead_dropWhile, ← hrest]
    exact hassigns hkind
  · -- then the first character that is no blank would stand before the token, and be one
    obtain ⟨s', hs', ht⟩ := hnext
    obtain ⟨read, hread⟩ := hs'.positioned
    obtain ⟨stretch, ⟨front, back, hfront, hstart, -⟩, -⟩ :=
      hread.tokens t (ht.subset List.mem_cons_self)
    rw [hpos, ← hbefore, ← byteLength_append, hstart] at hlater
    rw [Adjoins, hstart, ← hbefore, hfront] at hadjoins
    rw [htext, append_blanks] at hfront
    have hblank := nextIs_of_all_slice hfront hlater hadjoins
    rw [nextIs_dropWhile] at hblank
    cases hblank

end FreeName

/-! ## §5. The look ahead. -/

/-- What the look ahead behind a name says about the token that comes next in a source. -/
structure LooksAhead (source : String) (s : State) : Prop where
  /-- The name becomes a token, and known if an assignment is seen. -/
  named : ∃ s', s.step = .next s' ∧ Gathered source (nameToken s :: s.tokens) (afterWord s) ∧
    ∀ name, name ∈ s'.locals ↔ name ∈ s.locals ∨
      name = (nameToken s).value ∧ assignmentAhead (afterWord s) = true
  /-- An assignment is seen exactly if the next token assigns and adjoins the name. -/
  sees : assignmentAhead (afterWord s) = true ↔
    ∃ t, Next source (nameToken s :: s.tokens) t ∧ t.kind ∈ assignmentKinds ∧
      Adjoins source s t
  /-- No other token is next. -/
  one : ∀ t t', Next source (nameToken s :: s.tokens) t →
    Next source (nameToken s :: s.tokens) t' → t = t'
  /-- If the source is split into tokens, the next one stands there behind the name. -/
  kept : ∀ lexed, (lex source).1 = .ok lexed → ∀ t,
    Next source (nameToken s :: s.tokens) t ↔
      (nameToken s :: s.tokens).reverse ++ [t] <+: lexed.tokens

/-- **Exactly what the look ahead behind a name says**: that the next token assigns, and that only
spaces and tabs stand before it. -/
theorem assignmentAhead_iff_next {source : String} {s : State} (hs : Reachable source.toList s)
    (h : FreeName s) : LooksAhead source s where
  named := by
    obtain ⟨locals, expect, hname, hlocals, -⟩ := h.plainName_eq
    have hstep := h.step_eq
    rw [hname] at hstep
    exact ⟨_, hstep, (hs.step hstep).gathered (tokens_emitThen s locals expect) rfl, hlocals⟩
  sees := ⟨h.exists_next hs, fun ⟨_, hnext, hkind, hadjoins⟩ =>
    h.assignmentAhead_of_next hs hnext hkind hadjoins⟩
  one _ _ := next_unique
  kept _ hlex _ := next_iff_prefix hlex

/-- An assignment is seen behind the first name.  Behind the second one it is not, since a hidden
newline stands before the equals sign, which is the next token all the same. -/
theorem assignmentAhead_iff_next_hidden :
    (∃ t, Next "x += 1" [⟨.tIDENTIFIER, "x", ⟨0, 1, 1, 0⟩⟩] t ∧ t.kind ∈ assignmentKinds ∧
      Adjoins "x += 1" (State.start "x += 1".toList) t) ∧
    (¬∃ t, Next "x \\\n= 1" [⟨.tIDENTIFIER, "x", ⟨0, 1, 1, 0⟩⟩] t ∧ t.kind ∈ assignmentKinds ∧
      Adjoins "x \\\n= 1" (State.start "x \\\n= 1".toList) t) ∧
    Next "x \\\n= 1" [⟨.tIDENTIFIER, "x", ⟨0, 1, 1, 0⟩⟩] ⟨.tEQL, "=", ⟨4, 5, 2, 0⟩⟩ := by
  have hseen : LooksAhead "x += 1" (State.start "x += 1".toList) :=
    assignmentAhead_iff_next .start
      ⟨nofun, rfl, rfl, rfl, (fun h => nomatch h.1), ⟨nofun, nofun⟩, rfl, rfl, nofun⟩
  have hhidden : LooksAhead "x \\\n= 1" (State.start "x \\\n= 1".toList) :=
    assignmentAhead_iff_next .start
      ⟨nofun, rfl, rfl, rfl, (fun h => nomatch h.1), ⟨nofun, nofun⟩, rfl, rfl, nofun⟩
  refine ⟨hseen.sees.mp rfl, fun h => absurd (hhidden.sees.mpr h) nofun, ?_⟩
  -- the name, the blank, the hidden newline and the equals sign
  have hname : Reachable "x \\\n= 1".toList _ := .step .start rfl
  have hblank : Reachable "x \\\n= 1".toList _ := .step hname rfl
  have hnewline : Reachable "x \\\n= 1".toList _ := .step hblank rfl
  have hequals : Reachable "x \\\n= 1".toList _ := .step hnewline rfl
  exact ⟨_, hequals, List.suffix_refl _⟩

end RubySyntax.Token.Lexer
