/-
  RubySyntax.Proofs.Token.Move
  ────────────────────────────
  **WHAT A STEP IN CODE CAN DO.**

  Between literals the scan makes few moves: a token, a comment, a blank, a stretch that is
  rejected, and perhaps a report before a token.  `Turn` lists them, with all that the scan has
  recorded after each, with what a token does to the literals and brackets that are open, and with
  the characters that a move takes: they are there, at least one, on one line unless they are a
  document comment, and those of a token spell it.  That every operator, bracket, word and number
  is such a move is shown here once.  All else that a step changes is context, which no record
  depends on; so a property of the records needs to be checked for the moves only, and `Moves`
  says what is to be checked.

  Main results:
    • `emits_word`, `turn_punctuation`, … — a token is emitted, whatever the characters are,
    • `turn_token` — any piece of code,
    • `turn_stepCode` — any step in code is one of the moves,
    • `Moves.stepCode` — what the moves do to a property a step in code does.
-/
import RubySyntax.Proofs.Token.Line

namespace RubySyntax.Token.Lexer

open RubySyntax.Text

/-! ## §1. What a move takes. -/

/-- A text begins with `n` characters, which are some. -/
structure Offers (rest : List Char) (n : Nat) : Prop where
  pos : 0 < n
  le : n ≤ rest.length

theorem Offers.ne_nil {rest : List Char} {n : Nat} (h : Offers rest n) : rest ≠ [] :=
  List.length_pos_iff.mp (Nat.lt_of_lt_of_le h.pos h.le)

/-- A text begins with `n` characters, which are some, and on one line: only the last of them may
be a newline. -/
structure Lexeme (rest : List Char) (n : Nat) : Prop extends Offers rest n where
  line : OneLine rest (n - 1)

section Lexeme

variable {rest : List Char} {n : Nat}

theorem Offers.lexeme (h : Offers rest n) (hline : OneLine rest n) : Lexeme rest n :=
  ⟨h, hline.mono (Nat.sub_le n 1)⟩

/-- One character is on one line, whatever it is. -/
theorem lexeme_one (h : rest ≠ []) : Lexeme rest 1 :=
  ⟨⟨Nat.one_pos, List.length_pos_iff.mpr h⟩, oneLine_zero rest⟩

/-- It is no newline unless the text begins with one. -/
theorem oneLine_one (h : rest.head? ≠ some '\n') : OneLine rest 1 := by
  cases rest with
  | nil => exact List.not_mem_nil
  | cons c rest => exact (oneLine_zero rest).cons fun hc => h (hc ▸ rfl)

theorem Lexeme.of_sees {s : State} {spelling : String} (h : s.sees spelling = true)
    (hpos : 0 < spelling.length) (hline : '\n' ∉ spelling.toList) : Lexeme s.rest spelling.length :=
  Offers.lexeme ⟨hpos, length_le_of_isPrefixOf h⟩ (oneLine_of_isPrefixOf hline h)

theorem lexeme_of_findSpelling {α : Type} {table : List (String × α)} {entry : String × α}
    (h : findSpelling table rest = some entry) (hpos : ∀ entry ∈ table, 0 < entry.1.length)
    (hline : ∀ entry ∈ table, '\n' ∉ entry.1.toList) : Lexeme rest entry.1.length :=
  Offers.lexeme ⟨findSpelling_pos hpos h, findSpelling_le h⟩ (findSpelling_line hline h)

/-- A word with `k` more characters, of which only the last may be a newline. -/
theorem lexeme_word {c : Char} (hc : isNameStart c = true) (rest : List Char) :
    Lexeme (c :: rest) (readWord (c :: rest)).chars.length :=
  Offers.lexeme ⟨readWord_pos hc, (readWord_isPrefix _).length_le⟩
    (oneLine_of_isPrefix (readWord_isPrefix _) (readWord_line _))

/-- One character more, whatever it is. -/
theorem Lexeme.snoc (h : Lexeme rest n) (hline : OneLine rest n) {d : Char}
    (hd : (rest.drop n).head? = some d) : Lexeme rest (n + 1) :=
  ⟨⟨Nat.succ_pos n, add_one_le_of_head? h.le hd⟩, hline⟩

end Lexeme

/-! ## §2. How tokens are spelt. -/

/-- What stands before and after the value of a token in the text, in each way in which tokens of a
kind may be spelt. -/
def affixes : Kind → List (String × String)
  | .tSYMBOL => [(":", "")]
  | .tNTH_REF => [("$", "")]
  | .tLABEL => [("", ":")]
  | .tOP_ASGN => [("", "=")]
  | .tINTEGER | .tFLOAT | .tRATIONAL | .tIMAGINARY => [("", ""), ("+", "")]
  | _ => [("", "")]

/-- Some characters spell a token: they are its value between affixes of its kind.  The content of a
literal and a character may be written with escapes, and nothing is said about them. -/
def Spells (lexeme : List Char) (kind : Kind) (value : List Char) : Prop :=
  kind ≠ .tSTRING_CONTENT → kind ≠ .tCHARACTER →
    ∃ affix ∈ affixes kind, lexeme = affix.1.toList ++ value ++ affix.2.toList

/-- Whether the value of a token of a kind may be all that the text has. -/
def isBare (kind : Kind) : Bool := (affixes kind).contains ("", "")

theorem spells_of_isBare {kind : Kind} (h : isBare kind = true) (lexeme : List Char) :
    Spells lexeme kind lexeme :=
  fun _ _ => ⟨("", ""), List.contains_iff_mem.mp h, (List.append_nil lexeme).symm⟩

theorem spells_escaped {kind : Kind} (h : kind = .tSTRING_CONTENT ∨ kind = .tCHARACTER)
    (lexeme value : List Char) : Spells lexeme kind value :=
  fun hcontent hcharacter => (h.elim hcontent hcharacter).elim

/-! ## §3. What a move does. -/

/-- What the scan has recorded, apart from the context of the next token. -/
structure Records where
  rest : List Char
  pos : Nat
  atLineStart : Bool
  tokens : List Token
  comments : List Comment
  diagnostics : List Diagnostic

/-- The records of a state. -/
def State.records (s : State) : Records :=
  ⟨s.rest, s.pos, s.atLineStart, s.tokens, s.comments, s.diagnostics⟩

/-- How many brackets and blocks are open. -/
def State.nesting (s : State) : Nat := s.depth + s.blocks

/-- The records of a state, the lines of the text, and what is open. -/
def State.frame (s : State) : Records × LineTable × List Mode × List Bracket :=
  (s.records, s.lines, s.modes, s.brackets)

/-- The kinds of the tokens that literals are made of. -/
def literalKinds : List Kind :=
  [.tSTRING_BEG, .tXSTRING_BEG, .tSYMBEG, .tREGEXP_BEG, .tSTRING_CONTENT, .tSTRING_DBEG,
    .tSTRING_DEND, .tSTRING_END, .tREGEXP_OPT]

/-- Whether tokens of a kind are no part of a literal. -/
def isCode (kind : Kind) : Bool := !literalKinds.contains kind

/-- Whether tokens of a kind are no part of a literal and no newlines. -/
def isInline (kind : Kind) : Bool := isCode kind && kind != .tNL

theorem isCode_of_isInline {kind : Kind} (h : isInline kind = true) : isCode kind = true :=
  ((Bool.and_eq_true _ _).mp h).1

/-- Whether tokens of a kind are no part of a literal, no newlines, and may be all value. -/
def isPlain (kind : Kind) : Bool := isInline kind && isBare kind

theorem isInline_of_isPlain {kind : Kind} (h : isPlain kind = true) : isInline kind = true :=
  ((Bool.and_eq_true _ _).mp h).1

theorem spells_of_isPlain {kind : Kind} (h : isPlain kind = true) (lexeme : List Char) :
    Spells lexeme kind lexeme :=
  spells_of_isBare ((Bool.and_eq_true _ _).mp h).2 lexeme

/-- The kind of the token that opens a literal. -/
def Literal.opener (l : Literal) : Kind :=
  match l.form with
  | .string => .tSTRING_BEG
  | .command => .tXSTRING_BEG
  | .symbol => .tSYMBEG
  | .regexp => .tREGEXP_BEG

/-- Perhaps there is a warning about what comes next. -/
inductive Warned (s : State) : State → Prop where
  | silent : Warned s s
  | warning {fault : Fault} (hfault : fault.level = .warning) (n : Nat)
      (hn : n ≤ s.rest.length) : Warned s (s.report fault n)

/-- What a token in code does to what is open: nothing, or it opens or closes a bracket, opens a
literal, or returns from an interpolation.  A bracket that closes closes any bracket.  A newline is
a token where it ends a statement, and no other token is one. -/
inductive Shift (s : State) : Kind → State → Prop where
  | keep {kind : Kind} {s' : State} (hkind : isInline kind = true) (modes : s'.modes = s.modes)
      (brackets : s'.brackets = s.brackets) : Shift s kind s'
  | newline {s' : State} (h : s.rest.head? = some '\n') (modes : s'.modes = s.modes)
      (brackets : s'.brackets = s.brackets) : Shift s .tNL s'
  | openBracket {kind : Kind} {s' : State} (hkind : isInline kind = true) (bracket : Bracket)
      (hbracket : bracket ≠ .interpolation) (modes : s'.modes = s.modes)
      (brackets : s'.brackets = bracket :: s.brackets) : Shift s kind s'
  | closeBracket {kind : Kind} {s' : State} (hkind : isInline kind = true)
      (modes : s'.modes = s.modes) (brackets : s'.brackets = s.brackets.tail) : Shift s kind s'
  | openLiteral {s' : State} (l : Literal) (hopened : l.opened = s.pos) (hclose : l.close ≠ '\n')
      (modes : s'.modes = .literal l :: s.modes) (brackets : s'.brackets = s.brackets) :
      Shift s l.opener s'
  | resume {s' : State} (h : s.brackets.head? = some .interpolation)
      (modes : s'.modes = s.modes.tail) (brackets : s'.brackets = s.brackets.tail) :
      Shift s .tSTRING_DEND s'

/-- A token has been emitted, perhaps after a warning; the characters that it takes spell it, and
whatever else the step changed is context. -/
inductive Emits (s s' : State) : Prop where
  | mk {t : State} (warned : Warned s t) {kind : Kind} {n : Nat} {value : List Char}
      (lexeme : Lexeme s.rest n) (records : s'.records = (t.emit kind n value).records)
      (lines : s'.lines = s.lines) (shift : Shift s kind s')
      (spelt : Spells (s.rest.take n) kind value) : Emits s s'

/-- What a step in code can do. -/
inductive Turn (s : State) : State → Prop where
  | token {s' : State} (h : Emits s s') : Turn s s'
  /-- A character after its mark, in which something is wrong. -/
  | character {n : Nat} (lexeme : Lexeme s.rest n) (d : Diagnostic) (value : List Char)
      (hlevel : d.level = .error) (hstart : d.span.start = s.pos + 1)
      (hspan : ∃ source after, s.rest = '?' :: (source ++ after) ∧
        d.span = s.spanOf (s.pos + 1) (s.pos + 1 + byteLength source)) :
      Turn s { { s with diagnostics := d :: s.diagnostics }.emit .tCHARACTER n value with
        expect := .operator }
  | lineComment (h : s.rest.head? = some '#') : Turn s s.lineComment
  | document {n : Nat} (hstart : s.atLineStart = true) (hat : s.atDocument = true)
      (hn : documentLength? s.rest = some n) : Turn s (s.comment n (s.rest.take n))
  | blank {n : Nat} (lexeme : Lexeme s.rest n) (h : Separator (s.rest.take n)) : Turn s (s.blank n)
  | reject {n : Nat} (lexeme : Lexeme s.rest n) {fault : Fault} (hlevel : fault.level = .error)
      (hline : s.rest.head? ≠ some '\n' → OneLine s.rest n) : Turn s (s.reject fault n)

section Emits

variable {s s' t : State}

/-- A warning changes the diagnostics only. -/
theorem Warned.context (h : Warned s t) : t.rest = s.rest ∧ t.pos = s.pos ∧ t.lines = s.lines ∧
    t.modes = s.modes ∧ t.brackets = s.brackets := by
  cases h with
  | silent => exact ⟨rfl, rfl, rfl, rfl, rfl⟩
  | warning => exact ⟨rfl, rfl, rfl, rfl, rfl⟩

/-- A token that opens and closes nothing, with a value. -/
theorem Warned.emits_value (hw : Warned s t) {n : Nat} (hn : Lexeme s.rest n) {kind : Kind}
    (hkind : isInline kind = true) {value : List Char} (hspelt : Spells (s.rest.take n) kind value)
    (h : s'.frame = (t.emit kind n value).frame) : Emits s s' := by
  obtain ⟨-, -, hlines, hmodes, hbrackets⟩ := hw.context
  exact .mk hw hn (congrArg (·.1) h) ((congrArg (·.2.1) h).trans hlines)
    (.keep hkind ((congrArg (·.2.2.1) h).trans hmodes) ((congrArg (·.2.2.2) h).trans hbrackets))
    hspelt

/-- A token that opens and closes nothing, spelt as it stands. -/
theorem Warned.emits (hw : Warned s t) {n : Nat} (hn : Lexeme s.rest n) (kind : Kind)
    (hkind : isPlain kind = true) (h : s'.frame = (t.emitSpelt kind n).frame) : Emits s s' := by
  refine hw.emits_value hn (isInline_of_isPlain hkind) (spells_of_isPlain hkind _) ?_
  rw [h, State.emitSpelt, hw.context.1]

/-- A token that opens and closes nothing, spelt as it stands, without a warning. -/
theorem emits {n : Nat} (hn : Lexeme s.rest n) (kind : Kind) (hkind : isPlain kind = true)
    (h : s'.frame = (s.emitSpelt kind n).frame) : Emits s s' :=
  Warned.silent.emits hn kind hkind h

/-- Context that changes later is none of the records. -/
theorem Emits.settle {s'' : State} (h : Emits s s') (hframe : s''.frame = s'.frame) :
    Emits s s'' := by
  obtain ⟨hw, hn, hrecords, hlines, hshift, hspelt⟩ := h
  have hmodes : s''.modes = s'.modes := congrArg (·.2.2.1) hframe
  have hbrackets : s''.brackets = s'.brackets := congrArg (·.2.2.2) hframe
  refine .mk hw hn ((congrArg (·.1) hframe).trans hrecords)
    ((congrArg (·.2.1) hframe).trans hlines) ?_ hspelt
  cases hshift with
  | keep hkind modes brackets =>
      exact .keep hkind (hmodes.trans modes) (hbrackets.trans brackets)
  | newline h modes brackets => exact .newline h (hmodes.trans modes) (hbrackets.trans brackets)
  | openBracket hkind bracket hbracket modes brackets =>
      exact .openBracket hkind bracket hbracket (hmodes.trans modes) (hbrackets.trans brackets)
  | closeBracket hkind modes brackets =>
      exact .closeBracket hkind (hmodes.trans modes) (hbrackets.trans brackets)
  | openLiteral l hopened hclose modes brackets =>
      exact .openLiteral l hopened hclose (hmodes.trans modes) (hbrackets.trans brackets)
  | resume h modes brackets =>
      exact .resume h (hmodes.trans modes) (hbrackets.trans brackets)

/-- What is recorded when a token has been emitted, whether there was a warning or not. -/
theorem Emits.exists_token (h : Emits s s') : ∃ kind n value, Lexeme s.rest n ∧ Shift s kind s' ∧
    s'.rest = s.rest.drop n ∧ s'.tokens = ⟨kind, value, s.spanOfNext n⟩ :: s.tokens ∧
    s'.comments = s.comments ∧ s'.lines = s.lines ∧
    Spells (s.rest.take n) kind value.toList := by
  obtain @⟨t, hw, kind, n, value, hn, hrecords, hlines, hshift, hspelt⟩ := h
  rw [← @String.toList_ofList value] at hspelt
  have hrest := congrArg Records.rest hrecords
  have htokens := congrArg Records.tokens hrecords
  have hcomments := congrArg Records.comments hrecords
  cases hw with
  | silent => exact ⟨_, _, _, hn, hshift, hrest, htokens, hcomments, hlines, hspelt⟩
  | warning => exact ⟨_, _, _, hn, hshift, hrest, htokens, hcomments, hlines, hspelt⟩

theorem Warned.emits_openLiteral (hw : Warned s t) {n : Nat} (hn : Lexeme s.rest n)
    (form : LiteralForm) {close : Char} (hclose : close ≠ '\n') (interpolates : Bool) :
    Emits s (t.openLiteral form close interpolates
      (Literal.opener ⟨form, close, interpolates, t.pos⟩) n) := by
  obtain ⟨hrest, hpos, hlines, hmodes, hbrackets⟩ := hw.context
  have hspelt : Spells (s.rest.take n) (Literal.opener ⟨form, close, interpolates, t.pos⟩)
      (t.rest.take n) := by
    rw [hrest]
    refine spells_of_isBare ?_ _
    cases form <;> rfl
  exact .mk hw hn rfl hlines
    (.openLiteral ⟨form, close, interpolates, t.pos⟩ hpos hclose (congrArg _ hmodes) hbrackets)
    hspelt

end Emits

/-! ## §4. Operators. -/

section Operators

variable {s t : State}

theorem emits_argumentMark {spelling : String} (hn : Lexeme s.rest spelling.length)
    {mark infixed : Kind} (hmark : isPlain mark = true) (hinfixed : isPlain infixed = true) :
    Emits s (s.argumentMark spelling mark infixed) := by
  simp only [State.argumentMark]
  split
  · split
    · exact (Warned.warning rfl _ hn.le).emits hn mark hmark rfl
    · exact emits hn mark hmark rfl
  · exact emits hn infixed hinfixed rfl

/-- A number may have a plus before its value. -/
theorem affixes_numberLength (cs : List Char) : isInline (numberLength cs).1 = true ∧
    affixes (numberLength cs).1 = [("", ""), ("+", "")] := by
  have hbody : isInline (bodyLength cs).1 = true ∧
      affixes (bodyLength cs).1 = [("", ""), ("+", "")] := by
    unfold bodyLength
    split
    · exact ⟨rfl, rfl⟩
    · dsimp only
      split <;> exact ⟨rfl, rfl⟩
  simp only [numberLength]
  split
  · split <;> exact ⟨rfl, rfl⟩
  · split
    · exact ⟨rfl, rfl⟩
    · exact hbody

/-- What stands before the digits of a number: nothing, or one sign. -/
inductive Signed : List Char → Nat → Bool → Prop where
  | unsigned (digits : List Char) : Signed digits 0 false
  | minus (digits : List Char) : Signed ('-' :: digits) 1 true
  | plus (digits : List Char) : Signed ('+' :: digits) 1 false

/-- A sign is on one line. -/
theorem Signed.line {rest : List Char} {signLength : Nat} {negative : Bool}
    (h : Signed rest signLength negative) : OneLine rest signLength := by
  cases h with
  | unsigned => exact oneLine_zero _
  | minus digits | plus digits => exact (oneLine_zero digits).cons (by decide)

theorem Signed.spells {rest : List Char} {signLength : Nat} {negative : Bool}
    (h : Signed rest signLength negative) {kind : Kind}
    (hkind : affixes kind = [("", ""), ("+", "")]) (n : Nat) :
    Spells (rest.take (signLength + n)) kind (if negative then '-' :: (rest.drop signLength).take n
      else (rest.drop signLength).take n) := by
  intro _ _
  rw [hkind]
  cases h with
  | unsigned => exact ⟨("", ""), by decide, by simp⟩
  | minus => exact ⟨("", ""), by decide, by simp [Nat.add_comm 1]⟩
  | plus => exact ⟨("+", ""), by decide, by simp [Nat.add_comm 1]⟩

theorem Warned.emits_number (hw : Warned s t) {signLength : Nat} {negative : Bool}
    (hsigned : Signed s.rest signLength negative)
    (hn : Lexeme s.rest (signLength + (numberLength (s.rest.drop signLength)).2)) :
    Emits s (t.number signLength negative) := by
  obtain ⟨hinline, haffixes⟩ := affixes_numberLength (s.rest.drop signLength)
  have hspelt := hsigned.spells haffixes (numberLength (s.rest.drop signLength)).2
  rcases hnumber : numberLength (s.rest.drop signLength) with ⟨kind, n⟩
  rw [hnumber] at hinline hspelt hn
  simp only [State.number, hw.context.1, hnumber]
  exact hw.emits_value hn hinline hspelt rfl

/-- An assignment operator. -/
theorem emits_assignment {spelling : String} (hsees : s.sees spelling = true)
    (hline : '\n' ∉ spelling.toList) (hequals : spelling.toList.getLast? = some '=') :
    Emits s (s.assignment spelling.length) := by
  obtain ⟨operator, hoperator⟩ := List.getLast?_eq_some_iff.mp hequals
  obtain ⟨rest, hrest⟩ := List.isPrefixOf_iff_prefix.mp hsees
  have hlength : spelling.length = operator.length + 1 := by
    rw [← String.length_toList, hoperator, List.length_append, List.length_singleton]
  have hspelt : Spells (s.rest.take spelling.length) .tOP_ASGN
      (s.rest.take (spelling.length - 1)) := by
    rw [← hrest, hoperator, hlength, Nat.add_sub_cancel, List.append_assoc,
      List.take_length_add_append, List.take_left]
    exact fun _ _ => ⟨("", "="), List.mem_singleton.mpr rfl, rfl⟩
  exact Warned.silent.emits_value (.of_sees hsees (by omega) hline) rfl hspelt rfl

variable (hone : s.rest ≠ [])
include hone

theorem emits_slash : Emits s s.slash := by
  have hn := lexeme_one hone
  simp only [State.slash]
  split
  · split
    · exact (Warned.warning rfl _ hn.le).emits_openLiteral hn .regexp (by decide) true
    · exact Warned.silent.emits_openLiteral hn .regexp (by decide) true
  · split
    next hsees => exact emits_assignment hsees (by decide) (by decide)
    next => exact emits hn .tDIVIDE rfl rfl

theorem emits_plusOrMinus {minus : Bool} (hsigned : Signed s.rest 1 minus) :
    Emits s (s.plusOrMinus minus) := by
  have hn := lexeme_one hone
  have hnumber : Lexeme s.rest (1 + (numberLength (s.rest.drop 1)).2) := by
    have hlength := numberLength_le (s.rest.drop 1)
    rw [List.length_drop] at hlength
    have hle := hn.le
    exact Offers.lexeme ⟨by omega, by omega⟩ (hsigned.line.add (numberLength_line _))
  simp only [State.plusOrMinus]
  split
  · -- a sign before a value
    have hwarned : ∀ spelling, Warned s
        (if s.marksArgument 1 = true then s.report (.ambiguousArgument spelling) 1 else s) := by
      intro spelling
      split
      · exact .warning rfl 1 hn.le
      · exact .silent
    split
    · exact (hwarned _).emits hn .tUMINUS_NUM rfl rfl
    · exact (hwarned _).emits_number hsigned hnumber
  · -- an operator between values
    split
    · exact emits hn .tUMINUS rfl rfl
    · exact emits hn .tUPLUS rfl rfl
    · exact emits hn .tMINUS rfl rfl
    · exact emits hn .tPLUS rfl rfl

omit hone in
theorem emits_lambdaArrow (hsees : s.sees "->" = true) : Emits s s.lambdaArrow :=
  emits (.of_sees hsees (by decide) (by decide)) .tLAMBDA rfl rfl

theorem emits_openBracket (bracket : Bracket) (hbracket : bracket ≠ .interpolation) (kind : Kind)
    (hkind : isPlain kind = true) : Emits s (s.openBracket bracket kind) :=
  .mk .silent (lexeme_one hone) rfl rfl
    (.openBracket (isInline_of_isPlain hkind) bracket hbracket rfl rfl) (spells_of_isPlain hkind _)

theorem emits_closeBracket {kind : Kind} (hkind : isPlain kind = true) :
    Emits s (s.closeBracket kind) :=
  .mk .silent (lexeme_one hone) rfl rfl (.closeBracket (isInline_of_isPlain hkind) rfl rfl)
    (spells_of_isPlain hkind _)

omit hone in
theorem isPlain_bracketKind {beginning close argument spacedOut : Kind}
    (hbeginning : isPlain beginning = true) (hclose : isPlain close = true)
    (hargument : isPlain argument = true) (hspaced : isPlain spacedOut = true) :
    isPlain (s.bracketKind beginning close argument spacedOut) = true := by
  unfold State.bracketKind
  split
  · exact hbeginning
  split
  · exact hclose
  split
  · exact hargument
  · exact hspaced

theorem emits_openBrace : Emits s s.openBrace := by
  unfold State.openBrace
  split
  · have hkind : isPlain .tLAMBEG = true := rfl
    exact .mk .silent (lexeme_one hone) rfl rfl
      (.openBracket (isInline_of_isPlain hkind) .brace nofun rfl rfl) (spells_of_isPlain hkind _)
  · split
    · exact emits_openBracket hone .brace nofun .tLBRACE rfl
    · exact emits_openBracket hone .brace nofun .tLCURLY rfl

theorem emits_closeBrace : Emits s s.closeBrace := by
  unfold State.closeBrace
  split
  next hbracket =>
    exact .mk .silent (lexeme_one hone) rfl rfl (.resume (beq_iff_eq.mp hbracket) rfl rfl)
      (spells_of_isBare rfl _)
  next => exact emits_closeBracket hone rfl

theorem emits_bar : Emits s s.bar := emits (lexeme_one hone) .tPIPE rfl rfl

theorem emits_points : Emits s s.points := by
  unfold State.points
  split
  next hsees =>
    refine emits (.of_sees hsees (by decide) (by decide)) _ ?_ rfl
    split <;> rfl
  next =>
    split
    next hsees =>
      refine emits (.of_sees hsees (by decide) (by decide)) _ ?_ rfl
      split <;> rfl
    next => exact emits (lexeme_one hone) .tDOT rfl rfl

end Operators

/-! ## §5. Names. -/

section Context

variable (s : State)

/-- What is expected after a name is no record. -/
theorem frame_endName : s.endName.frame = s.frame := by
  unfold State.endName
  split <;> rfl

theorem frame_endWord (before : State) : (State.endWord before s).frame = s.frame := by
  unfold State.endWord
  split
  · exact frame_endName s
  · rfl

theorem frame_closeDefinition : s.closeDefinition.frame = s.frame := by
  unfold State.closeDefinition
  split <;> rfl

theorem frame_afterKeyword (kind : Kind) : (s.afterKeyword kind).frame = s.frame := by
  unfold State.afterKeyword
  split <;> rfl

end Context

section Names

variable {s : State}

theorem emits_operatorName? : ∀ named ∈ s.operatorName?, Emits s named := by
  intro named hnamed
  obtain ⟨⟨spelling, kind⟩, hfound, rfl⟩ := Option.map_eq_some_iff.mp hnamed
  have hkind : ∀ entry ∈ methodOperators, isPlain entry.2 = true := by decide
  exact (emits (lexeme_of_findSpelling hfound (by decide) (by decide)) kind
    (hkind _ (List.mem_of_find?_eq_some hfound)) rfl).settle (frame_endName _)

theorem isPlain_nameKind (word : Word) : isPlain (nameKind word) = true := by
  unfold nameKind
  split
  · rfl
  split
  · rfl
  · rfl

theorem isPlain_keyword {word : String} {kind : Kind} (h : keyword? word = some kind) :
    isPlain kind = true ∧ isPlain (modifierKind kind) = true := by
  have hall : ∀ entry ∈ keywords,
      isPlain entry.2 = true ∧ isPlain (modifierKind entry.2) = true := by decide
  obtain ⟨before, after, heq, -⟩ := List.lookup_eq_some_iff.mp h
  exact hall (word, kind) (heq ▸ List.mem_append_right _ List.mem_cons_self)

/-- The context that a keyword ends is none of the records. -/
theorem emits_keyword {n : Nat} (hn : Lexeme s.rest n) {kind : Kind} (hkind : isPlain kind = true)
    (hmodifier : isPlain (modifierKind kind) = true) : Emits s (s.keyword kind n) := by
  have hspelt : Emits s ((s.keywordKind kind).2.emitSpelt (s.keywordKind kind).1 n) := by
    unfold State.keywordKind
    split
    · split
      · exact emits hn .kDO_COND rfl rfl
      split
      · exact emits hn .kDO_LAMBDA rfl rfl
      · exact emits hn .kDO rfl rfl
    · split
      · exact emits hn kind hkind rfl
      · exact emits hn (modifierKind kind) hmodifier rfl
  exact hspelt.settle (frame_afterKeyword _ _)

theorem emits_definedWord {word : Word} (hword : Lexeme s.rest word.chars.length)
    (hline : OneLine s.rest word.chars.length) : Emits s (s.definedWord word) := by
  simp only [State.definedWord]
  split
  · refine emits hword _ ?_ rfl
    split
    · rfl
    · exact isPlain_nameKind word
  split
  next hequals =>
    simp only [Bool.and_eq_true, beq_iff_eq] at hequals
    exact (emits (hword.snoc hline hequals.1.2) _ (isPlain_nameKind word) rfl).settle
      (frame_endName _)
  next => exact (emits hword _ (isPlain_nameKind word) rfl).settle (frame_endName _)

theorem emits_plainName {word : Word} (hword : Lexeme s.rest word.chars.length) :
    Emits s (s.plainName word) := by
  simp only [State.plainName]
  split
  · exact emits hword _ (isPlain_nameKind word) rfl
  · exact emits hword _ (isPlain_nameKind word) rfl

/-- A label: the colon is no part of the value. -/
theorem emits_label {name : List Char} (hname : Lexeme s.rest name.length)
    (hline : OneLine s.rest name.length) (hbegins : name <+: s.rest)
    (hcolon : (s.rest.drop name.length).head? = some ':') : Emits s (s.label name) := by
  obtain ⟨rest, hrest⟩ := hbegins
  have hspelt : Spells (s.rest.take (name.length + 1)) .tLABEL name := by
    rw [← hrest, List.drop_left, List.head?_eq_some_iff] at hcolon
    obtain ⟨more, rfl⟩ := hcolon
    rw [← hrest, List.take_length_add_append]
    exact fun _ _ => ⟨("", ":"), List.mem_singleton.mpr rfl, rfl⟩
  exact Warned.silent.emits_value (hname.snoc hline hcolon) rfl hspelt rfl

theorem emits_word {c : Char} {rest : List Char} (hc : s.rest = c :: rest)
    (hstart : isNameStart c = true) : Emits s s.word := by
  have hword : Lexeme s.rest (readWord s.rest).chars.length := by
    rw [hc]
    exact lexeme_word hstart rest
  have hline : OneLine s.rest (readWord s.rest).chars.length :=
    oneLine_of_isPrefix (readWord_isPrefix _) (readWord_line _)
  simp only [State.word]
  split
  · exact emits_definedWord hword hline
  split
  · exact emits hword _ (isPlain_nameKind _) rfl
  split
  next hlabel =>
    simp only [Bool.and_eq_true, beq_iff_eq] at hlabel
    exact emits_label hword hline (readWord_isPrefix _) hlabel.1.1.2
  split
  next kind hkind =>
    obtain ⟨hcode, hmodifier⟩ := isPlain_keyword hkind
    exact emits_keyword hword hcode hmodifier
  next => exact emits_plainName hword

theorem emits_symbol {rest : List Char} (hc : s.rest = ':' :: rest) : Emits s s.symbol := by
  have hlength := symbolLength_le rest
  have hn : Lexeme s.rest (State.symbolLength (s.rest.drop 1) + 1) := by
    rw [hc, List.drop_one, List.tail_cons]
    refine ⟨⟨Nat.succ_pos _, Nat.succ_le_succ hlength⟩, ?_⟩
    exact ((symbolLength_line rest).cons (by decide)).mono (by omega)
  have hspelt : Spells (s.rest.take (State.symbolLength (s.rest.drop 1) + 1)) .tSYMBOL
      ((s.rest.drop 1).take (State.symbolLength (s.rest.drop 1))) := by
    refine fun _ _ => ⟨(":", ""), List.mem_singleton.mpr rfl, ?_⟩
    simp [hc]
  exact (Warned.silent.emits_value hn rfl hspelt rfl).settle (frame_endWord _ _)

theorem emits_colons {rest : List Char} (hc : s.rest = ':' :: rest) : Emits s s.colons := by
  have hone : Lexeme s.rest 1 := lexeme_one (hc ▸ List.cons_ne_nil _ _)
  unfold State.colons
  split
  next hsees =>
    -- two colons
    have htwo : Lexeme s.rest "::".length := .of_sees hsees (by decide) (by decide)
    split
    · exact emits htwo .tCOLON3 rfl rfl
    · exact emits htwo .tCOLON2 rfl rfl
  split
  · exact emits hone .tCOLON rfl rfl
  split
  next c more hmore =>
    -- a colon that begins a symbol
    have htwo : Lexeme s.rest 2 :=
      hone.snoc (hc ▸ (oneLine_zero rest).cons (by decide)) (by rw [hmore, List.head?_cons])
    split
    next h =>
      exact Warned.silent.emits_openLiteral htwo .symbol (by rw [beq_iff_eq.mp h]; decide) true
    split
    next h =>
      exact Warned.silent.emits_openLiteral htwo .symbol (by rw [beq_iff_eq.mp h]; decide) false
    split
    · exact emits_symbol hc
    · exact emits hone .tCOLON rfl rfl
  next => exact emits hone .tCOLON rfl rfl

theorem turn_questionMark {rest : List Char} (hc : s.rest = '?' :: rest) :
    Turn s s.questionMark := by
  simp only [State.questionMark]
  split
  next piece hpiece =>
    have hread : State.characterPiece? rest = some piece := by
      split at hpiece
      · rwa [hc] at hpiece
      · cases hpiece
    have hn : Lexeme s.rest (1 + piece.source.length) := by
      have hsource := characterPiece?_isPrefix hread
      have hle := hsource.length_le
      rw [hc]
      refine ⟨⟨by omega, by rw [List.length_cons]; omega⟩, ?_⟩
      rw [Nat.add_sub_cancel_left]
      -- the mark, and the source but for its last character
      have hinit : piece.source.dropLast <+: rest := (List.dropLast_prefix _).trans hsource
      have hline := (oneLine_of_isPrefix hinit (characterPiece?_line hread)).cons
        (show '?' ≠ '\n' by decide)
      rw [List.length_dropLast] at hline
      exact hline.mono (by omega)
    split
    next fault hfault =>
      obtain ⟨after, hafter⟩ := characterPiece?_isPrefix hread
      exact .character hn _ _ (characterPiece?_level hread hfault) rfl
        ⟨piece.source, after, by rw [hc, hafter], rfl⟩
    next =>
      exact .token (Warned.silent.emits_value hn rfl (spells_escaped (.inr rfl) _ _) rfl)
  next => exact .token (emits (lexeme_one (hc ▸ List.cons_ne_nil _ _)) .tEH rfl rfl)

theorem turn_atVariable {rest : List Char} (hc : s.rest = '@' :: rest) : Turn s s.atVariable := by
  -- one mark or two before the name
  have hvariable : ∀ kind : Kind, isPlain kind = true → ∀ {sigil : Nat} {fault : Fault},
      fault.level = .error → Lexeme s.rest sigil → OneLine s.rest sigil → Turn s
        (if nextIs isNameStart (s.rest.drop sigil) then
          State.endWord s (s.emitSpelt kind
            (sigil + ((s.rest.drop sigil).takeWhile isNameChar).length))
        else s.reject fault sigil) := by
    intro kind hkind sigil fault hfault hsigil hline
    split
    · have hpos := hsigil.pos
      have hname := add_takeWhile_drop_le isNameChar hsigil.le
      have hn := Offers.lexeme ⟨by omega, hname⟩ (hline.add (oneLine_takeWhile (by decide) _))
      exact .token ((emits hn kind hkind rfl).settle (frame_endWord _ _))
    · exact .reject hsigil hfault fun _ => hline
  unfold State.atVariable
  cases hsees : s.sees "@@" with
  | true =>
      exact hvariable .tCVAR rfl rfl (.of_sees hsees (by decide) (by decide))
        (oneLine_of_isPrefixOf (by decide) hsees)
  | false =>
      exact hvariable .tIVAR rfl rfl (lexeme_one (hc ▸ List.cons_ne_nil _ _))
        (hc ▸ (oneLine_zero rest).cons (by decide))

/-- The numbered variables are the ones whose mark is no part of the value. -/
theorem isPlain_globalLength? {cs : List Char} {kind : Kind} {n : Nat}
    (h : State.globalLength? cs = some (kind, n)) : kind = .tNTH_REF ∨ isPlain kind = true := by
  unfold State.globalLength? at h
  split at h
  · cases h
  · split at h
    · cases h
      exact .inr rfl
    split at h
    · cases h
      exact .inl rfl
    split at h
    · cases h
      exact .inr rfl
    split at h
    · cases h
      exact .inr rfl
    split at h
    · cases h
      exact .inr rfl
    · cases h

theorem turn_globalVariable {rest : List Char} (hc : s.rest = '$' :: rest) :
    Turn s s.globalVariable := by
  unfold State.globalVariable
  split
  next kind n hn =>
    rw [hc, List.drop_one, List.tail_cons] at hn
    have hlexeme : Lexeme s.rest (n + 1) := by
      rw [hc]
      refine ⟨⟨Nat.succ_pos _, Nat.succ_le_succ (globalLength?_le hn)⟩, ?_⟩
      exact ((globalLength?_line hn).cons (by decide)).mono (by omega)
    refine .token (Emits.settle ?_ (frame_endWord _ _))
    rcases isPlain_globalLength? hn with rfl | hplain
    · have hspelt : Spells (s.rest.take (n + 1)) .tNTH_REF ((s.rest.drop 1).take n) := by
        refine fun _ _ => ⟨("$", ""), List.mem_singleton.mpr rfl, ?_⟩
        simp [hc]
      exact Warned.silent.emits_value hlexeme rfl hspelt rfl
    · have hkind : kind ≠ .tNTH_REF := fun h => by
        rw [h] at hplain
        cases hplain
      rw [if_neg hkind]
      exact emits hlexeme kind hplain rfl
  next => exact .reject (lexeme_one (hc ▸ List.cons_ne_nil _ _)) rfl oneLine_one

end Names

/-! ## §6. Pieces of code. -/

section Code

variable {s : State}

theorem turn_ite {p : Prop} [Decidable p] {a b : State} (ha : p → Turn s a) (hb : ¬ p → Turn s b) :
    Turn s (if p then a else b) := by
  split
  next hp => exact ha hp
  next hp => exact hb hp

theorem turn_punctuation {c : Char} {rest : List Char} (hc : s.rest = c :: rest) :
    Turn s (s.punctuation c) := by
  have hne : s.rest ≠ [] := hc ▸ List.cons_ne_nil _ _
  have hone := lexeme_one hne
  have hhead : s.rest.head? = some c := by rw [hc, List.head?_cons]
  unfold State.punctuation
  split
  next spelling kind hfound =>
    have hkinds : ∀ entry ∈ plainPunctuation, ∀ kind ∈ entry.2, isPlain kind = true := by decide
    exact .token (emits (lexeme_of_findSpelling hfound (by decide) (by decide)) kind
      (hkinds _ (List.mem_of_find?_eq_some hfound) kind rfl) rfl)
  next spelling hfound =>
    have hequals : ∀ entry ∈ plainPunctuation, entry.2 = none →
        '\n' ∉ entry.1.toList ∧ entry.1.toList.getLast? = some '=' := by decide
    obtain ⟨hline, hlast⟩ := hequals _ (List.mem_of_find?_eq_some hfound) rfl
    have hsees := List.find?_some hfound
    exact .token (emits_assignment hsees hline hlast)
  next =>
    -- no table lists it, so what it is depends on the characters around it
    refine turn_ite (fun _ => .token ?_) fun _ => ?_
    · exact emits hone .tEQL rfl (by unfold State.closeDefinition; split <;> rfl)
    refine turn_ite (fun h => .token ?_) fun _ => ?_
    · exact emits_plusOrMinus hne (hc ▸ beq_iff_eq.mp h ▸ .plus rest)
    refine turn_ite (fun h => turn_ite (fun hsees => .token (emits_lambdaArrow hsees))
      fun _ => .token ?_) fun _ => ?_
    · exact emits_plusOrMinus hne (hc ▸ beq_iff_eq.mp h ▸ .minus rest)
    refine turn_ite (fun _ => turn_ite (fun hsees => .token ?_) fun _ => .token ?_) fun _ => ?_
    · exact emits_argumentMark (.of_sees hsees (by decide) (by decide)) rfl rfl
    · exact emits_argumentMark hone rfl rfl
    refine turn_ite (fun _ => .token (emits_slash hne)) fun _ => ?_
    refine turn_ite (fun _ => turn_ite (fun hsees => .token ?_) fun _ => .token ?_) fun _ => ?_
    · exact emits (.of_sees hsees (by decide) (by decide)) .tANDDOT rfl rfl
    · exact emits_argumentMark hone rfl rfl
    refine turn_ite (fun _ => .token (emits_bar hne)) fun _ => ?_
    refine turn_ite (fun _ => .token (emits_openBracket hne .paren nofun _
      (isPlain_bracketKind rfl rfl rfl rfl))) fun _ => ?_
    refine turn_ite (fun _ => .token ((emits_closeBracket hne rfl).settle
      (frame_closeDefinition _))) fun _ => ?_
    refine turn_ite (fun _ => .token (emits_openBracket hne .square nofun _
      (isPlain_bracketKind rfl rfl rfl rfl))) fun _ => ?_
    refine turn_ite (fun _ => .token (emits_closeBracket hne rfl)) fun _ => ?_
    refine turn_ite (fun _ => .token (emits_openBrace hne)) fun _ => ?_
    refine turn_ite (fun _ => .token (emits_closeBrace hne)) fun _ => ?_
    refine turn_ite (fun _ => .token (emits_points hne)) fun _ => ?_
    refine turn_ite (fun h => .token (emits_colons (beq_iff_eq.mp h ▸ hc))) fun _ => ?_
    refine turn_ite (fun h => turn_questionMark (beq_iff_eq.mp h ▸ hc)) fun _ => ?_
    refine turn_ite (fun _ => .token (emits hone .tCOMMA rfl rfl)) fun _ => ?_
    refine turn_ite (fun _ => .token (emits hone .tSEMI rfl rfl)) fun _ => ?_
    exact .reject hone rfl oneLine_one

theorem turn_newline {rest : List Char} (hc : s.rest = '\n' :: rest) : Turn s s.newline := by
  have hone : Lexeme s.rest 1 := lexeme_one (hc ▸ List.cons_ne_nil _ _)
  unfold State.newline
  split
  · exact .token (.mk .silent hone rfl rfl (.newline (by rw [hc, List.head?_cons]) rfl rfl)
      (spells_of_isBare rfl _))
  · refine .blank hone ?_
    rw [hc]
    exact .space rfl

/-- A piece of code that is not a blank. -/
theorem turn_token {c : Char} {rest : List Char} (hc : s.rest = c :: rest) : Turn s (s.token c) := by
  have hone : Lexeme s.rest 1 := lexeme_one (hc ▸ List.cons_ne_nil _ _)
  unfold State.token
  refine turn_ite (fun h => .lineComment ?_) fun _ => ?_
  · rw [hc, List.head?_cons, beq_iff_eq.mp h]
  refine turn_ite (fun h => turn_newline (beq_iff_eq.mp h ▸ hc)) fun _ => ?_
  refine turn_ite (fun h => .token (Warned.silent.emits_number (.unsigned _) ?_)) fun _ => ?_
  · rw [List.drop_zero, Nat.zero_add]
    refine Offers.lexeme ⟨?_, numberLength_le _⟩ (numberLength_line _)
    rw [hc]
    exact numberLength_pos h
  refine turn_ite (fun h => .token (Warned.silent.emits_openLiteral hone .string ?_ true))
    fun _ => ?_
  · rw [beq_iff_eq.mp h]
    decide
  refine turn_ite (fun h => .token (Warned.silent.emits_openLiteral hone .string ?_ false))
    fun _ => ?_
  · rw [beq_iff_eq.mp h]
    decide
  refine turn_ite (fun h => .token (Warned.silent.emits_openLiteral hone .command ?_ true))
    fun _ => ?_
  · rw [Bool.and_eq_true, beq_iff_eq] at h
    rw [h.1]
    decide
  refine turn_ite (fun h => turn_atVariable (beq_iff_eq.mp h ▸ hc)) fun _ => ?_
  refine turn_ite (fun h => turn_globalVariable (beq_iff_eq.mp h ▸ hc)) fun _ => ?_
  refine turn_ite (fun h => .token (emits_word hc h)) fun _ => ?_
  split
  next named hnamed =>
    split at hnamed
    · exact .token (emits_operatorName? named hnamed)
    · cases hnamed
  next => exact turn_punctuation hc

theorem lexeme_of_blankLength? {cs : List Char} {n : Nat} (h : State.blankLength? cs = some n) :
    Lexeme cs n := by
  obtain ⟨hpos, hle, -⟩ := separator_of_blankLength? h
  refine ⟨⟨hpos, hle⟩, ?_⟩
  unfold State.blankLength? at h
  split at h
  · cases h
    exact (oneLine_zero _).cons (by decide)
  · cases h
    exact ((oneLine_zero _).cons (by decide)).cons (by decide)
  · split at h
    · cases h
      exact oneLine_zero _
    · cases h
  · cases h

/-- **Any step in code is one of the moves.** -/
theorem turn_stepCode {s' : State} (hs : s.stepCode = .next s') : Turn s s' := by
  unfold State.stepCode at hs
  split at hs
  · cases hs
  split at hs
  next hat =>
    rw [Bool.and_eq_true] at hat
    split at hs
    next n hn =>
      cases hs
      exact .document hat.1 hat.2 hn
    next => cases hs
  split at hs
  next => cases hs
  next c rest hrest =>
    split at hs
    next n hn =>
      cases hs
      exact .blank (lexeme_of_blankLength? hn) (separator_of_blankLength? hn).2.2
    next =>
      cases hs
      exact turn_token hrest

/-- A comment has its number sign. -/
theorem offers_lineComment (hhead : s.rest.head? = some '#') :
    Offers s.rest (s.rest.takeWhile (· != '\n')).length := by
  obtain ⟨rest, hrest⟩ := List.head?_eq_some_iff.mp hhead
  refine ⟨?_, length_takeWhile_le _ _⟩
  rw [hrest]
  exact length_takeWhile_pos (by decide)

end Code

/-! ## §7. Properties of the records. -/

/-- From states in `P` the moves of the scan lead to states in `Q`; after a token the records are
in `T`, whatever becomes of the context. -/
structure Moves (P : State → Prop) (T : Records → Prop) (Q : State → Prop) : Prop where
  /-- A warning about what comes next. -/
  report : ∀ {s : State}, P s → ∀ {fault : Fault}, fault.level = .warning →
    ∀ n : Nat, P (s.report fault n)
  /-- A token. -/
  emit : ∀ {s : State}, P s → ∀ {n : Nat}, Offers s.rest n →
    ∀ (kind : Kind) (value : List Char), T (s.emit kind n value).records
  settle : ∀ {s : State}, T s.records → Q s
  /-- A character after its mark, in which something is wrong. -/
  character : ∀ {s : State}, P s → ∀ {n : Nat}, Offers s.rest n →
    ∀ (d : Diagnostic) (value : List Char), d.level = .error → d.span.start = s.pos + 1 →
      Q { { s with diagnostics := d :: s.diagnostics }.emit .tCHARACTER n value with
        expect := .operator }
  comment : ∀ {s : State}, P s → ∀ {n : Nat}, Offers s.rest n →
    ∀ content : List Char, Q (s.comment n content)
  blank : ∀ {s : State}, P s → ∀ {n : Nat}, Offers s.rest n →
    Separator (s.rest.take n) → Q (s.blank n)
  reject : ∀ {s : State}, P s → ∀ {n : Nat}, Offers s.rest n →
    ∀ {fault : Fault}, fault.level = .error → Q (s.reject fault n)

namespace Moves

variable {P : State → Prop} {T : Records → Prop} {Q : State → Prop} {s s' : State}

theorem emits (m : Moves P T Q) (h : P s) (hs : Emits s s') : Q s' := by
  obtain ⟨hw, hn, hrecords, -, -⟩ := hs
  refine m.settle ?_
  rw [hrecords]
  cases hw with
  | silent => exact m.emit h hn.toOffers _ _
  | warning hfault n => exact m.emit (m.report h hfault n) hn.toOffers _ _

/-- **What the moves do to a property a step in code does.** -/
theorem stepCode (m : Moves P T Q) (h : P s) (hs : s.stepCode = .next s') : Q s' := by
  cases turn_stepCode hs with
  | token hemits => exact m.emits h hemits
  | character hn d value hlevel hstart => exact m.character h hn.toOffers d value hlevel hstart
  | lineComment hhead => exact m.comment h (offers_lineComment hhead) _
  | document _ _ hn => exact m.comment h ⟨documentLength?_pos hn, documentLength?_le hn⟩ _
  | blank hn hblank => exact m.blank h hn.toOffers hblank
  | reject hn hlevel => exact m.reject h hn.toOffers hlevel

end Moves

end RubySyntax.Token.Lexer
