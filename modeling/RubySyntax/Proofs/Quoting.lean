/-
  RubySyntax.Proofs.Quoting
  ─────────────────────────
  **A QUOTED TEXT IS READ AS THAT TEXT.**

  Between quotes a few characters have to be protected by a backslash: between single quotes the
  backslash and the quote, between double quotes also the mark `#` of an interpolation.  What is
  written so is read back as it was, whatever it is: nothing in it can end the literal, open an
  interpolation, begin a comment or end the program.

      protect s  →  one piece for each character  →  (str s)

  Main results:
    • `readContent_protected` — the pieces of a protected text stand for its characters,
    • `lex_quoted` — a protected text between quotes is the tokens of one string,
    • `readProgram_quoted` — and these are read as one string,
    • `Program.read_quoted` — a quoted text is read as that text, in every version.
-/
import RubySyntax.Proofs.Grammar.Giving
import RubySyntax.Proofs.Token.Reach
import RubySyntax.Proofs.Program
import RubySyntax.Proofs.Tree.Look

namespace RubySyntax.Token

open RubySyntax.Text Lexer

/-! ## §1. Writing. -/

/-- A text with a backslash before each character of some. -/
def protect (marks text : List Char) : List Char :=
  text.flatMap fun c => if marks.contains c then ['\\', c] else [c]

/-- A text between single quotes. -/
def singleQuoted (text : String) : String :=
  String.ofList ('\x27' :: protect ['\\', '\x27'] text.toList ++ ['\x27'])

/-- A text between double quotes. -/
def doubleQuoted (text : String) : String :=
  String.ofList ('\x22' :: protect ['\\', '\x22', '#'] text.toList ++ ['\x22'])

/-! ## §2. Contents. -/

/-- The piece that a character is read as behind its backslash, or alone. -/
def protectedPiece (marks : List Char) (c : Char) : Piece :=
  ⟨if marks.contains c then ['\\', c] else [c], [c], none⟩

/-- The characters that have to be protected in a literal, and for which a backslash does. -/
structure Protects (marks : List Char) (l : Literal) : Prop where
  close : l.close ∈ marks
  close_ne : '\\' ≠ l.close
  backslash : '\\' ∈ marks
  /-- Where interpolations are read, their mark is protected. -/
  mark : l.interpolates = true → '#' ∈ marks
  escapes : ∀ c ∈ marks, ∀ rest, readEscape l.escapes (c :: rest) = ⟨['\\', c], [c], none⟩

theorem protects_single (opened : Nat) :
    Protects ['\\', '\x27'] ⟨.string, '\x27', false, opened⟩ where
  close := List.mem_cons_of_mem _ List.mem_cons_self
  close_ne := nofun
  backslash := by decide
  mark h := by cases h
  escapes c hc rest := by
    simp only [List.mem_cons, List.not_mem_nil, or_false] at hc
    rcases hc with rfl | rfl <;> rfl

theorem protects_double (opened : Nat) :
    Protects ['\\', '\x22', '#'] ⟨.string, '\x22', true, opened⟩ where
  close := List.mem_cons_of_mem _ List.mem_cons_self
  close_ne := nofun
  backslash := by decide
  mark _ := by decide
  escapes c hc rest := by
    simp only [List.mem_cons, List.not_mem_nil, or_false] at hc
    rcases hc with rfl | rfl | rfl <;> rfl

/-- **The pieces of a protected text stand for its characters**, and the quote ends it. -/
theorem readContent_protected {marks : List Char} {l : Literal} (h : Protects marks l)
    (text after : List Char) :
    readContent l (protect marks text ++ l.close :: after)
      = (text.map (protectedPiece marks), .close) := by
  induction text with
  | nil =>
      show readContent l (l.close :: after) = ([], .close)
      rw [readContent, if_pos (beq_self_eq_true l.close)]
  | cons c text ih =>
      by_cases hc : c ∈ marks
      · -- the backslash and the character that it protects are one piece
        have hpiece := h.escapes c hc (protect marks text ++ l.close :: after)
        have hprotect : protect marks (c :: text) ++ l.close :: after
            = '\\' :: c :: (protect marks text ++ l.close :: after) := by
          simp [protect, hc]
        have hclose : ('\\' == l.close) = false := beq_eq_false_iff_ne.mpr h.close_ne
        rw [hprotect, readContent]
        simp [hclose, hpiece, ih, protectedPiece, hc]
      · -- what needs no protection neither closes the literal nor begins an escape or an
        -- interpolation
        have hclose : (c == l.close) = false :=
          beq_eq_false_iff_ne.mpr fun heq => hc (heq ▸ h.close)
        have hbackslash : (c == '\\') = false :=
          beq_eq_false_iff_ne.mpr fun heq => hc (heq ▸ h.backslash)
        have hmark : (l.interpolates && c == '#') = false := by
          rw [Bool.and_eq_false_iff, beq_eq_false_iff_ne]
          by_cases hread : l.interpolates = true
          · exact .inr fun heq => hc (heq ▸ h.mark hread)
          · exact .inl (eq_false_of_ne_true hread)
        have hprotect : protect marks (c :: text) ++ l.close :: after
            = c :: (protect marks text ++ l.close :: after) := by
          simp [protect, hc]
        rw [hprotect, readContent]
        simp [hclose, hbackslash, hmark, ih, protectedPiece, hc, Piece.plain]

theorem sourceOf_protected (marks text : List Char) :
    sourceOf (text.map (protectedPiece marks)) = protect marks text := by
  simp only [sourceOf, protect, List.flatMap_map, protectedPiece]

theorem valueOf_protected (marks text : List Char) :
    valueOf (text.map (protectedPiece marks)) = text := by
  simp only [valueOf, List.flatMap_map, protectedPiece, List.flatMap_singleton']

/-- Pieces without faults leave no reports. -/
theorem reportPieces_protected (s : State) (marks text : List Char) (offset : Nat)
    (before : List Diagnostic) :
    s.reportPieces offset (text.map (protectedPiece marks)) before = before := by
  induction text generalizing offset with
  | nil => rfl
  | cons c text ih => exact ih _

/-! ## §3. Tokens. -/

/-- The tokens of one string with a value: its quotes and any contents between them. -/
def IsString (tokens : List Token) (value : String) : Prop :=
  ∃ opening contents closing, tokens = opening :: (contents ++ [closing]) ∧
    opening.kind = .tSTRING_BEG ∧ closing.kind = .tSTRING_END ∧
    (∀ t ∈ contents, t.kind = .tSTRING_CONTENT) ∧ String.join (contents.map (·.value)) = value

theorem protect_eq_nil {marks text : List Char} : protect marks text = [] ↔ text = [] := by
  cases text with
  | nil => exact ⟨fun _ => rfl, fun _ => rfl⟩
  | cons c text =>
      refine ⟨fun h => ?_, nofun⟩
      rw [protect, List.flatMap_cons, List.append_eq_nil_iff] at h
      split at h <;> cases h.1

/-- A protected text is one token, unless it is empty. -/
theorem contentToken_protected (s : State) (marks text : List Char) :
    s.contentToken (text.map (protectedPiece marks)) =
      if text = [] then s else s.emit .tSTRING_CONTENT (protect marks text).length text := by
  rw [State.contentToken, reportPieces_protected, sourceOf_protected, valueOf_protected]
  simp only [List.isEmpty_iff, protect_eq_nil]

/-- What a content adds to a state: perhaps one token, and nothing else that is recorded or open. -/
structure AddsContent (s t : State) (value : List Char) (contents : List Token) : Prop where
  tokens : t.tokens = contents.reverse ++ s.tokens
  kinds : ∀ t ∈ contents, t.kind = .tSTRING_CONTENT
  value : String.join (contents.map (·.value)) = String.ofList value
  comments : t.comments = s.comments
  diagnostics : t.diagnostics = s.diagnostics
  modes : t.modes = s.modes
  brackets : t.brackets = s.brackets
  blocks : t.blocks = s.blocks

theorem addsContent_protected (s : State) (marks text : List Char) :
    ∃ contents, AddsContent s (s.contentToken (text.map (protectedPiece marks))) text contents := by
  rw [contentToken_protected]
  split
  next htext =>
    subst htext
    exact ⟨[], rfl, nofun, rfl, rfl, rfl, rfl, rfl, rfl⟩
  next =>
    refine ⟨[_], rfl, ?_, ?_, rfl, rfl, rfl, rfl, rfl⟩
    · simp
    · simp

/-- The state behind the opening quote of a string at the beginning of a text. -/
def afterQuote (quote : Char) (interpolates : Bool) (rest : List Char) : State :=
  (State.start (quote :: rest)).openLiteral .string quote interpolates .tSTRING_BEG 1

/-- A quote opens a string. -/
theorem step_quote {quote : Char} {interpolates : Bool}
    (hquote : quote = '\x22' ∧ interpolates = true ∨ quote = '\x27' ∧ interpolates = false)
    (rest : List Char) :
    (State.start (quote :: rest)).step = .next (afterQuote quote interpolates rest) := by
  rcases hquote with ⟨rfl, rfl⟩ | ⟨rfl, rfl⟩
  · rfl
  · rfl

/-- A protected text and the closing quote are read in one step. -/
theorem step_protected {marks : List Char} {l : Literal} (h : Protects marks l) {s : State}
    {modes : List Mode} (hmodes : s.modes = .literal l :: modes) {text after : List Char}
    (hrest : s.rest = protect marks text ++ l.close :: after) :
    s.step = .next ((s.contentToken (text.map (protectedPiece marks))).closeLiteral l) := by
  have hstep : s.step = s.stepLiteral l := by
    unfold State.step
    rw [hmodes]
  rw [hstep, State.stepLiteral, hrest, readContent_protected h]

/-- The scan of a protected text between quotes ends behind the tokens of one string. -/
theorem ends_quoted {marks : List Char} {quote : Char} {interpolates : Bool}
    (h : Protects marks ⟨.string, quote, interpolates, 0⟩)
    (hquote : quote = '\x22' ∧ interpolates = true ∨ quote = '\x27' ∧ interpolates = false)
    (text : List Char) :
    ∃ s, Ends 3 (State.start (quote :: (protect marks text ++ [quote]))) (.finish s) ∧ s.modes = [] ∧
      s.comments = [] ∧ s.diagnostics = [] ∧ IsString s.tokens.reverse (String.ofList text) := by
  have hopen := step_quote hquote (protect marks text ++ [quote])
  have hread := step_protected h (s := afterQuote quote interpolates (protect marks text ++ [quote]))
    rfl rfl
  -- what the content adds is between the tokens of the quotes
  obtain ⟨contents, hcontents⟩ := addsContent_protected
    (afterQuote quote interpolates (protect marks text ++ [quote])) marks text
  have hleft : ((afterQuote quote interpolates (protect marks text ++ [quote])).contentToken
      (text.map (protectedPiece marks))).rest = [quote] :=
    rest_contentToken (by rw [sourceOf_protected]; rfl)
  generalize (afterQuote quote interpolates (protect marks text ++ [quote])).contentToken
    (text.map (protectedPiece marks)) = t at hread hcontents hleft
  have hdone : (t.closeLiteral ⟨.string, quote, interpolates, 0⟩).rest = [] := by
    show t.rest.drop 1 = []
    rw [hleft]
    rfl
  have hmodes : (t.closeLiteral ⟨.string, quote, interpolates, 0⟩).modes = [] :=
    congrArg List.tail hcontents.modes
  have hflat : t.brackets.length + t.blocks ≤ maxNesting := by
    rw [hcontents.brackets, hcontents.blocks]
    exact Nat.zero_le _
  have hstop := step_of_rest_eq_nil hdone hmodes
  refine ⟨_, .next hopen (Nat.zero_le _) (.next hread hflat ?_), hmodes, hcontents.comments,
    hcontents.diagnostics, ?_⟩
  · exact hstop ▸ .stop fun s' hs' => nomatch hstop.symm.trans hs'
  · obtain ⟨closing, htokens, hclosing⟩ : ∃ closing,
        (t.closeLiteral ⟨.string, quote, interpolates, 0⟩).tokens = closing :: t.tokens ∧
          closing.kind = .tSTRING_END := ⟨_, rfl, rfl⟩
    obtain ⟨opening, hopening, hkind⟩ : ∃ opening,
        (afterQuote quote interpolates (protect marks text ++ [quote])).tokens = [opening] ∧
          opening.kind = .tSTRING_BEG := ⟨_, rfl, rfl⟩
    refine ⟨opening, contents, closing, ?_, hkind, hclosing, hcontents.kinds, hcontents.value⟩
    rw [htokens, hcontents.tokens, hopening]
    simp

/-- **A protected text between quotes is the tokens of one string.** -/
theorem lex_quoted {marks : List Char} {quote : Char} {interpolates : Bool}
    (h : Protects marks ⟨.string, quote, interpolates, 0⟩)
    (hquote : quote = '\x22' ∧ interpolates = true ∨ quote = '\x27' ∧ interpolates = false)
    (text : List Char) : ∃ tokens stop,
      lex (String.ofList (quote :: protect marks text ++ [quote])) = (.ok ⟨tokens, [], stop⟩, []) ∧
        IsString tokens (String.ofList text) := by
  obtain ⟨s, hends, hmodes, hcomments, hdiagnostics, hstring⟩ := ends_quoted h hquote text
  rw [← String.toList_ofList (l := quote :: (protect marks text ++ [quote]))] at hends
  have hlex := lex_of_ends hends hmodes
  rw [hcomments, hdiagnostics] at hlex
  exact ⟨_, s.pos, hlex, hstring⟩

end RubySyntax.Token

namespace RubySyntax.Grammar

open Token

/-! ## §4. Trees. -/

section Quoted

variable {version : Version} {tokens : Array Token}

/-- The parts of a string are its contents, up to its closing quote. -/
theorem gives_contents {contents : List Token} {closing : Token} {i : Nat}
    (h : Remain tokens i (contents ++ [closing])) (hclosing : closing.kind = .tSTRING_END)
    (hcontents : ∀ t ∈ contents, t.kind = .tSTRING_CONTENT) :
    Gives tokens version (.star stringPart) i (contents.map .plain) (i + contents.length) := by
  induction contents generalizing i with
  | nil =>
      have hfirst : tokens[i]?.map (·.kind) = some .tSTRING_END := by
        rw [h.head, Option.map_some, hclosing]
      exact gives_star_nil (fails_of_refusesFirst hfirst rfl)
  | cons t contents ih =>
      have hpart : Gives tokens version stringPart i (.plain t) (i + 1) :=
        gives_orElse_first (gives_map (gives_token h.head
          (List.mem_singleton.mpr (hcontents t List.mem_cons_self))))
      have hmore := ih h.tail fun t ht => hcontents t (List.mem_cons_of_mem _ ht)
      rw [Nat.add_right_comm, Nat.add_assoc] at hmore
      exact gives_star_cons hpart hmore

theorem string_plain (opening closing : Token) (contents : List Token) :
    Node.string opening (contents.map .plain) closing =
      .mk .str [.text (String.join (contents.map (·.value)))] (opening.span.join closing.span) := by
  rw [Node.string, Node.plainText?_plain]

/-- **The tokens of one string are read as one string.** -/
theorem readProgram_quoted (version : Version) {tokens : List Token} {value : String}
    (h : IsString tokens value) :
    ∃ span, readProgram tokens version = .ok (some (.mk .str [.text value] span)) := by
  obtain ⟨opening, contents, closing, htokens, hopening, hclosing, hcontents, rfl⟩ := h
  have hremain : Remain tokens.toArray 0 (opening :: (contents ++ [closing])) := htokens
  have hsize : 0 + 1 + contents.length + 1 = tokens.toArray.size := by
    simp [htokens]
    omega
  have hparts : Gives tokens.toArray version (.star stringPart) (0 + 1) (contents.map .plain)
      (0 + 1 + contents.length) := gives_contents hremain.tail hclosing hcontents
  have hend : Remain tokens.toArray (0 + 1 + contents.length) [closing] := hremain.tail.append
  have hstring : Gives tokens.toArray version stringLiteral 0
      (Node.string opening (contents.map .plain) closing) tokens.toArray.size := by
    rw [← hsize]
    exact gives_orElse_first (gives_seq (gives_seq (gives_map
      (gives_token hremain.head (List.mem_singleton.mpr hopening))) hparts)
      (gives_token hend.head (List.mem_singleton.mpr hclosing)))
  -- the literals that are tried before a string begin with other tokens
  have hfirst : tokens.toArray[0]?.map (·.kind) = some .tSTRING_BEG := by
    rw [hremain.head, Option.map_some, hopening]
  have hliteral : Gives tokens.toArray version (.call Symbol.literal) 0
      (Node.string opening (contents.map .plain) closing) tokens.toArray.size := by
    refine gives_call (gives_orElse_second (fails_of_refusesFirst hfirst rfl)
      (gives_orElse_second (fails_of_refusesFirst hfirst rfl)
        (gives_orElse_second (fails_of_refusesFirst hfirst rfl)
          (gives_orElse_second (fails_of_refusesFirst hfirst rfl) (gives_orElse_first
            (gives_map (gives_seq (gives_map hstring) (gives_star_nil (fails_at_end rfl)))))))))
  rw [string_plain] at hliteral
  obtain ⟨hprimary, hoperand⟩ := gives_of_literal hliteral
  have hinert : Inert tokens.toArray version :=
    .inr ⟨_, _, hprimary, rfl, rfl, fails_at_end rfl⟩
  refine ⟨_, readProgram_of_operation hinert hremain.head ?_
    (gives_operation ?_ stopsAt_size hoperand)⟩
  · rw [hopening]
    decide
  · have hunary : ∀ u ∈ unaryLevels, leavesOut (some .tSTRING_BEG) u.kinds = true := by decide
    exact fun u hu => fails_of_leavesOut hfirst (hunary u hu)

end Quoted

end RubySyntax.Grammar

namespace RubySyntax.Program

open Token Grammar

/-! ## §5. Programs. -/

theorem resolve_str (value : String) (span : Span) :
    (Node.mk .str [.text value] span).resolve = .mk .str [.text value] span := by
  rw [Node.resolve, Node.resolveIn]
  rfl

theorem warnings_str (value : String) (span : Span) :
    (Node.mk .str [.text value] span).warnings = [] := by
  simp [Node.warnings, Node.walk, Node.walkAs, Node.doubter, Node.warningsAt, Node.walkSlots,
    Node.walkSlot, Node.kind]

/-- The tokens of one string are a program that is that string. -/
theorem read_of_isString {version : Version} {text : String} {tokens : List Token} {stop : Nat}
    {value : String} (hlex : lex text = (.ok ⟨tokens, [], stop⟩, []))
    (h : IsString tokens value) :
    ∃ p span, read version text = (.ok p, []) ∧ p.tree = .mk .str [.text value] span := by
  obtain ⟨span, hread⟩ := readProgram_quoted version h
  have htext := read_of_readProgram hlex hread
  rw [Option.getD_some, resolve_str, warnings_str] at htext
  refine ⟨⟨.mk .str [.text value] span, [], tokens⟩, span, ?_, rfl⟩
  rw [htext]
  simp [Diagnostic.sortByStart]

/-- **A quoted text is read as that text**: between single quotes and between double quotes, in
every version and with nothing to report. -/
theorem read_quoted (version : Version) (s : String) :
    (∃ p span, read version (singleQuoted s) = (.ok p, []) ∧ p.tree = .mk .str [.text s] span) ∧
      ∃ p span, read version (doubleQuoted s) = (.ok p, []) ∧ p.tree = .mk .str [.text s] span := by
  obtain ⟨tokens, stop, hlex, htokens⟩ :=
    lex_quoted (protects_single 0) (.inr ⟨rfl, rfl⟩) s.toList
  obtain ⟨tokens', stop', hlex', htokens'⟩ :=
    lex_quoted (protects_double 0) (.inl ⟨rfl, rfl⟩) s.toList
  rw [String.ofList_toList] at htokens htokens'
  exact ⟨read_of_isString hlex htokens, read_of_isString hlex' htokens'⟩

end RubySyntax.Program
