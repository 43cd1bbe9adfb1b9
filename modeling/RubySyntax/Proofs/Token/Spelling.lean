/-
  RubySyntax.Proofs.Token.Spelling
  ────────────────────────────────
  **THE VALUE OF A TOKEN STANDS AT ITS PLACE.**

  What reads the tokens reads their values; what reports about them shows their places.  The two
  are made apart from each other: the value is taken from the text without the marks that the kind
  already tells, and the place is counted in bytes.  That they agree says that the marks are the
  only difference, and which they are.

      :name   $1   name:   op=   +1        marks of a symbol, a numbered variable, a label,
      ‾       ‾        ‾     ‾   ‾         an assignment and a number; no other kind has any

  A move of the scan says how it spells its token, so all that is left to see here is that the
  place of the token is the one of the characters that the move takes.

  Main results:
    • `Spelt.step` — a step spells the tokens that it makes,
    • `Reachable.spelt` — all tokens of a scan are spelt,
    • `lex_spells` — the text at the place of a token is its value between affixes of its kind.
-/
import RubySyntax.Proofs.Token.Position

namespace RubySyntax

/-- What a token covers of a text spells it. -/
def Token.IsSpelt (text : List Char) (t : Token) : Prop :=
  ∃ lexeme, t.span.IsCut text lexeme ∧ Token.Lexer.Spells lexeme t.kind t.value.toList

namespace Token.Lexer

open RubySyntax.Text

/-- All tokens that a scan has recorded are spelt. -/
def Spelt (text : List Char) (s : State) : Prop := ∀ t ∈ s.tokens, t.IsSpelt text

variable {text read : List Char} {s s' : State} {n : Nat}

/-! ## §1. Tokens. -/

/-- The token of the next characters is spelt if they spell it. -/
theorem Spelt.cons (h : Spelt text s) (hs : Positioned text read s) (hn : n ≤ s.rest.length)
    {kind : Kind} {value : String} (hspells : Spells (s.rest.take n) kind value.toList)
    (htokens : s'.tokens = ⟨kind, value, s.spanOfNext n⟩ :: s.tokens) : Spelt text s' := by
  rw [Spelt, htokens]
  exact List.forall_mem_cons.mpr ⟨⟨_, hs.isCut_next hn, hspells⟩, h⟩

theorem Spelt.emit (h : Spelt text s) (hs : Positioned text read s) (hn : n ≤ s.rest.length)
    {kind : Kind} {value : List Char} (hspells : Spells (s.rest.take n) kind value) :
    Spelt text (s.emit kind n value) :=
  h.cons hs hn (String.toList_ofList.symm ▸ hspells) rfl

/-- A token that is spelt as it stands. -/
theorem Spelt.emitSpelt (h : Spelt text s) (hs : Positioned text read s) (hn : n ≤ s.rest.length)
    {kind : Kind} (hkind : isBare kind = true) : Spelt text (s.emitSpelt kind n) :=
  h.emit hs hn (spells_of_isBare hkind _)

/-! ## §2. Steps. -/

/-- **A step in code spells its token.** -/
theorem Spelt.stepCode (h : Spelt text s) (hs : Positioned text read s)
    (hstep : s.stepCode = .next s') : Spelt text s' := by
  cases turn_stepCode hstep with
  | token hemits =>
      obtain ⟨kind, n, value, hn, -, -, htokens, -, -, hspells⟩ := hemits.exists_token
      exact h.cons hs hn.le hspells htokens
  | character hn d value =>
      exact h.emit hs hn.le (spells_escaped (.inr rfl) _ value)
  | lineComment | document | blank | reject => exact h

/-- The content of a literal. -/
theorem Spelt.contentToken (h : Spelt text s) (hs : Positioned text read s) (l : Literal) :
    Spelt text (s.contentToken (readContent l s.rest).1) := by
  have hn := (readContent_isPrefix l s.rest).length_le
  simp only [State.contentToken]
  split
  · exact h
  · exact h.emit hs hn (spells_escaped (.inl rfl) _ _)

/-- The quote that closes a literal, and the options of a regular expression. -/
theorem Spelt.closeLiteral (h : Spelt text s) (hs : Positioned text read s) {quote : Char}
    {more : List Char} (hrest : s.rest = quote :: more) (l : Literal) :
    Spelt text (s.closeLiteral l) := by
  have hone : 1 ≤ s.rest.length := by rw [hrest, List.length_cons]; omega
  have hclosed : Spelt text ({ s with modes := s.modes.tail }.emitThen .tSTRING_END 1 .operator) :=
    h.emitSpelt hs hone rfl
  simp only [State.closeLiteral]
  split
  · -- the options are spelt at the place behind the quote
    exact hclosed.emitSpelt (hs.closeQuote hone) (length_takeWhile_le _ _) rfl
  · exact hclosed

/-- The mark that opens an interpolation. -/
theorem Spelt.openInterpolation (h : Spelt text s) (hs : Positioned text read s)
    {more : List Char} (hrest : s.rest = '#' :: '\x7b' :: more) :
    Spelt text s.openInterpolation :=
  h.emitSpelt hs (by simp [hrest]) (n := 2) rfl

/-- A step in a literal spells its tokens. -/
theorem Spelt.stepLiteral (h : Spelt text s) (hs : Positioned text read s) {l : Literal}
    (hstep : s.stepLiteral l = .next s') : Spelt text s' := by
  have hcontent := h.contentToken hs l
  obtain ⟨read', hpositioned⟩ := hs.contentToken l
  -- what ends the content stands where the content has been read
  cases concludes_of_stepLiteral hstep with
  | close hrest => exact hcontent.closeLiteral hpositioned hrest l
  | interpolation hrest => exact hcontent.openInterpolation hpositioned hrest

/-- **A step spells the tokens that it makes.** -/
theorem Spelt.step (h : Spelt text s) (hs : Positioned text read s) (hstep : s.step = .next s') :
    Spelt text s' := by
  unfold State.step at hstep
  split at hstep
  next => exact h.stepLiteral hs hstep
  next => exact h.stepCode hs hstep

/-! ## §3. The whole text. -/

/-- **All tokens of a scan are spelt.** -/
theorem Reachable.spelt (h : Reachable text s) : Spelt text s := by
  induction h with
  | start => exact nofun
  | step hreachable hs ih =>
      obtain ⟨read, hread⟩ := hreachable.positioned
      exact ih.step hread hs

end Token.Lexer

namespace Token

open Lexer

/-- **The text at the place of a token is its value between affixes of its kind**, but for the
content of a literal and for a character. -/
theorem lex_spells {text : String} {lexed : Lexed} (h : (lex text).1 = .ok lexed) :
    ∀ t ∈ lexed.tokens, t.kind ≠ .tSTRING_CONTENT → t.kind ≠ .tCHARACTER →
      ∃ affix ∈ affixes t.kind, Text.slice? text.toList t.span.start t.span.stop =
        some (affix.1.toList ++ t.value.toList ++ affix.2.toList) := by
  obtain ⟨s, hs, -, -, rfl⟩ := reachable_of_lex h
  intro t ht hcontent hcharacter
  obtain ⟨lexeme, hcut, hspells⟩ := hs.spelt t (List.mem_reverse.mp ht)
  obtain ⟨affix, haffix, hlexeme⟩ := hspells hcontent hcharacter
  exact ⟨affix, haffix, hlexeme ▸ hcut.slice?_eq⟩

/-- A value for each way in which marks are left out, and a name of two bytes. -/
theorem lex_spells_marks : ∃ lexed, (lex "é x: :y, +1; $1 ||= -2").1 = .ok lexed ∧
    lexed.tokens.map (fun t => (t.kind, t.value)) = [(.tIDENTIFIER, "é"), (.tLABEL, "x"),
      (.tSYMBOL, "y"), (.tCOMMA, ","), (.tINTEGER, "1"), (.tSEMI, ";"), (.tNTH_REF, "1"),
      (.tOP_ASGN, "||"), (.tINTEGER, "-2")] ∧
    ∀ t ∈ lexed.tokens, t.kind ≠ .tSTRING_CONTENT → t.kind ≠ .tCHARACTER →
      ∃ affix ∈ affixes t.kind,
        Text.slice? "é x: :y, +1; $1 ||= -2".toList t.span.start t.span.stop =
          some (affix.1.toList ++ t.value.toList ++ affix.2.toList) := by
  have hlex : ((lex "é x: :y, +1; $1 ||= -2").1.toOption.any fun lexed =>
      lexed.tokens.map (fun t => (t.kind, t.value)) == [(.tIDENTIFIER, "é"), (.tLABEL, "x"),
        (.tSYMBOL, "y"), (.tCOMMA, ","), (.tINTEGER, "1"), (.tSEMI, ";"), (.tNTH_REF, "1"),
        (.tOP_ASGN, "||"), (.tINTEGER, "-2")]) = true := by decide +kernel
  cases h : (lex "é x: :y, +1; $1 ||= -2").1 with
  | error abort =>
      rw [h] at hlex
      cases hlex
  | ok lexed =>
      rw [h] at hlex
      exact ⟨lexed, rfl, beq_iff_eq.mp hlex, lex_spells h⟩

end Token

end RubySyntax
