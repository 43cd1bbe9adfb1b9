/-
  RubySyntax.Proofs.Token.Ledger
  ──────────────────────────────
  **WHAT BECAME OF EACH CHARACTER.**

  A ledger goes through the text that has been read, from its beginning, and says of each stretch
  what it became: a token, a comment, a separator, or nothing but an error.  Each entry begins
  where the one before it ended, so nothing is lost between them and nothing is read twice.  What
  a ledger means for the offsets of a text follows by induction on its entries.

  Main results:
    • `Ledger.tokens_ordered`, `Ledger.comments_ordered` — later entries stand further right,
    • `Ledger.disjoint` — no token and comment overlap,
    • `Ledger.accounted` — each byte that was read is accounted for.
-/
import RubySyntax.Token.Lexer.State

namespace RubySyntax

/-- Whether a span covers a byte. -/
def Span.Covers (s : Span) (offset : Nat) : Prop := s.start ≤ offset ∧ offset < s.stop

namespace Token.Lexer

open RubySyntax.Text

/-! ## §1. Separators. -/

/-- A character that separates tokens, before the characters after it: a blank, a newline, or a
backslash that hides the newline after it. -/
def Separates (c : Char) (after : List Char) : Prop :=
  State.isSpace c = true ∨
    (c = '\\' ∧ ∃ more, after = '\n' :: more ∨ after = '\r' :: '\n' :: more)

/-- A stretch of text that separates tokens. -/
inductive Separator : List Char → Prop where
  | space {c : Char} (h : State.isSpace c = true) : Separator [c]
  | hidden : Separator ['\\', '\n']
  | hiddenReturn : Separator ['\\', '\r', '\n']

theorem Separates.append {c : Char} {after : List Char} (h : Separates c after)
    (more : List Char) : Separates c (after ++ more) := by
  rcases h with h | ⟨hc, rest, rfl | rfl⟩
  · exact .inl h
  · exact .inr ⟨hc, rest ++ more, .inl rfl⟩
  · exact .inr ⟨hc, rest ++ more, .inr rfl⟩

/-- Each character of a separator separates. -/
theorem Separator.separates {lexeme : List Char} (h : Separator lexeme) {before : List Char}
    {c : Char} {after : List Char} (hsplit : lexeme = before ++ c :: after) :
    Separates c after := by
  have hend : State.isSpace '\n' = true := rfl
  have hreturn : State.isSpace '\r' = true := rfl
  cases h with
  | space hc =>
      match before, hsplit with
      | [], hsplit =>
          cases hsplit
          exact .inl hc
      | _ :: before, hsplit => simp at hsplit
  | hidden =>
      -- the backslash, or the newline that it hides
      match before, hsplit with
      | [], hsplit =>
          cases hsplit
          exact .inr ⟨rfl, [], .inl rfl⟩
      | [_], hsplit =>
          cases hsplit
          exact .inl hend
      | _ :: _ :: before, hsplit => simp at hsplit
  | hiddenReturn =>
      match before, hsplit with
      | [], hsplit =>
          cases hsplit
          exact .inr ⟨rfl, [], .inr rfl⟩
      | [_], hsplit =>
          cases hsplit
          exact .inl hreturn
      | [_, _], hsplit =>
          cases hsplit
          exact .inl hend
      | _ :: _ :: _ :: before, hsplit => simp at hsplit

/-- The characters of a separator take one byte each. -/
theorem Separator.utf8Size {lexeme : List Char} (h : Separator lexeme) :
    ∀ c ∈ lexeme, c.utf8Size = 1 := by
  cases h with
  | @space c hc =>
      intro d hd
      obtain rfl := List.mem_singleton.mp hd
      simp only [State.isSpace, Bool.or_eq_true, beq_iff_eq] at hc
      rcases hc with ((((rfl | rfl) | rfl) | rfl) | rfl) | rfl <;> rfl
  | hidden =>
      have hbackslash : '\\'.utf8Size = 1 := rfl
      have hend : '\n'.utf8Size = 1 := rfl
      simp [hbackslash, hend]
  | hiddenReturn =>
      have hbackslash : '\\'.utf8Size = 1 := rfl
      have hreturn : '\r'.utf8Size = 1 := rfl
      have hend : '\n'.utf8Size = 1 := rfl
      simp [hbackslash, hreturn, hend]

/-! ## §2. Ledgers. -/

/-- The entries of a text that has been read: what was read, the tokens, the comments and the
diagnostics, each latest first. -/
inductive Ledger : List Char → List Token → List Comment → List Diagnostic → Prop where
  /-- Nothing has been read. -/
  | start : Ledger [] [] [] []
  /-- A stretch became a token. -/
  | token {read : List Char} {ts : List Token} {cs : List Comment} {ds : List Diagnostic}
      (before : Ledger read ts cs ds) (lexeme : List Char) (t : Token)
      (hstart : t.span.start = byteLength read)
      (hstop : t.span.stop = byteLength read + byteLength lexeme) :
      Ledger (read ++ lexeme) (t :: ts) cs ds
  /-- A stretch became a comment. -/
  | comment {read : List Char} {ts : List Token} {cs : List Comment} {ds : List Diagnostic}
      (before : Ledger read ts cs ds) (lexeme : List Char) (c : Comment)
      (hstart : c.span.start = byteLength read)
      (hstop : c.span.stop = byteLength read + byteLength lexeme) :
      Ledger (read ++ lexeme) ts (c :: cs) ds
  /-- A stretch separates tokens. -/
  | blank {read : List Char} {ts : List Token} {cs : List Comment} {ds : List Diagnostic}
      (before : Ledger read ts cs ds) (lexeme : List Char) (h : Separator lexeme) :
      Ledger (read ++ lexeme) ts cs ds
  /-- A stretch is in error. -/
  | rejected {read : List Char} {ts : List Token} {cs : List Comment} {ds : List Diagnostic}
      (before : Ledger read ts cs ds) (lexeme : List Char) (d : Diagnostic)
      (herror : d.level = .error) (hstart : d.span.start = byteLength read)
      (hstop : d.span.stop = byteLength read + byteLength lexeme) :
      Ledger (read ++ lexeme) ts cs (d :: ds)
  /-- Something is reported, and nothing read. -/
  | reported {read : List Char} {ts : List Token} {cs : List Comment} {ds : List Diagnostic}
      (before : Ledger read ts cs ds) (d : Diagnostic) : Ledger read ts cs (d :: ds)

variable {read : List Char} {ts : List Token} {cs : List Comment} {ds : List Diagnostic}

/-- The tokens lie in what was read. -/
theorem Ledger.tokens_within (h : Ledger read ts cs ds) :
    ∀ t ∈ ts, t.span.start ≤ t.span.stop ∧ t.span.stop ≤ byteLength read := by
  induction h with
  | start => exact fun t ht => absurd ht List.not_mem_nil
  | token before lexeme t hstart hstop ih =>
      rw [byteLength_append]
      refine List.forall_mem_cons.mpr ⟨by omega, fun u hu => ?_⟩
      have := ih u hu
      omega
  | comment before lexeme c hstart hstop ih | blank before lexeme h ih
  | rejected before lexeme d herror hstart hstop ih =>
      rw [byteLength_append]
      intro u hu
      have := ih u hu
      omega
  | reported before d ih => exact ih

/-- The comments lie in what was read. -/
theorem Ledger.comments_within (h : Ledger read ts cs ds) :
    ∀ c ∈ cs, c.span.start ≤ c.span.stop ∧ c.span.stop ≤ byteLength read := by
  induction h with
  | start => exact fun c hc => absurd hc List.not_mem_nil
  | comment before lexeme c hstart hstop ih =>
      rw [byteLength_append]
      refine List.forall_mem_cons.mpr ⟨by omega, fun d hd => ?_⟩
      have := ih d hd
      omega
  | token before lexeme t hstart hstop ih | blank before lexeme h ih
  | rejected before lexeme d herror hstart hstop ih =>
      rw [byteLength_append]
      intro u hu
      have := ih u hu
      omega
  | reported before d ih => exact ih

/-- **Later tokens stand further right.** -/
theorem Ledger.tokens_ordered (h : Ledger read ts cs ds) :
    ts.Pairwise fun later earlier => earlier.span.stop ≤ later.span.start := by
  induction h with
  | start => exact .nil
  | token before lexeme t hstart hstop ih =>
      -- the tokens before end within what was read before this one
      refine .cons (fun u hu => ?_) ih
      have := before.tokens_within u hu
      omega
  | comment _ _ _ _ _ ih | blank _ _ _ ih | rejected _ _ _ _ _ _ ih | reported _ _ ih => exact ih

/-- **Later comments stand further right.** -/
theorem Ledger.comments_ordered (h : Ledger read ts cs ds) :
    cs.Pairwise fun later earlier => earlier.span.stop ≤ later.span.start := by
  induction h with
  | start => exact .nil
  | comment before lexeme c hstart hstop ih =>
      refine .cons (fun d hd => ?_) ih
      have := before.comments_within d hd
      omega
  | token _ _ _ _ _ ih | blank _ _ _ ih | rejected _ _ _ _ _ _ ih | reported _ _ ih => exact ih

/-- **No token and comment overlap.** -/
theorem Ledger.disjoint (h : Ledger read ts cs ds) :
    ∀ t ∈ ts, ∀ c ∈ cs, t.span.stop ≤ c.span.start ∨ c.span.stop ≤ t.span.start := by
  induction h with
  | start => exact fun t ht => absurd ht List.not_mem_nil
  | token before lexeme t hstart hstop ih =>
      refine List.forall_mem_cons.mpr ⟨fun c hc => ?_, ih⟩
      have := before.comments_within c hc
      omega
  | comment before lexeme c hstart hstop ih =>
      intro t ht
      refine List.forall_mem_cons.mpr ⟨?_, ih t ht⟩
      have := before.tokens_within t ht
      omega
  | blank _ _ _ ih | rejected _ _ _ _ _ _ ih | reported _ _ ih => exact ih

/-! ## §3. Accounting for bytes. -/

/-- A byte of a text is accounted for: it lies in a token, in a comment or in an error, or it is a
separator. -/
def Accounted (text : List Char) (ts : List Token) (cs : List Comment) (ds : List Diagnostic)
    (offset : Nat) : Prop :=
  (∃ t ∈ ts, t.span.Covers offset) ∨ (∃ c ∈ cs, c.span.Covers offset) ∨
    (∃ d ∈ ds, d.level = .error ∧ d.span.Covers offset) ∨
    ∃ before c after, text = before ++ c :: after ∧ byteLength before = offset ∧
      Separates c after

theorem Accounted.mono {text : List Char} {ts ts' : List Token} {cs cs' : List Comment}
    {ds ds' : List Diagnostic} {offset : Nat} (h : Accounted text ts cs ds offset)
    (more : List Char) (hts : ∀ t ∈ ts, t ∈ ts') (hcs : ∀ c ∈ cs, c ∈ cs')
    (hds : ∀ d ∈ ds, d ∈ ds') : Accounted (text ++ more) ts' cs' ds' offset := by
  rcases h with ⟨t, ht, h⟩ | ⟨c, hc, h⟩ | ⟨d, hd, h⟩ | ⟨before, c, after, rfl, hoffset, h⟩
  · exact .inl ⟨t, hts t ht, h⟩
  · exact .inr (.inl ⟨c, hcs c hc, h⟩)
  · exact .inr (.inr (.inl ⟨d, hds d hd, h⟩))
  · refine .inr (.inr (.inr ⟨before, c, after ++ more, ?_, hoffset, h.append more⟩))
    rw [List.append_assoc, List.cons_append]

/-- A byte of characters that take one byte each begins one of them. -/
theorem exists_char_at {lexeme : List Char} (h : ∀ c ∈ lexeme, c.utf8Size = 1) :
    ∀ {offset : Nat}, offset < byteLength lexeme →
      ∃ before c after, lexeme = before ++ c :: after ∧ byteLength before = offset := by
  induction lexeme with
  | nil => exact fun h => absurd h (Nat.not_lt_zero _)
  | cons c rest ih =>
      intro offset hoffset
      obtain ⟨hc, hrest⟩ := List.forall_mem_cons.mp h
      rw [byteLength, hc] at hoffset
      cases offset with
      | zero => exact ⟨[], c, rest, rfl, rfl⟩
      | succ offset =>
          obtain ⟨before, d, after, rfl, hbefore⟩ := ih hrest (by omega : offset < _)
          refine ⟨c :: before, d, after, rfl, ?_⟩
          rw [byteLength, hc, hbefore, Nat.add_comm]

/-- A stretch whose bytes are accounted for may follow what was read. -/
theorem accounted_append {read lexeme : List Char} {ts ts' : List Token} {cs cs' : List Comment}
    {ds ds' : List Diagnostic} (hread : ∀ offset < byteLength read, Accounted read ts cs ds offset)
    (hts : ∀ t ∈ ts, t ∈ ts') (hcs : ∀ c ∈ cs, c ∈ cs') (hds : ∀ d ∈ ds, d ∈ ds')
    (hlexeme : ∀ offset, byteLength read ≤ offset →
      offset < byteLength read + byteLength lexeme →
        Accounted (read ++ lexeme) ts' cs' ds' offset) :
    ∀ offset < byteLength (read ++ lexeme), Accounted (read ++ lexeme) ts' cs' ds' offset := by
  intro offset hoffset
  rw [byteLength_append] at hoffset
  -- the byte was read before, or it is one of the stretch
  by_cases h : offset < byteLength read
  · exact (hread offset h).mono lexeme hts hcs hds
  · exact hlexeme offset (Nat.le_of_not_lt h) hoffset

/-- **Each byte that was read is accounted for.** -/
theorem Ledger.accounted (h : Ledger read ts cs ds) :
    ∀ offset < byteLength read, Accounted read ts cs ds offset := by
  induction h with
  | start => exact fun offset h => absurd h (Nat.not_lt_zero _)
  | token before lexeme t hstart hstop ih =>
      refine accounted_append ih (fun _ => List.mem_cons_of_mem _) (fun _ => id) (fun _ => id) ?_
      intro offset hle hlt
      exact .inl ⟨t, List.mem_cons_self, by omega, by omega⟩
  | comment before lexeme c hstart hstop ih =>
      refine accounted_append ih (fun _ => id) (fun _ => List.mem_cons_of_mem _) (fun _ => id) ?_
      intro offset hle hlt
      exact .inr (.inl ⟨c, List.mem_cons_self, by omega, by omega⟩)
  | @blank read ts cs ds before lexeme h ih =>
      refine accounted_append ih (fun _ => id) (fun _ => id) (fun _ => id) ?_
      intro offset hle hlt
      -- Each character of a separator is one byte, so the byte is one of them.
      obtain ⟨b, c, after, hlexeme, hb⟩ :=
        exists_char_at h.utf8Size (by omega : offset - byteLength read < byteLength lexeme)
      refine .inr (.inr (.inr ⟨read ++ b, c, after, ?_, ?_, h.separates hlexeme⟩))
      · rw [hlexeme, List.append_assoc]
      · rw [byteLength_append, hb]
        omega
  | rejected before lexeme d herror hstart hstop ih =>
      refine accounted_append ih (fun _ => id) (fun _ => id) (fun _ => List.mem_cons_of_mem _) ?_
      intro offset hle hlt
      exact .inr (.inr (.inl ⟨d, List.mem_cons_self, herror, by omega, by omega⟩))
  | reported before d ih =>
      -- nothing was read, so only the diagnostics grow
      intro offset hoffset
      have hmono := (ih offset hoffset).mono [] (fun _ => id) (fun _ => id)
        fun _ => List.mem_cons_of_mem d
      rwa [List.append_nil] at hmono

end Token.Lexer

end RubySyntax
