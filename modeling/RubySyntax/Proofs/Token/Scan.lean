/-
  RubySyntax.Proofs.Token.Scan
  ────────────────────────────
  **THE SCAN KEEPS A LEDGER.**

  `Scanned text most s` says of a state of the scan that what it has consumed and what it has not
  make up the text, that its tokens, comments and diagnostics are a ledger of what it has
  consumed, and that at most `most` characters are left.  The moves of the scan (a token, a
  comment, a blank, a report) keep it, and leave fewer characters if they consume some; changes
  of context do not touch it.

  Main results:
    • `Scanned.emit`, `Scanned.comment`, `Scanned.blank`, `Scanned.reject` — the moves,
    • `scanned_moves` — all that a step in code is made of.
-/
import RubySyntax.Proofs.Token.Move

namespace RubySyntax.Token.Lexer

open RubySyntax.Text

/-! ## §1. The invariant. -/

/-- What has been consumed is the beginning of the text, and the records are a ledger of it. -/
structure Consumed (text read rest : List Char) (pos : Nat) (atLineStart : Bool)
    (tokens : List Token) (comments : List Comment) (diagnostics : List Diagnostic) : Prop where
  text_eq : text = read ++ rest
  pos_eq : pos = byteLength read
  lineStart : atLineStart = true ↔ read = [] ∨ read.getLast? = some '\n'
  ledger : Ledger read tokens comments diagnostics

/-- A state in which some beginning of a text has been consumed and at most some number of
characters are left. -/
def Scanned (text : List Char) (most : Nat) (s : State) : Prop :=
  s.rest.length ≤ most ∧
    ∃ read, Consumed text read s.rest s.pos s.atLineStart s.tokens s.comments s.diagnostics

variable {text : List Char} {most k : Nat} {s : State}

theorem scanned_start (text : List Char) : Scanned text text.length (State.start text) :=
  ⟨Nat.le_refl _, [], rfl, rfl, by simp [State.start], .start⟩

theorem Scanned.mono (h : Scanned text k s) (hk : k ≤ most) : Scanned text most s :=
  ⟨Nat.le_trans h.1 hk, h.2⟩

/-! ## §2. Moves. -/

/-- What consuming `n` characters does to all but the records. -/
theorem lineStart_append {read lexeme : List Char} {atLineStart : Bool}
    (h : atLineStart = true ↔ read = [] ∨ read.getLast? = some '\n') :
    (lexeme.getLast?.map (· == '\n')).getD atLineStart = true ↔
      read ++ lexeme = [] ∨ (read ++ lexeme).getLast? = some '\n' := by
  cases hlast : lexeme.getLast? with
  | none =>
      rw [List.getLast?_eq_none_iff] at hlast
      rw [hlast, List.append_nil]
      exact h
  | some c =>
      -- the last character that was read is the last one of the lexeme
      have hne : lexeme ≠ [] := by
        rintro rfl
        cases hlast
      rw [List.getLast?_append, hlast]
      simp [hne]

/-- Characters that are there take their own bytes. -/
theorem bytesOfNext_eq {n : Nat} (hn : n ≤ s.rest.length) :
    s.bytesOfNext n = byteLength (s.rest.take n) := by
  show byteLength (s.rest.take n) + (n - (s.rest.take n).length) = _
  rw [List.length_take, Nat.min_eq_left hn, Nat.sub_self, Nat.add_zero]

theorem Consumed.advance {read : List Char} {n : Nat} {ts : List Token} {cs : List Comment}
    {ds : List Diagnostic}
    (h : Consumed text read s.rest s.pos s.atLineStart s.tokens s.comments s.diagnostics)
    (hn : n ≤ s.rest.length) (hledger : Ledger (read ++ s.rest.take n) ts cs ds) :
    Consumed text (read ++ s.rest.take n) (s.advance n).rest (s.advance n).pos
      (s.advance n).atLineStart ts cs ds := by
  refine ⟨?_, ?_, lineStart_append h.lineStart, hledger⟩
  · show text = read ++ s.rest.take n ++ s.rest.drop n
    rw [List.append_assoc, List.take_append_drop, h.text_eq]
  · show s.pos + s.bytesOfNext n = _
    rw [byteLength_append, h.pos_eq, bytesOfNext_eq hn]

/-- The place of the next characters ends where they do. -/
theorem Consumed.stop_eq {read : List Char} {n : Nat}
    (h : Consumed text read s.rest s.pos s.atLineStart s.tokens s.comments s.diagnostics)
    (hn : n ≤ s.rest.length) :
    (s.spanOfNext n).stop = byteLength read + byteLength (s.rest.take n) := by
  show s.pos + s.bytesOfNext n = _
  rw [h.pos_eq, bytesOfNext_eq hn]

theorem length_drop_le {rest : List Char} {n : Nat} (h : rest.length ≤ k) (hk : k ≤ most + n) :
    (rest.drop n).length ≤ most := by
  rw [List.length_drop]
  omega

section Moves

variable {n : Nat} (h : Scanned text k s)
include h

/-- A token of the next `n` characters. -/
theorem Scanned.emit (hk : k ≤ most + n) (hn : n ≤ s.rest.length) (kind : Kind)
    (value : List Char) : Scanned text most (s.emit kind n value) := by
  obtain ⟨hleft, read, hread⟩ := h
  exact ⟨length_drop_le hleft hk, _, hread.advance hn
    (hread.ledger.token (s.rest.take n) _ hread.pos_eq (hread.stop_eq hn))⟩

/-- A comment of the next `n` characters. -/
theorem Scanned.comment (hk : k ≤ most + n) (hn : n ≤ s.rest.length) (content : List Char) :
    Scanned text most (s.comment n content) := by
  obtain ⟨hleft, read, hread⟩ := h
  exact ⟨length_drop_le hleft hk, _, hread.advance hn
    (hread.ledger.comment (s.rest.take n) _ hread.pos_eq (hread.stop_eq hn))⟩

/-- A blank of the next `n` characters. -/
theorem Scanned.blank (hk : k ≤ most + n) (hn : n ≤ s.rest.length)
    (hblank : Separator (s.rest.take n)) : Scanned text most (s.blank n) := by
  obtain ⟨hleft, read, hread⟩ := h
  exact ⟨length_drop_le hleft hk, _, hread.advance hn (hread.ledger.blank (s.rest.take n) hblank)⟩

/-- The next `n` characters are no token, and an error is reported about them. -/
theorem Scanned.reject (hk : k ≤ most + n) (hn : n ≤ s.rest.length) {fault : Fault}
    (hfault : fault.level = .error) : Scanned text most (s.reject fault n) := by
  obtain ⟨hleft, read, hread⟩ := h
  exact ⟨length_drop_le hleft hk, _, hread.advance hn
    (hread.ledger.rejected (s.rest.take n) _ hfault hread.pos_eq (hread.stop_eq hn))⟩

theorem Scanned.reported (d : Diagnostic) :
    Scanned text k { s with diagnostics := d :: s.diagnostics } := by
  obtain ⟨hleft, read, hread⟩ := h
  exact ⟨hleft, read, { hread with ledger := hread.ledger.reported d }⟩

theorem Scanned.emitSpelt (hk : k ≤ most + n) (hn : n ≤ s.rest.length) (kind : Kind) :
    Scanned text most (s.emitSpelt kind n) :=
  h.emit hk hn kind _

theorem Scanned.emitThen (hk : k ≤ most + n) (hn : n ≤ s.rest.length) (kind : Kind)
    (expect : Expect) : Scanned text most (s.emitThen kind n expect) :=
  h.emit hk hn kind _

theorem Scanned.report (fault : Fault) : Scanned text k (s.report fault n) := h.reported _

end Moves

/-- **The moves of the scan keep the ledger**, and each leaves fewer characters. -/
theorem scanned_moves (text : List Char) (most : Nat) :
    Moves (Scanned text (most + 1))
      (fun r => r.rest.length ≤ most ∧
        ∃ read, Consumed text read r.rest r.pos r.atLineStart r.tokens r.comments r.diagnostics)
      (Scanned text most) where
  report h _ _ _ := h.report _
  emit h _ hn kind value := h.emit (Nat.add_le_add_left hn.pos most) hn.le kind value
  settle h := h
  character h _ hn d value _ _ :=
    (h.reported d).emit (Nat.add_le_add_left hn.pos most) hn.le .tCHARACTER value
  comment h _ hn content := h.comment (Nat.add_le_add_left hn.pos most) hn.le content
  blank h _ hn hblank := h.blank (Nat.add_le_add_left hn.pos most) hn.le hblank
  reject h _ hn _ hfault := h.reject (Nat.add_le_add_left hn.pos most) hn.le hfault

end RubySyntax.Token.Lexer
