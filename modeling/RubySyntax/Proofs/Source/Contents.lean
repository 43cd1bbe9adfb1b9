/-
  RubySyntax.Proofs.Source.Contents
  ─────────────────────────────────
  **BYTES END IN ONE OF THREE STATES.**

  Bytes pass the decoder, the scan and the grammar, and each of them can refuse.  What comes out
  shows which did: nothing at all after the decoder, a failure and the diagnostic about it after
  the other two, and else a tree.  No failure is silent, and nothing partial survives one.

  Main results:
    • `Program.read_cases` — a program is read, or one of its diagnostics is why not,
    • `Contents.read_ends` — the three states, which of them have a tree, and which are valid.
-/
import RubySyntax.Source.Contents
import RubySyntax.Proofs.Dialect
import RubySyntax.Proofs.Token.Level
import RubySyntax.Proofs.Tree.Warning

namespace RubySyntax

/-! ## §1. Programs. -/

namespace Program

/-- A diagnostic about a text that has been read: what the scan reports when it goes on, or a
warning about the tree. -/
def Remark (text : String) (tree : Node) (d : Diagnostic) : Prop :=
  (d ∈ (Token.lex text).2 ∧ d.Passing) ∨ (d ∈ tree.warnings ∧ d.level = .warning)

/-- **A program is read and there are remarks about it, or one of the diagnostics is an error and
the reason why it is not.** -/
theorem read_cases (version : Version) (text : String) :
    (∃ p, (read version text).1 = .ok p ∧ ∀ d ∈ (read version text).2, Remark text p.tree d) ∨
    ∃ d ∈ (read version text).2, d.isError = true ∧
      (read version text).1 = .error ⟨d.message, some d.span⟩ := by
  have hlevels := Token.lex_levels text
  unfold Remark read
  generalize Token.lex text = result at *
  obtain ⟨lexed, found⟩ := result
  -- a fatal report of the scan ends the reading; else it ends with the fault of the parser, or with
  -- a tree
  cases lexed with
  | error abort =>
      obtain ⟨⟨lexed, hlexed⟩, -⟩ | ⟨before, reason, habort, hfound, hfatal, -⟩ := hlevels
      · cases hlexed
      · cases habort
        refine .inr ⟨reason, ?_, ?_, rfl⟩
        · exact hfound ▸ List.mem_append_right before List.mem_cons_self
        · rw [Diagnostic.isError, hfatal]
          rfl
  | ok lexed =>
      obtain ⟨-, hpassing⟩ | ⟨before, reason, habort, -⟩ := hlevels
      · simp only
        split
        next fault hfault =>
          refine .inr ⟨⟨.error, fault.message, fault.span⟩, ?_, rfl, rfl⟩
          exact List.mem_mergeSort.mpr (List.mem_append_right found List.mem_cons_self)
        next tree htree =>
          refine .inl ⟨_, rfl, fun d hd => ?_⟩
          rcases List.mem_append.mp (List.mem_mergeSort.mp hd) with hd | hd
          · exact .inl ⟨hd, hpassing d hd⟩
          · exact .inr ⟨hd, Node.warnings_level tree d hd⟩
      · cases habort

end Program

/-! ## §2. Contents. -/

namespace Source

/-- How the reading of bytes ends. -/
inductive Ending where
  /-- The bytes have no text. -/
  | undecoded
  /-- The text has no tree. -/
  | aborted
  /-- There is a tree. -/
  | read
deriving DecidableEq, Repr

/-- Whether an ending is a failure, and if so, whether one of the encoding. -/
def Ending.failsInEncoding? : Ending → Option Bool
  | .undecoded => some true
  | .aborted => some false
  | .read => none

namespace Contents

/-- There is a failure to decode and nothing else. -/
structure Undecoded (c : Contents) : Prop where
  encoding : c.encoding? = none
  tree : c.tree? = none
  comments : c.comments = []
  tokens : c.tokens = []
  diagnostics : c.diagnostics = []
  failure : ∃ encoding message, c.failure? = some (.undecoded encoding message)

/-- There is a failure, and a diagnostic which is an error says the same of the same place. -/
structure Aborted (c : Contents) : Prop where
  encoding : c.encoding?.isSome
  tree : c.tree? = none
  comments : c.comments = []
  tokens : c.tokens = []
  failure : ∃ abort, c.failure? = some (.aborted abort) ∧
    ∃ d ∈ c.diagnostics, d.isError = true ∧ abort = ⟨d.message, some d.span⟩

/-- There is a tree and no failure, and the diagnostics are remarks. -/
structure Read (c : Contents) : Prop where
  encoding : c.encoding?.isSome
  tree : ∃ tree, c.tree? = some tree ∧ ∀ d ∈ c.diagnostics, Program.Remark c.text tree d
  failure : c.failure? = none

/-- Contents are those of an ending. -/
def EndsAs (c : Contents) : Ending → Prop
  | .undecoded => c.Undecoded
  | .aborted => c.Aborted
  | .read => c.Read

/-- The failure of contents tells how they ended. -/
theorem EndsAs.isEncoding_failure {c : Contents} {e : Ending} (h : c.EndsAs e) :
    c.failure?.map Failure.isEncoding = e.failsInEncoding? := by
  cases e with
  | undecoded =>
      obtain ⟨encoding, message, hfailure⟩ := h.failure
      rw [hfailure]
      rfl
  | aborted =>
      obtain ⟨abort, hfailure, -⟩ := h.failure
      rw [hfailure]
      rfl
  | read =>
      rw [h.failure]
      rfl

/-- No contents are those of two endings. -/
theorem EndsAs.eq {c : Contents} {e e' : Ending} (h : c.EndsAs e) (h' : c.EndsAs e') : e = e' := by
  have hfailure := h.isEncoding_failure.symm.trans h'.isEncoding_failure
  cases e <;> cases e' <;> first | rfl | cases hfailure

/-- Contents have a tree exactly if they have no failure. -/
theorem EndsAs.tree_eq_none_iff {c : Contents} {e : Ending} (h : c.EndsAs e) :
    c.tree? = none ↔ c.failure?.isSome := by
  cases e with
  | undecoded =>
      obtain ⟨encoding, message, hfailure⟩ := h.failure
      simp [h.tree, hfailure]
  | aborted =>
      obtain ⟨abort, hfailure, -⟩ := h.failure
      simp [h.tree, hfailure]
  | read =>
      obtain ⟨tree, htree, -⟩ := h.tree
      simp [htree, h.failure]

/-- Contents are valid exactly if there is a tree and no diagnostic is an error. -/
theorem EndsAs.isValid_iff {c : Contents} {e : Ending} (h : c.EndsAs e) :
    c.isValid = true ↔ c.EndsAs .read ∧ ∀ d ∈ c.diagnostics, ¬ d.isError = true := by
  have hvalid : c.isValid = true ↔
      c.failure? = none ∧ ∀ d ∈ c.diagnostics, ¬ d.isError = true := by
    simp [isValid]
  rw [hvalid]
  refine and_congr_left fun _ => ⟨fun hfailure => ?_, fun hread => hread.failure⟩
  cases e with
  | undecoded =>
      obtain ⟨encoding, message, hsome⟩ := h.failure
      rw [hfailure] at hsome
      cases hsome
  | aborted =>
      obtain ⟨abort, hsome, -⟩ := h.failure
      rw [hfailure] at hsome
      cases hsome
  | read => exact h

/-- What bytes say in a standard dialect has an ending. -/
theorem exists_endsAs_read (version : Version) (name : String) (default? : Option String)
    (raw : List UInt8) :
    ∃ e, (read (Dialect.standard version) name default? raw).EndsAs e := by
  unfold read
  split
  next e _ => exact ⟨.undecoded, rfl, rfl, rfl, rfl, rfl, _, _, rfl⟩
  next text encoding _ =>
    have hcases := Program.read_cases version text
    rw [Dialect.standard]
    simp only
    generalize Program.read version text = result at *
    obtain ⟨program, found⟩ := result
    obtain ⟨p, hp, hremarks⟩ | ⟨d, hd, herror, habort⟩ := hcases
    · cases hp
      exact ⟨.read, rfl, ⟨_, rfl, hremarks⟩, rfl⟩
    · cases habort
      exact ⟨.aborted, rfl, rfl, rfl, rfl, _, rfl, d, hd, herror, rfl⟩

/-- **What bytes say in a known version has exactly one of the three endings**: it has no tree
exactly if it has a failure, and is valid exactly if it was read without an error. -/
theorem read_ends {version : Version} (hversion : version ∈ Version.known) :
    ∃ d, Dialect.Registry.standard.resolve version = .ok d ∧
      ∀ (name : String) (default? : Option String) (raw : List UInt8),
        (∃! e, (read d name default? raw).EndsAs e) ∧
        ((read d name default? raw).tree? = none ↔ (read d name default? raw).failure?.isSome) ∧
        ((read d name default? raw).isValid = true ↔
          (read d name default? raw).EndsAs .read ∧
            ∀ x ∈ (read d name default? raw).diagnostics, ¬ x.isError = true) := by
  refine ⟨_, Dialect.Registry.resolve_standard hversion, fun name default? raw => ?_⟩
  obtain ⟨e, he⟩ := exists_endsAs_read version name default? raw
  exact ⟨⟨e, he, fun e' he' => he'.eq he⟩, he.tree_eq_none_iff, he.isValid_iff⟩

/-- The endings of a closing parenthesis alone, of a byte that begins no character, of nothing. -/
example : [[0x29], [0xff], []].map (fun raw =>
    (read (Dialect.standard ⟨3, 4⟩) "" none raw).failure?.map Failure.isEncoding) =
      [some false, some true, none] := by decide +kernel

theorem read_ends_parenthesis : ∃ d, Dialect.Registry.standard.resolve ⟨3, 4⟩ = .ok d ∧
    (∃! e, (read d "a.rb" none [0x29]).EndsAs e) ∧
      ((read d "a.rb" none [0x29]).tree? = none ↔ (read d "a.rb" none [0x29]).failure?.isSome) ∧
      ((read d "a.rb" none [0x29]).isValid = true ↔
        (read d "a.rb" none [0x29]).EndsAs .read ∧
          ∀ x ∈ (read d "a.rb" none [0x29]).diagnostics, ¬ x.isError = true) := by
  obtain ⟨d, hd, hends⟩ := @read_ends ⟨3, 4⟩ (by decide)
  exact ⟨d, hd, hends "a.rb" none [0x29]⟩

end Contents

end Source

end RubySyntax
