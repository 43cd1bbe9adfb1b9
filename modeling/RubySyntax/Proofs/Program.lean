/-
  RubySyntax.Proofs.Program
  ─────────────────────────
  **THE STEPS OF READING A PROGRAM.**

  A program that is read has been split into tokens, and its tree is that of the tokens.

  Main results:
    • `Program.eq_of_read` — the tokens, the comments and the tree of a program that is read,
    • `Program.read_of_readProgram` — and what is read of tokens that have a tree.
-/
import RubySyntax.Program

namespace RubySyntax

theorem exists_of_any {ε α : Type} {e : Except ε α} {P : α → Bool}
    (h : e.toOption.any P = true) : ∃ a, e = .ok a ∧ P a = true := by
  cases e with
  | error _ => cases h
  | ok a => exact ⟨a, rfl, h⟩

namespace Program

/-- A program that is read has the tokens of its text, and their tree. -/
theorem eq_of_read {version : Version} {text : String} {p : Program}
    (h : (read version text).1 = .ok p) :
    ∃ lexed found, Token.lex text = (.ok lexed, found) ∧ p.tokens = lexed.tokens ∧
      p.comments = lexed.comments ∧ treeOf lexed.tokens version text = .ok p.tree := by
  unfold read at h
  split at h
  next => cases h
  next lexed found hlex =>
    split at h
    next => cases h
    next tree htree =>
      cases h
      exact ⟨lexed, found, hlex, rfl, rfl, htree⟩

/-- A tree is that of the statements that the grammar reads, or the empty one. -/
theorem eq_of_treeOf {tokens : List Token} {version : Version} {text : String} {tree : Node}
    (h : treeOf tokens version text = .ok tree) :
    ∃ root, Grammar.readProgram tokens version = .ok root ∧ tree = (root.getD empty).resolve := by
  unfold treeOf at h
  split at h
  next root hroot =>
    cases h
    exact ⟨root, hroot, rfl⟩
  next => cases h

section Exits

variable {version : Version} {text : String} {lexed : Token.Lexed} {found : List Diagnostic}

/-- A text that cannot be split into tokens is no program. -/
theorem read_of_abort {abort : Abort} (hlex : Token.lex text = (.error abort, found)) :
    read version text = (.error abort, found) := by
  unfold read
  rw [hlex]

/-- Nor is one whose tokens the grammar does not read. -/
theorem read_of_fault {fault : Fault} (hlex : Token.lex text = (.ok lexed, found))
    (htree : treeOf lexed.tokens version text = .error fault) :
    read version text = (.error ⟨fault.message, some fault.span⟩,
      Diagnostic.sortByStart (found ++ [⟨.error, fault.message, fault.span⟩])) := by
  unfold read
  rw [hlex]
  simp only [htree]

/-- Tokens with a tree are a program. -/
theorem read_of_tree {tree : Node} (hlex : Token.lex text = (.ok lexed, found))
    (htree : treeOf lexed.tokens version text = .ok tree) :
    read version text = (.ok ⟨tree, lexed.comments, lexed.tokens⟩,
      Diagnostic.sortByStart (found ++ tree.warnings)) := by
  unfold read
  rw [hlex]
  simp only [htree]

/-- What is split into tokens that the grammar reads is a program. -/
theorem read_of_readProgram {root : Option Node} (hlex : Token.lex text = (.ok lexed, found))
    (hroot : Grammar.readProgram lexed.tokens version = .ok root) :
    read version text = (.ok ⟨(root.getD empty).resolve, lexed.comments, lexed.tokens⟩,
      Diagnostic.sortByStart (found ++ (root.getD empty).resolve.warnings)) := by
  refine read_of_tree hlex ?_
  unfold treeOf
  rw [hroot]

end Exits

end Program

end RubySyntax
