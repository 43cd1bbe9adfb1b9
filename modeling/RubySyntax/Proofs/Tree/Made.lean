/-
  RubySyntax.Proofs.Tree.Made
  ───────────────────────────
  **WHAT AN EXPRESSION IS MADE INTO.**

  Some of the functions that make nodes look at what they are given, and some refuse it.  What one
  of them can make is told here once: the kind of the new node, and where its slots come from.
  Whoever has something to prove of the new node goes through these cases.

  Main results:
    • `mem_command?` — a call that gets arguments behind it,
    • `makesCallee_of_mem` — a call that a block is attached to,
    • `mem_target?` — a target,
    • `multipleValues_eq`, `targets_eq`, `topPattern_eq` — lists that may stay what they are.
-/
import RubySyntax.Node.Build.Assignment
import RubySyntax.Node.Build.Pattern
import RubySyntax.Proofs.Tree.Everywhere

namespace RubySyntax.Node

variable {P : Node → Prop} {n : Node} {kind : Kind} {children : List Child}

/-! ## §1. Calls with arguments behind them. -/

/-- What a call is made of as an expression gets arguments behind it: its kind, and the slots before
the arguments. -/
inductive MakesCall (n : Node) : Kind → List Child → Prop where
  /-- A bare name becomes a call without a receiver. -/
  | name (hkind : n.kind = .lvar) : MakesCall n .send [.absent, n.children.getLastD .absent]
  | call (hkind : n.kind = .send ∨ n.kind = .constant) : MakesCall n .send n.children
  | safeCall (hkind : n.kind = .csend) : MakesCall n .csend n.children
  | superCall (hkind : n.kind = .zsuper) : MakesCall n .superCall []
  | yieldCall (hkind : n.kind = .yieldCall) (hnone : n.children = []) : MakesCall n .yieldCall []

theorem mem_of_getLastD {children : List Child} {n : Node}
    (h : children.getLastD .absent = .node n) : Child.node n ∈ children := by
  cases children with
  | nil => cases h
  | cons c rest =>
      rw [List.getLastD_cons] at h
      rw [← h]
      exact List.getLastD_mem_cons

/-- A call that is made of an expression has no nodes before its arguments but those of the
expression. -/
theorem MakesCall.slotsAll (h : n.MakesCall kind children) (hslots : SlotsAll P n.children) :
    SlotsAll P children := by
  cases h with
  | name _ => simpa using fun m hm => hslots m (mem_of_getLastD hm)
  | call _ | safeCall _ => exact hslots
  | superCall _ | yieldCall _ _ => exact slotsAll_nil

/-- A command has its arguments behind the slots that the expression leaves. -/
theorem mem_command? {c : Chain} {items : List Argument} {m : Node} (h : m ∈ command? c items) :
    ∃ kind children, c.node.MakesCall kind children ∧
      m = .mk kind (children ++ slots (arguments items))
        (joinAll c.node.span (arguments items)) := by
  simp only [command?] at h
  split at h
  · cases h
  split at h
  next hkind =>
    cases h
    exact ⟨_, _, .name hkind, rfl⟩
  next hkind =>
    cases h
    exact ⟨_, _, .call (.inl hkind), rfl⟩
  next hkind =>
    cases h
    exact ⟨_, _, .call (.inr hkind), rfl⟩
  next hkind =>
    cases h
    exact ⟨_, _, .safeCall hkind, rfl⟩
  next hkind =>
    cases h
    exact ⟨_, _, .superCall hkind, rfl⟩
  next hkind =>
    split at h
    next hempty =>
      cases h
      exact ⟨_, _, .yieldCall hkind (List.isEmpty_iff.mp hempty), rfl⟩
    next => cases h
  next => cases h

/-! ## §2. Calls that take a block. -/

/-- The call that a block is attached to. -/
inductive MakesCallee (n : Node) : Node → Prop where
  /-- A bare name becomes a call without a receiver. -/
  | name (hkind : n.kind = .lvar) : MakesCallee n (.mk .send (.absent :: n.children) n.span)
  /-- A call stays as it is; it passes no block on. -/
  | call (hkind : n.kind ∈ [Kind.send, .csend, .superCall, .zsuper])
      (hpasses : (n.lastChild?.bind Child.node?).any (fun last => last.kind == .blockPass) = false) :
      MakesCallee n n

theorem makesCallee_of_mem {callee : Node} (h : callee ∈ blockCallee? n) :
    n.MakesCallee callee := by
  have hkept : n.kind ∈ [Kind.send, .csend, .superCall, .zsuper] →
      callee ∈ (if (n.lastChild?.bind Child.node?).any fun last => last.kind == .blockPass then none
        else some n) → n.MakesCallee callee := by
    intro hkind h
    split at h
    · cases h
    next hpasses =>
      cases h
      exact .call hkind (by simpa using hpasses)
  simp only [blockCallee?] at h
  split at h
  next hkind =>
    split at h
    · cases h
    · cases h
      exact .name hkind
  next hkind => exact hkept (by simp [hkind]) h
  next hkind => exact hkept (by simp [hkind]) h
  next hkind => exact hkept (by simp [hkind]) h
  next hkind => exact hkept (by simp [hkind]) h
  next => cases h

/-! ## §3. Targets. -/

/-- The kinds of targets. -/
def targetKinds : List Kind :=
  [.lvasgn, .ivasgn, .cvasgn, .gvasgn, .casgn, .indexasgn, .send, .csend]

/-- What a target is made of as an expression becomes one: its kind and its slots. -/
inductive MakesTarget (n : Node) : Kind → List Child → Prop where
  /-- A variable, a constant or an index keeps its slots. -/
  | name {kind : Kind} (hkind : targetKind? n.kind = some kind) :
      MakesTarget n kind n.children
  /-- A call that reads an attribute becomes the one that writes it. -/
  | writer {receiver : Child} {name : String} (hkind : n.kind = .send ∨ n.kind = .csend)
      (hchildren : n.children = [receiver, .symbol name]) (hreceiver : receiver.isAbsent = false) :
      MakesTarget n n.kind [receiver, .symbol (name ++ "=")]

theorem MakesTarget.kind_mem (h : n.MakesTarget kind children) : kind ∈ targetKinds := by
  cases h with
  | name hkind =>
      unfold targetKind? at hkind
      split at hkind <;> cases hkind <;> decide
  | writer hkind _ _ => rcases hkind with hkind | hkind <;> rw [hkind] <;> decide

/-- A target has no nodes in its slots but those of the expression. -/
theorem MakesTarget.slotsAll (h : n.MakesTarget kind children) (hslots : SlotsAll P n.children) :
    SlotsAll P children := by
  cases h with
  | name _ => exact hslots
  | writer _ hchildren _ =>
      rw [hchildren] at hslots
      simpa using hslots

/-- **A target stands where the expression stood.** -/
theorem mem_target? {t : Node} (h : t ∈ target? n) :
    ∃ kind children, n.MakesTarget kind children ∧ t = .mk kind children n.span := by
  simp only [target?] at h
  split at h
  next kind hkind =>
    cases h
    exact ⟨kind, _, .name hkind, rfl⟩
  next =>
    split at h
    next hcall =>
      simp only [attributeTarget?] at h
      split at h
      next receiver name hchildren =>
        split at h
        · cases h
        next hreceiver =>
          cases h
          exact ⟨_, _, .writer (by simpa using hcall) hchildren (by simpa using hreceiver), rfl⟩
      next => cases h
    next => cases h

/-! ## §4. Lists. -/

/-- Several values are an array, and a single one is itself. -/
theorem multipleValues_eq (ns : List Node) :
    multipleValues ns = bareArray ns ∨ ∃ n, ns = [n] ∧ multipleValues ns = n := by
  unfold multipleValues
  split
  next n =>
    split
    · exact .inl rfl
    · exact .inr ⟨n, rfl, rfl⟩
  next => exact .inl rfl

/-- Targets are a list of their own, unless they are a list already. -/
theorem targets_eq (ns : List Node) :
    targets ns = .mk .mlhs (slots ns) (cover ns) ∨
      ∃ n, ns = [n] ∧ n.kind = .mlhs ∧ targets ns = n := by
  unfold targets
  split
  next n =>
    split
    next hkind => exact .inr ⟨n, rfl, by simpa using hkind, rfl⟩
    next => exact .inl rfl
  next => exact .inl rfl

/-- Patterns side by side are a pattern for a list, and a single one is itself. -/
theorem topPattern_eq (items : List Node) (trailingComma : Bool) :
    topPattern items trailingComma =
        .mk (listPatternKind items trailingComma) (slots items) (cover items) ∨
      ∃ only, items = [only] ∧ topPattern items trailingComma = only := by
  unfold topPattern
  dsimp only
  split
  next only =>
    split
    · exact .inl rfl
    · exact .inr ⟨only, rfl, rfl⟩
  next => exact .inl rfl

/-- Several values are assigned as an array. -/
theorem mem_assignValues? {items : List Node} {m : Node} (h : m ∈ assignValues? n items) :
    m ∈ assign? n (bareArray items) := by
  unfold assignValues? at h
  split at h
  · split at h
    · exact h
    · cases h
  · exact h

end RubySyntax.Node
