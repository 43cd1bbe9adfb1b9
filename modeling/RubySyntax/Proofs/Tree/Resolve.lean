/-
  RubySyntax.Proofs.Tree.Resolve
  ──────────────────────────────
  **RESOLVING NAMES KEEPS THE SHAPE OF A TREE.**

  However the names that can be seen travel through a tree, resolving them does one thing only:
  some bare names become calls without a receiver.  Every other node keeps its kind, its span and
  its slots, but for the bare names below it.

  Main results:
    • `resolveIn_mk` — what resolving makes of a node,
    • `Everywhere.resolveIn` — a property that does not tell bare names from calls is kept.
-/
import Mathlib.Data.List.Forall2
import RubySyntax.Node.Scope
import RubySyntax.Proofs.Tree.Everywhere

namespace RubySyntax.Node

/-! ## §1. Slots. -/

/-- What resolving can make of a slot. -/
inductive Resolves : Child → Child → Prop where
  | node (names : Names) (n : Node) : Resolves (.node n) (.node (resolveIn names n).1)
  | other (c : Child) (h : c.node? = none) : Resolves c c

/-- What resolving can make of some slots. -/
abbrev SlotsResolve : List Child → List Child → Prop := List.Forall₂ Resolves

/-- Each slot comes from one before. -/
theorem SlotsResolve.exists_of_mem {before after : List Child} (h : SlotsResolve before after)
    {d : Child} (hd : d ∈ after) : ∃ c ∈ before, Resolves c d := by
  induction h with
  | nil => cases hd
  | @cons c d' before after hc _ ih =>
      rcases List.mem_cons.mp hd with rfl | hd
      · exact ⟨c, List.mem_cons_self, hc⟩
      · obtain ⟨c', hc', h⟩ := ih hd
        exact ⟨c', List.mem_cons_of_mem _ hc', h⟩

/-- A node in a slot stays there, resolved. -/
theorem SlotsResolve.getElem?_node {before after : List Child} (h : SlotsResolve before after)
    {i : Nat} {n : Node} (hn : before[i]? = some (.node n)) :
    ∃ names, after[i]? = some (.node (resolveIn names n).1) := by
  induction h generalizing i with
  | nil => cases hn
  | cons hc _ ih =>
      cases i with
      | zero =>
          cases hn
          cases hc with
          | node names n => exact ⟨names, rfl⟩
          | other c h => cases h
      | succ i => exact ih hn

theorem resolves_resolveSlot (names : Names) (c : Child) : Resolves c (resolveSlot names c).1 := by
  cases c with
  | node n => exact .node names n
  | _ => exact .other _ rfl

theorem slotsResolve_resolveSlots (names : Names) (children : List Child) :
    SlotsResolve children (resolveSlots names children).1 := by
  induction children generalizing names with
  | nil => exact .nil
  | cons c rest ih => exact .cons (resolves_resolveSlot names c) (ih _)

theorem slotsResolve_resolveBody (enter : Names → Names) (slot : Nat) (names : Names)
    (children : List Child) :
    SlotsResolve children (resolveBody enter slot names children).1 := by
  induction children generalizing slot names with
  | nil => cases slot <;> exact .nil
  | cons c rest ih =>
      cases slot with
      | zero => exact .cons (resolves_resolveSlot _ c) (slotsResolve_resolveSlots _ rest)
      | succ slot => exact .cons (resolves_resolveSlot _ c) (ih slot _)

/-! ## §2. Nodes. -/

theorem Kind.eq_lvar_of_binding {kind : Kind} (h : kind.binding = .reference) : kind = .lvar := by
  cases kind <;> first | rfl | cases h

/-- What resolving makes of a node: a bare name stays as it is or becomes a call, and any other
node keeps its kind and its span. -/
theorem resolveIn_mk (names : Names) (kind : Kind) (children : List Child) (span : Span) :
    (kind = .lvar ∧ ((resolveIn names (.mk kind children span)).1 = .mk .lvar children span ∨
      (resolveIn names (.mk kind children span)).1 = .mk .send (.absent :: children) span)) ∨
    (kind ≠ .lvar ∧ ∃ slots, SlotsResolve children slots ∧
      (resolveIn names (.mk kind children span)).1 = .mk kind slots span) := by
  by_cases hkind : kind = .lvar
  · -- a name that is not bound is a call without a receiver
    subst hkind
    refine .inl ⟨rfl, ?_⟩
    show resolveName children span names = _ ∨ resolveName children span names = _
    unfold resolveName
    split
    · split
      · exact .inl rfl
      · exact .inr rfl
    · exact .inr rfl
  · -- the other kinds differ only in the names that their slots see
    refine .inr ⟨hkind, ?_⟩
    unfold resolveIn
    split
    next hbinding => exact absurd (Kind.eq_lvar_of_binding hbinding) hkind
    next => exact ⟨_, slotsResolve_resolveSlots _ _, rfl⟩
    next => exact ⟨_, slotsResolve_resolveBody _ _ _ _, rfl⟩
    next => exact ⟨_, slotsResolve_resolveBody _ _ _ _, rfl⟩
    next => exact ⟨_, slotsResolve_resolveBody _ _ _ _, rfl⟩
    next => exact ⟨_, slotsResolve_resolveSlots _ _, rfl⟩
    next => exact ⟨_, slotsResolve_resolveSlots _ _, rfl⟩

theorem kind_resolveIn (names : Names) (n : Node) :
    (resolveIn names n).1.kind = n.kind ∨
      n.kind = .lvar ∧ (resolveIn names n).1.kind = .send := by
  cases n with
  | mk kind children span =>
      rcases resolveIn_mk names kind children span with ⟨rfl, h | h⟩ | ⟨-, slots, -, h⟩
      · exact .inl (by simp [h, Node.kind])
      · exact .inr ⟨rfl, by simp [h, Node.kind]⟩
      · exact .inl (by simp [h, Node.kind])

@[simp]
theorem span_resolveIn (names : Names) (n : Node) : (resolveIn names n).1.span = n.span := by
  cases n with
  | mk kind children span =>
      rcases resolveIn_mk names kind children span with ⟨rfl, h | h⟩ | ⟨-, slots, -, h⟩
      · simp [h, Node.span]
      · simp [h, Node.span]
      · simp [h, Node.span]

/-! ## §3. Trees. -/

/-- **A property that does not tell bare names from calls is kept** by resolving names. -/
theorem Everywhere.resolveIn {P : Node → Prop}
    (hslots : ∀ kind before after span, SlotsResolve before after →
      P (.mk kind before span) → P (.mk kind after span))
    (hname : ∀ children span, P (.mk .lvar children span) →
      P (.mk .send (.absent :: children) span)) {n : Node} (h : Everywhere P n) :
    ∀ names, Everywhere P (n.resolveIn names).1 := by
  induction h with
  | @mk kind children span here below ih =>
      intro names
      rcases resolveIn_mk names kind children span with ⟨rfl, h | h⟩ | ⟨-, slots, hslots', h⟩
      · rw [h]
        exact .mk here below
      · rw [h]
        refine .mk (hname children span here) fun n hn => ?_
        rcases List.mem_cons.mp hn with hn | hn
        · cases hn
        · exact below n hn
      · rw [h]
        refine .mk (hslots kind children slots span hslots' here) fun n hn => ?_
        obtain ⟨c, hc, hresolves⟩ := SlotsResolve.exists_of_mem hslots' hn
        cases hresolves with
        | node names n => exact ih n hc names
        | other c h => exact below n hc

end RubySyntax.Node
