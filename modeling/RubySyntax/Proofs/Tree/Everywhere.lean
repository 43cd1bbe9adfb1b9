/-
  RubySyntax.Proofs.Tree.Everywhere
  ─────────────────────────────────
  **PROPERTIES OF ALL NODES OF A TREE.**

  A property holds everywhere in a tree if it holds of the root and everywhere below it.  Trees
  are built from the leaves, and so are the proofs of what holds everywhere: `Everywhere.mk` asks
  for the new node alone, given its slots.

  Main results:
    • `Node.ind` — induction on a tree by the nodes in its slots,
    • `everywhere_iff_preorder` — what holds everywhere holds of each node of the preorder.
-/
import RubySyntax.Node.Build.Call

namespace RubySyntax.Node

/-! ## §1. Induction on trees. -/

/-- The size of a node in a slot is less than that of the node. -/
theorem size_lt_of_mem {n : Node} :
    ∀ {children : List Child}, Child.node n ∈ children → n.size ≤ childrenSize children
  | c :: rest, h => by
      rw [childrenSize]
      rcases List.mem_cons.mp h with rfl | h
      · rw [childSize]
        omega
      · have := size_lt_of_mem h
        omega

/-- Induction on a tree: a property of the nodes in the slots passes to the node. -/
theorem ind {motive : Node → Prop}
    (mk : ∀ kind children span, (∀ n, Child.node n ∈ children → motive n) →
      motive (.mk kind children span)) : ∀ n, motive n
  | .mk kind children span => mk kind children span fun n _hn => ind mk n
termination_by n => n.size
decreasing_by
  have := size_lt_of_mem _hn
  rw [size]
  omega

/-! ## §2. Properties that hold everywhere. -/

/-- A property holds of a node and of all nodes below it. -/
inductive Everywhere (P : Node → Prop) : Node → Prop where
  | mk {kind : Kind} {children : List Child} {span : Span} (here : P (.mk kind children span))
      (below : ∀ n, Child.node n ∈ children → Everywhere P n) :
      Everywhere P (.mk kind children span)

variable {P Q : Node → Prop}

theorem Everywhere.here : ∀ {n : Node}, Everywhere P n → P n
  | .mk .., .mk here _ => here

theorem Everywhere.child :
    ∀ {n m : Node}, Everywhere P n → Child.node m ∈ n.children → Everywhere P m
  | .mk .., m, .mk _ below, hm => below m hm

theorem Everywhere.imp {n : Node} (h : Everywhere P n) (hPQ : ∀ m, P m → Q m) :
    Everywhere Q n := by
  induction h with
  | mk here below ih => exact .mk (hPQ _ here) ih

/-! ## §3. Slots. -/

/-- A property holds of the nodes in some slots. -/
def SlotsAll (P : Node → Prop) (children : List Child) : Prop :=
  ∀ n, Child.node n ∈ children → P n

@[simp]
theorem slotsAll_nil : SlotsAll P [] := fun _ h => absurd h List.not_mem_nil

@[simp]
theorem slotsAll_cons {c : Child} {rest : List Child} :
    SlotsAll P (c :: rest) ↔ (∀ n, c = .node n → P n) ∧ SlotsAll P rest := by
  constructor
  · intro h
    exact ⟨fun n hn => h n (hn ▸ List.mem_cons_self), fun n hn => h n (List.mem_cons_of_mem _ hn)⟩
  · rintro ⟨hc, hrest⟩ n hn
    rcases List.mem_cons.mp hn with hn | hn
    · exact hc n hn.symm
    · exact hrest n hn

@[simp]
theorem slotsAll_append {a b : List Child} :
    SlotsAll P (a ++ b) ↔ SlotsAll P a ∧ SlotsAll P b := by
  induction a with
  | nil => simp
  | cons c rest ih => rw [List.cons_append, slotsAll_cons, slotsAll_cons, ih, and_assoc]

@[simp]
theorem slots_nil : slots [] = [] := rfl

@[simp]
theorem slots_cons (n : Node) (ns : List Node) : slots (n :: ns) = .node n :: slots ns := rfl

@[simp]
theorem slots_append (ns ms : List Node) : slots (ns ++ ms) = slots ns ++ slots ms :=
  List.map_append

@[simp]
theorem slotsAll_slots {ns : List Node} : SlotsAll P (slots ns) ↔ ∀ n ∈ ns, P n := by
  simp [SlotsAll, slots]

theorem forall_mem_some {α : Type} {P : α → Prop} {a : α} (h : P a) : ∀ b ∈ some a, P b := by
  rintro b ⟨⟩
  exact h

@[simp]
theorem ofOption_eq_node {o : Option Node} {n : Node} :
    Child.ofOption o = .node n ↔ o = some n := by
  cases o <;> simp [Child.ofOption]

theorem childNode?_eq_some {n m : Node} {i : Nat} :
    n.childNode? i = some m ↔ n.children[i]? = some (.node m) := by
  unfold childNode? child?
  cases n.children[i]? with
  | none => simp
  | some c => cases c <;> simp [Child.node?]

/-! ## §4. Argument lists. -/

/-- The node of an argument. -/
def Argument.node : Argument → Node
  | .positional n | .pair n | .blockPass n => n

/-- The nodes of an argument list are those of its elements, except that the pairs are grouped in
one node. -/
theorem mem_groupPairs {kind : Kind} {items : List Argument} {n : Node}
    (h : n ∈ groupPairs kind items) :
    (∃ a ∈ items, a.node = n) ∨ ∃ pairs, pairs ≠ [] ∧ (∀ p ∈ pairs, ∃ a ∈ items, a.node = p) ∧
      n = .mk kind (slots pairs) (cover pairs) := by
  have hpositional : ∀ some_ : List Argument, (∀ a ∈ some_, a ∈ items) →
      n ∈ some_.filterMap (·.positional?) → ∃ a ∈ items, a.node = n := by
    intro some_ hsome hn
    obtain ⟨a, ha, hn⟩ := List.mem_filterMap.mp hn
    cases a <;> cases hn
    exact ⟨_, hsome _ ha, rfl⟩
  simp only [groupPairs, List.mem_append] at h
  -- in the order of the list: what stands before the pairs, the pairs, what follows them, the block
  rcases h with ((h | h) | h) | h
  · exact .inl (hpositional _ (fun a ha => (List.takeWhile_sublist _).subset ha) h)
  · split at h
    · cases h
    next hempty =>
      refine .inr ⟨items.filterMap (·.pair?), ?_, ?_, List.mem_singleton.mp h⟩
      · rwa [List.isEmpty_iff] at hempty
      · intro p hp
        obtain ⟨a, ha, hp⟩ := List.mem_filterMap.mp hp
        cases a <;> cases hp
        exact ⟨_, ha, rfl⟩
  · exact .inl (hpositional _ (fun a ha => (List.dropWhile_sublist _).subset ha) h)
  · obtain ⟨a, ha, hn⟩ :=
      List.mem_filterMap.mp (List.mem_of_getLast? (Option.mem_toList.mp h))
    cases a <;> cases hn
    exact .inl ⟨_, ha, rfl⟩

@[simp]
theorem Chain.opened_node (n : Node) : (Chain.opened n).node = n := rfl

@[simp]
theorem Chain.closed_node (n : Node) : (Chain.closed n).node = n := rfl

/-! ## §5. The preorder. -/

theorem mem_childrenRows {depth : Nat} {row : Row} :
    ∀ {children : List Child},
      row ∈ childrenRows depth children ↔ ∃ c ∈ children, row ∈ childRows depth c
  | [] => by simp [childrenRows]
  | c :: rest => by
      rw [childrenRows, List.mem_append, mem_childrenRows]
      simp

theorem everywhere_iff_rows (n : Node) :
    ∀ depth, Everywhere P n ↔ ∀ row ∈ n.rows depth, ∀ m, row.slot = .node m → P m := by
  induction n using ind with
  | mk kind children span ih =>
      intro depth
      rw [rows]
      constructor
      · rintro (⟨here, below⟩) row hrow m hm
        rcases List.mem_cons.mp hrow with rfl | hrow
        · cases hm
          exact here
        · obtain ⟨c, hc, hrow⟩ := mem_childrenRows.mp hrow
          cases c with
          | node n => exact (ih n hc (depth + 1)).mp (below n hc) row hrow m hm
          | _ =>
              rw [childRows, List.mem_singleton] at hrow
              · subst hrow
                cases hm
              · exact fun _ h => nomatch h
      · intro h
        refine .mk (h _ List.mem_cons_self _ rfl) fun n hn => ?_
        refine (ih n hn (depth + 1)).mpr fun row hrow m hm => ?_
        exact h row (List.mem_cons_of_mem _ (mem_childrenRows.mpr ⟨_, hn, hrow⟩)) m hm

/-- **What holds everywhere holds of each node of the preorder**, and conversely. -/
theorem everywhere_iff_preorder {n : Node} : Everywhere P n ↔ ∀ m ∈ n.preorder, P m := by
  rw [everywhere_iff_rows n 0]
  constructor
  · intro h m hm
    obtain ⟨row, hrow, hm⟩ := List.mem_filterMap.mp hm
    apply h row hrow m
    cases hslot : row.slot <;> rw [hslot] at hm <;> cases hm
    rfl
  · intro h row hrow m hm
    refine h m (List.mem_filterMap.mpr ⟨row, hrow, ?_⟩)
    rw [hm, Child.node?]

end RubySyntax.Node
