/-
  RubySyntax.Proofs.Tree.Account
  ──────────────────────────────
  **WHAT IS READ ACCOUNTS FOR THE TOKENS IT IS READ FROM.**

  The marks of the tokens of a construct are those of its node, except that a block argument gets
  lost, with all that is in it, if another one follows.  Then its ampersand is lost too, and each
  number in it stands between two ampersands.  A value that is no node yet, such as a list of
  arguments or the parts of a block, accounts for its tokens by the nodes in it, and a function by
  what it makes of the next value.

  On the way a second thing is shown of nodes.  A call without a receiver and arguments looks like
  the call that a name becomes, but stands where no plain name does; only the call that takes a
  block was made from a name.

  Main results:
    • `Conserved.node` — a new node accounts for what its slots account for,
    • `conserved_children` — the slots of a node account for what the node accounts for.
-/
import RubySyntax.Grammar.Program
import RubySyntax.Proofs.Tree.Mark
import RubySyntax.Proofs.Tree.Place
import Mathlib.Tactic.Abel

namespace RubySyntax

/-! ## §1. Marks. -/

/-- An ampersand that marks an argument or a parameter begins at an offset. -/
def MarkedAt (tokens : List Token) (offset : Nat) : Prop :=
  ∃ t ∈ tokens, t.kind = .tAMPER ∧ t.span.start = offset

/-- Marks that may get lost: each number is between two ampersands, and with it the first of them
is lost. -/
def Losable (tokens : List Token) (lost : Multiset Mark) : Prop :=
  ∀ span, .number span ∈ lost → ∃ first second,
    (MarkedAt tokens first ∧ first ≤ span.start ∧ .ampersand first ∈ lost) ∧
      MarkedAt tokens second ∧ span.stop ≤ second

/-- Marks account for others, if the rest of these may get lost. -/
def Accounts (tokens : List Token) (all kept : Multiset Mark) : Prop :=
  ∃ lost, all = kept + lost ∧ Losable tokens lost

section Marks

variable {tokens : List Token} {x y s t : Multiset Mark}

theorem Losable.add (hx : Losable tokens x) (hy : Losable tokens y) : Losable tokens (x + y) := by
  intro span hspan
  rcases Multiset.mem_add.mp hspan with hspan | hspan
  · obtain ⟨first, second, ⟨hmarked, hle, hmem⟩, hsecond⟩ := hx span hspan
    exact ⟨first, second, ⟨hmarked, hle, Multiset.mem_add.mpr (.inl hmem)⟩, hsecond⟩
  · obtain ⟨first, second, ⟨hmarked, hle, hmem⟩, hsecond⟩ := hy span hspan
    exact ⟨first, second, ⟨hmarked, hle, Multiset.mem_add.mpr (.inr hmem)⟩, hsecond⟩

theorem losable_of_no_number (h : ∀ span, .number span ∉ x) : Losable tokens x :=
  fun span hspan => absurd hspan (h span)

theorem Accounts.refl (x : Multiset Mark) : Accounts tokens x x :=
  ⟨0, (add_zero x).symm, nofun⟩

theorem Accounts.add (hs : Accounts tokens x s) (ht : Accounts tokens y t) :
    Accounts tokens (x + y) (s + t) := by
  obtain ⟨lost, rfl, hlost⟩ := hs
  obtain ⟨lost', rfl, hlost'⟩ := ht
  exact ⟨lost + lost', add_add_add_comm _ _ _ _, hlost.add hlost'⟩

/-- More may get lost. -/
theorem Accounts.lose (h : Accounts tokens x (s + t)) (ht : Losable tokens t) :
    Accounts tokens x s := by
  obtain ⟨lost, rfl, hlost⟩ := h
  exact ⟨t + lost, add_assoc _ _ _, ht.add hlost⟩

end Marks

namespace Node

/-! ## §2. Nodes. -/

/-- Whether a node is a call without a receiver and arguments. -/
def isBareCall : Node → Bool
  | .mk .send [.absent, .symbol _] _ => true
  | _ => false

/-- A call without a receiver and arguments where a plain name stands. -/
def Disguised (tokens : List Token) (n : Node) : Prop :=
  n.isBareCall = true ∧ ∃ t ∈ tokens, t.kind = .tIDENTIFIER ∧ t.span = n.span

/-- Whether a node, if it is a bare name or word that a call can be made from, has no node in its
slots. -/
def isPlain : Node → Bool
  | .mk .lvar children _ | .mk .zsuper children _ => children.all fun c => c.node?.isNone
  | _ => true

/-- Whether a node has no mark, is no bare call, and has no node in its slots where a name has
none. -/
def isOrdinary (n : Node) : Bool :=
  !n.kind.isNumber && !n.kind.isBlockArgument && !n.isBareCall && n.isPlain

/-- Whether a node of a kind has no mark and takes no block, so that its slots stand for it. -/
def Kind.isDivisible (kind : Kind) : Bool :=
  !kind.isNumber && !kind.isBlockArgument && kind != .block && kind != .numblock

/-- A node that is no call where a plain name stands, and has no more slots than a name. -/
structure Sound (tokens : List Token) (n : Node) : Prop where
  undisguised : ¬ n.Disguised tokens
  plain : n.isPlain = true

/-- The slots of a node, but for the call that takes a block. -/
def operands (n : Node) : List Child :=
  if n.kind = .block ∨ n.kind = .numblock then n.children.tail else n.children

/-- Every operand of a node is sound. -/
def Open (tokens : List Token) (n : Node) : Prop := SlotsAll (Sound tokens) n.operands

/-- A sound node with sound operands everywhere in it. -/
structure Honest (tokens : List Token) (n : Node) : Prop where
  root : n.Sound tokens
  below : Everywhere (Open tokens) n

/-- Some nodes account for some marks. -/
structure Carries (tokens : List Token) (x : Multiset Mark) (ns : Multiset Node) : Prop where
  accounts : Accounts tokens x (marksOf ns)
  honest : ∀ n ∈ ns, n.Honest tokens

/-- What some nodes account for, others account for. -/
def Conserved (tokens : List Token) (before after : Multiset Node) : Prop :=
  ∀ x, Carries tokens x before → Carries tokens x after

section Nodes

variable {tokens : List Token} {x y : Multiset Mark} {ns ns' ms ms' : Multiset Node} {n : Node}
  {kind : Kind} {children : List Child} {span : Span}

theorem carries_zero (h : ∀ span, .number span ∉ x) : Carries tokens x 0 :=
  ⟨⟨x, (zero_add x).symm, losable_of_no_number h⟩, fun n hn => absurd hn (Multiset.notMem_zero n)⟩

theorem Carries.add (h : Carries tokens x ns) (h' : Carries tokens y ms) :
    Carries tokens (x + y) (ns + ms) := by
  refine ⟨?_, fun n hn => ?_⟩
  · rw [marksOf_add]
    exact h.accounts.add h'.accounts
  · exact (Multiset.mem_add.mp hn).elim (h.honest n) (h'.honest n)

/-- Of what two groups of nodes account for, each accounts for a part. -/
theorem Carries.split (h : Carries tokens x (ns + ms)) :
    ∃ y z, x = y + z ∧ Carries tokens y ns ∧ Carries tokens z ms := by
  obtain ⟨⟨lost, rfl, hlost⟩, hhonest⟩ := h
  refine ⟨marksOf ns + lost, marksOf ms, ?_, ⟨⟨lost, rfl, hlost⟩, fun n hn => ?_⟩,
    ⟨.refl _, fun n hn => ?_⟩⟩
  · rw [marksOf_add, add_right_comm]
  · exact hhonest n (Multiset.mem_add.mpr (.inl hn))
  · exact hhonest n (Multiset.mem_add.mpr (.inr hn))

theorem Conserved.refl (ns : Multiset Node) : Conserved tokens ns ns := fun _ h => h

theorem conserved_of_eq (h : ns = ms) : Conserved tokens ns ms := h ▸ .refl ns

theorem Conserved.trans (h : Conserved tokens ns ms) (h' : Conserved tokens ms ms') :
    Conserved tokens ns ms' := fun x hx => h' x (h x hx)

theorem Conserved.add (h : Conserved tokens ns ns') (h' : Conserved tokens ms ms') :
    Conserved tokens (ns + ms) (ns' + ms') := by
  intro x hx
  obtain ⟨y, z, rfl, hy, hz⟩ := hx.split
  exact (h y hy).add (h' z hz)

/-- A node without slots for nodes is as good as nothing, if it has no mark. -/
theorem Conserved.cons (h : Conserved tokens 0 ns) (h' : Conserved tokens ms ms') :
    Conserved tokens ms (ns + ms') := by
  have := h.add h'
  rwa [zero_add] at this

theorem mem_children_of_operands {c : Child} (h : c ∈ n.operands) : c ∈ n.children := by
  unfold operands at h
  split at h
  · exact List.mem_of_mem_tail h
  · exact h

theorem sound_of_not_bare (hbare : n.isBareCall = false) (hplain : n.isPlain = true) :
    n.Sound tokens := by
  refine ⟨fun hdisguised => ?_, hplain⟩
  rw [hdisguised.1] at hbare
  cases hbare

theorem Kind.marks_eq_zero (hnumber : kind.isNumber = false)
    (hargument : kind.isBlockArgument = false) : kind.marks span = 0 := by
  rw [Kind.marks, hnumber, hargument, if_neg Bool.false_ne_true, if_neg Bool.false_ne_true]

theorem of_isOrdinary (h : (Node.mk kind children span).isOrdinary = true) :
    kind.marks span = 0 ∧ (Node.mk kind children span).isBareCall = false ∧
      (Node.mk kind children span).isPlain = true := by
  simp only [isOrdinary, Node.kind, Bool.and_eq_true, Bool.not_eq_true'] at h
  obtain ⟨⟨⟨hnumber, hargument⟩, hbare⟩, hplain⟩ := h
  exact ⟨Kind.marks_eq_zero hnumber hargument, hbare, hplain⟩

theorem Kind.of_isDivisible (h : kind.isDivisible = true) :
    kind.marks span = 0 ∧ ¬ (kind = .block ∨ kind = .numblock) := by
  simp only [Kind.isDivisible, Bool.and_eq_true, Bool.not_eq_true', bne_iff_ne] at h
  obtain ⟨⟨⟨hnumber, hargument⟩, hblock⟩, hnumblock⟩ := h
  exact ⟨Kind.marks_eq_zero hnumber hargument, not_or.mpr ⟨hblock, hnumblock⟩⟩

theorem honest_mk (hsound : (Node.mk kind children span).Sound tokens)
    (h : SlotsAll (Honest tokens) children) : (Node.mk kind children span).Honest tokens :=
  ⟨hsound, .mk (fun m hm => (h m (mem_children_of_operands hm)).root) fun m hm => (h m hm).below⟩

/-- A new node accounts for what its slots account for, and for its own mark. -/
theorem Carries.mark (h : Carries tokens x (nodesIn children))
    (hsound : (Node.mk kind children span).Sound tokens) :
    Carries tokens (kind.marks span + x) {Node.mk kind children span} := by
  obtain ⟨haccounts, hhonest⟩ := h
  refine ⟨?_, fun n hn => ?_⟩
  · rw [marksOf_singleton, marks_mk]
    exact (Accounts.refl _).add haccounts
  · obtain rfl := Multiset.mem_singleton.mp hn
    exact honest_mk hsound fun m hm => hhonest m (mem_nodesIn.mpr hm)

end Nodes

end Node

open Node

/-! ## §3. Values. -/

/-- The nodes in a value, and what is known of the value besides. -/
class Parts (α : Type) where
  nodes : α → Multiset Node
  fit : List Token → α → Prop := fun _ _ => True
  /-- What is known of values that follow each other. -/
  row : List Token → List α → Prop := fun tokens as => ∀ a ∈ as, fit tokens a

export Parts (nodes fit)

/-- Values that account for marks. -/
class Held (α : Type) where
  /-- A value accounts for some marks. -/
  Holds : List Token → Multiset Mark → α → Prop
  /-- A value accounts for all that some nodes account for. -/
  Built : List Token → Multiset Node → α → Prop
  of_built : ∀ {tokens x ns a}, Built tokens ns a → Carries tokens x ns → Holds tokens x a
  /-- What leaves no trace may stand behind the value. -/
  ignore : ∀ {tokens x y a}, Holds tokens x a → Carries tokens y 0 → Holds tokens (x + y) a

export Held (Holds Built)

instance {α : Type} [Parts α] : Held α where
  Holds tokens x a := Carries tokens x (nodes a) ∧ fit tokens a
  Built tokens ns a := Conserved tokens ns (nodes a) ∧ fit tokens a
  of_built h hx := ⟨h.1 _ hx, h.2⟩
  ignore h hy := by
    refine ⟨?_, h.2⟩
    have := h.1.add hy
    rwa [add_zero] at this

/-- A function accounts for some marks if, with what it is applied to, its value does. -/
instance {α β : Type} [Parts α] [Held β] : Held (α → β) where
  Holds tokens x f := ∀ y a, Holds tokens y a → Holds tokens (x + y) (f a)
  Built tokens ns f := ∀ a, fit tokens a → Built tokens (ns + nodes a) (f a)
  of_built h hx y a ha := Held.of_built (h a ha.2) (hx.add ha.1)
  ignore h hz y a ha := by
    rw [add_right_comm]
    exact Held.ignore (h y a ha) hz

instance : Parts Token where
  nodes _ := 0

instance : Parts Unit where
  nodes _ := 0

instance : Parts Bool where
  nodes _ := 0

instance : Parts Node where
  nodes n := {n}

instance {α : Type} [Parts α] : Parts (List α) where
  nodes as := (as.map nodes).sum
  fit := Parts.row

instance {α : Type} [Parts α] : Parts (Option α) where
  nodes o := (o.map nodes).getD 0
  fit tokens o := ∀ a ∈ o, fit tokens a

instance {α β : Type} [Parts α] [Parts β] : Parts (α × β) where
  nodes p := nodes p.1 + nodes p.2
  fit tokens p := fit tokens p.1 ∧ fit tokens p.2

theorem Node.Argument.node_of_blockPass? {a : Argument} {n : Node} (h : n ∈ a.blockPass?) :
    a.node = n := by
  cases a <;> cases h
  rfl

/-- A block argument begins with its ampersand, and the numbers in it are within its span. -/
structure Node.IsPassed (tokens : List Token) (n : Node) : Prop where
  marked : MarkedAt tokens n.span.start
  mem_marks : .ampersand n.span.start ∈ n.marks
  contains : ∀ span, .number span ∈ n.marks → n.span.Contains span

/-- The marks of a block argument may get lost if another one follows. -/
instance : Parts Argument where
  nodes a := {a.node}
  fit tokens a := ∀ n ∈ a.blockPass?, n.IsPassed tokens
  row tokens as :=
    as.Pairwise fun a b => ∀ n ∈ a.blockPass?, ∀ m ∈ b.blockPass?, Losable tokens n.marks

instance : Parts Chain where
  nodes c := {c.node}

instance : Parts StringPart where
  nodes
    | .plain _ => 0
    | .interpolation _ body _ => nodes body

instance : Parts MethodHead where
  nodes head := nodes head.receiver

instance : Parts BlockParts where
  nodes parts := nodes parts.params + nodes parts.body

instance : Parts Suffix where
  nodes
    | .method _ _ args => nodes args
    | .unnamed _ args => nodes args
    | .constant _ => 0
    | .index args _ => nodes args
    | .block parts => nodes parts
  fit tokens
    | .method _ _ args => fit tokens args
    | .unnamed _ args => fit tokens args
    | .index args _ => fit tokens args
    | .constant _ | .block _ => True

/-- Of values that follow each other no more is known than of each of them. -/
class Loose (α : Type) [Parts α] : Prop where
  fit_iff : ∀ {tokens : List Token} {as : List α}, fit tokens as ↔ ∀ a ∈ as, fit tokens a

instance : Loose Token := ⟨Iff.rfl⟩

instance : Loose Node := ⟨Iff.rfl⟩

instance : Loose StringPart := ⟨Iff.rfl⟩

instance : Loose Suffix := ⟨Iff.rfl⟩

instance {α β : Type} [Parts α] [Parts β] : Loose (α × β) := ⟨Iff.rfl⟩

section Parts

variable {α β : Type} [Parts α] [Parts β]

theorem nodes_node (n : Node) : nodes n = {n} := rfl

@[simp]
theorem nodeIn_eq_nodes (n : Node) : nodeIn (.node n) = nodes n := rfl

theorem nodes_argument (a : Argument) : nodes a = nodes a.node := rfl

@[simp]
theorem nodes_chain (c : Chain) : nodes c = nodes c.node := rfl

@[simp]
theorem nodes_pair (a : α) (b : β) : nodes (a, b) = nodes a + nodes b := rfl

@[simp]
theorem nodes_plain (t : Token) : nodes (StringPart.plain t) = 0 := rfl

@[simp]
theorem nodes_interpolation (opening : Token) (body : List Node) (closing : Token) :
    nodes (StringPart.interpolation opening body closing) = nodes body := rfl

@[simp]
theorem nodes_method (dot name : Token) (args : Option ParenArguments) :
    nodes (Suffix.method dot name args) = nodes args := rfl

@[simp]
theorem nodes_unnamed (dot : Token) (args : ParenArguments) :
    nodes (Suffix.unnamed dot args) = nodes args := rfl

@[simp]
theorem nodes_constant (name : Token) : nodes (Suffix.constant name) = 0 := rfl

@[simp]
theorem nodes_index (args : List Argument) (closing : Token) :
    nodes (Suffix.index args closing) = nodes args := rfl

@[simp]
theorem nodes_block (parts : BlockParts) : nodes (Suffix.block parts) = nodes parts := rfl

theorem nodes_parts (parts : BlockParts) : nodes parts = nodes parts.params + nodes parts.body := rfl

theorem nodes_head (head : MethodHead) : nodes head = nodes head.receiver := rfl

@[simp]
theorem nodes_none : nodes (none : Option α) = 0 := rfl

@[simp]
theorem nodes_some (a : α) : nodes (some a) = nodes a := rfl

@[simp]
theorem nodes_nil : nodes ([] : List α) = 0 := rfl

@[simp]
theorem nodes_cons (a : α) (as : List α) : nodes (a :: as) = nodes a + nodes as := rfl

@[simp]
theorem nodes_append (as bs : List α) : nodes (as ++ bs) = nodes as + nodes bs := by
  induction as with
  | nil => rw [List.nil_append, nodes_nil, zero_add]
  | cons a as ih => rw [List.cons_append, nodes_cons, nodes_cons, ih, add_assoc]

@[simp]
theorem nodes_toList (o : Option α) : nodes o.toList = nodes o := by
  cases o with
  | none => rfl
  | some a => exact add_zero (nodes a)

@[simp]
theorem nodes_join (o : Option (Option α)) : nodes o.join = nodes o := by
  cases o <;> rfl

@[simp]
theorem nodesIn_slots (ns : List Node) : nodesIn (slots ns) = nodes ns := by
  induction ns with
  | nil => rfl
  | cons n ns ih => rw [slots_cons, nodesIn_cons, ih, nodeIn_eq_nodes, nodes_cons]

@[simp]
theorem nodeIn_ofOption (o : Option Node) : nodeIn (.ofOption o) = nodes o := by
  cases o <;> rfl

end Parts

section Nodes

variable {tokens : List Token} {ns : Multiset Node} {kind : Kind} {children : List Child}
  {span : Span}

/-- A new node accounts for what its slots account for, if it is sound and has no mark. -/
theorem Node.Conserved.sound (h : Conserved tokens ns (nodesIn children))
    (hsound : (Node.mk kind children span).Sound tokens) (hmarks : kind.marks span = 0) :
    Conserved tokens ns (nodes (Node.mk kind children span)) := by
  intro x hx
  have hbuilt := (h x hx).mark hsound
  rwa [hmarks, zero_add] at hbuilt

/-- **A new node accounts for what its slots account for**, if it is an ordinary one. -/
theorem Node.Conserved.node (h : Conserved tokens ns (nodesIn children))
    (hordinary : (Node.mk kind children span).isOrdinary = true) :
    Conserved tokens ns (nodes (Node.mk kind children span)) := by
  obtain ⟨hmarks, hbare, hplain⟩ := of_isOrdinary hordinary
  exact h.sound (sound_of_not_bare hbare hplain) hmarks

/-- **The slots of a node account for what the node accounts for**, if it has no mark of its own
and takes no block. -/
theorem Node.conserved_children (h : kind.isDivisible = true) :
    Conserved tokens (nodes (Node.mk kind children span)) (nodesIn children) := by
  obtain ⟨hmarks, hkind⟩ := Kind.of_isDivisible h
  rintro x ⟨haccounts, hhonest⟩
  obtain ⟨-, hbelow⟩ := hhonest _ (Multiset.mem_singleton_self _)
  have hoperands : operands (.mk kind children span) = children := if_neg hkind
  refine ⟨?_, fun m hm => ?_⟩
  · rwa [nodes_node, marksOf_singleton, marks_mk, hmarks, zero_add] at haccounts
  · have hm := mem_nodesIn.mp hm
    refine ⟨hbelow.here m ?_, hbelow.child hm⟩
    rwa [hoperands]

end Nodes

/-- Values without nodes. -/
class NodeFree (α : Type) [Parts α] : Prop where
  nodes_eq : ∀ a : α, nodes a = 0

instance : NodeFree Token := ⟨fun _ => rfl⟩

instance : NodeFree Unit := ⟨fun _ => rfl⟩

instance : NodeFree Bool := ⟨fun _ => rfl⟩

@[simp]
theorem nodes_free {α : Type} [Parts α] [NodeFree α] (a : α) : nodes a = 0 := NodeFree.nodes_eq a

instance {α : Type} [Parts α] [NodeFree α] : NodeFree (List α) := ⟨fun as => by
  induction as with
  | nil => rfl
  | cons a as ih => rw [nodes_cons, NodeFree.nodes_eq, ih, zero_add]⟩

instance {α : Type} [Parts α] [NodeFree α] : NodeFree (Option α) := ⟨fun o => by
  cases o with
  | none => rfl
  | some a => exact NodeFree.nodes_eq a⟩

end RubySyntax
