/-
  RubySyntax.Proofs.Tree.Account.Build
  ────────────────────────────────────
  **BUILDING NODES LOSES NOTHING BUT BLOCK ARGUMENTS.**

  Each function that makes nodes conserves what it is given: what its parts account for, its
  result accounts for.  Parts are moved, regrouped, taken apart and put together again; only
  where an argument list has several block arguments all but the last of them get lost.

  Main results:
    • `groupPairs_conserved` — an argument list loses block arguments at most,
    • `condition_conserved`, `target?_conserved` — what changes its kind keeps its marks,
    • `withBlock_conserved`, `applySuffixes?_conserved`, `command?_conserved` — calls grow,
    • `bodyStatements_conserved` — the clauses of a body are all kept.
-/
import RubySyntax.Proofs.Tree.Account
import RubySyntax.Node.Build.Control
import RubySyntax.Node.Build.Pattern
import RubySyntax.Proofs.Tree.Kept

namespace RubySyntax.Node

variable {tokens : List Token} {before ms : Multiset Node} {n m : Node} {kind : Kind}
  {children : List Child} {span : Span}

/-! ## §1. Leaves. -/

/-- A node without slots for nodes and without a mark is as good as nothing. -/
theorem leaf_conserved (h : nodesIn children = 0)
    (hordinary : (Node.mk kind children span).isOrdinary = true) :
    Conserved tokens 0 (nodes (Node.mk kind children span)) :=
  .node (conserved_of_eq h.symm) hordinary

theorem symbol_conserved (t : Token) : Conserved tokens 0 (nodes (symbol t)) :=
  leaf_conserved rfl rfl

theorem identifier_conserved (t : Token) : Conserved tokens 0 (nodes (identifier t)) :=
  leaf_conserved rfl rfl

theorem matchVar_conserved (t : Token) : Conserved tokens 0 (nodes (matchVar t)) :=
  leaf_conserved rfl rfl

theorem markedVariable_conserved (t : Token) : Conserved tokens 0 (nodes (markedVariable t)) := by
  unfold markedVariable
  split
  case h_5 =>
    refine leaf_conserved ?_ rfl
    cases ((baseValue? 10 t.value.toList).map Int.ofNat).filter (· ≤ maxInteger) <;> rfl
  all_goals exact leaf_conserved rfl rfl

theorem constant_conserved (scope : Option Node) (name : Token) :
    Conserved tokens (nodes scope) (nodes (constant scope name)) :=
  .node (conserved_of_eq (by simp)) rfl

theorem topConstant_conserved (colons name : Token) :
    Conserved tokens 0 (nodes (topConstant colons name)) :=
  .trans (leaf_conserved rfl rfl) (constant_conserved (some (bare .cbase colons)) name)

theorem methodReceiver_conserved (t : Token) : Conserved tokens 0 (nodes (methodReceiver t)) := by
  unfold methodReceiver
  split
  · exact leaf_conserved rfl rfl
  · exact constant_conserved none t
  · exact identifier_conserved t

/-! ## §2. Strings. -/

theorem ofPart_conserved (part : StringPart) :
    Conserved tokens (nodes part) (nodes (ofPart part)) := by
  cases part with
  | plain t => exact leaf_conserved rfl rfl
  | interpolation opening body closing =>
      exact .node (conserved_of_eq (nodesIn_slots body).symm) rfl

theorem parts_conserved (parts : List StringPart) :
    Conserved tokens (nodes parts) (nodes (parts.map ofPart)) := by
  induction parts with
  | nil => exact .refl _
  | cons part parts ih => exact (ofPart_conserved part).add ih

/-- A string that is one text has no interpolations. -/
theorem nodes_eq_zero_of_plainText? {parts : List StringPart} {text : String}
    (h : plainText? (parts.map ofPart) = some text) : nodes parts = 0 := by
  have hplain : ∀ part ∈ parts, (ofPart part).kind = .str := by
    unfold plainText? at h
    split at h
    next hall =>
      intro part hpart
      simpa using List.all_eq_true.mp hall _ (List.mem_map_of_mem hpart)
    next => cases h
  clear h
  induction parts with
  | nil => rfl
  | cons part parts ih =>
      obtain ⟨hpart, hparts⟩ := List.forall_mem_cons.mp hplain
      rw [nodes_cons, ih hparts, add_zero]
      cases part with
      | plain t => rfl
      | interpolation opening body closing => cases hpart

theorem string_conserved (opening : Token) (parts : List StringPart) (closing : Token) :
    Conserved tokens (nodes parts) (nodes (string opening parts closing)) := by
  simp only [string]
  split
  next text h =>
    rw [nodes_eq_zero_of_plainText? h]
    exact leaf_conserved rfl rfl
  next => exact .node (by simpa using parts_conserved parts) rfl

theorem quotedSymbol_conserved (opening : Token) (parts : List StringPart) (closing : Token) :
    Conserved tokens (nodes parts) (nodes (quotedSymbol opening parts closing)) := by
  simp only [quotedSymbol]
  split
  next text h =>
    rw [nodes_eq_zero_of_plainText? h]
    exact leaf_conserved rfl rfl
  next => exact .node (by simpa using parts_conserved parts) rfl

theorem commandString_conserved (opening : Token) (parts : List StringPart) (closing : Token) :
    Conserved tokens (nodes parts) (nodes (commandString opening parts closing)) :=
  .node (by simpa using parts_conserved parts) rfl

theorem options_conserved (flags : Token) : Conserved tokens 0 (nodes (options flags)) := by
  refine leaf_conserved ?_ rfl
  induction flags.value.toList.mergeSort (· ≤ ·) with
  | nil => rfl
  | cons c cs ih => simpa using ih

theorem regexp_conserved (opening : Token) (parts : List StringPart) (closing flags : Token) :
    Conserved tokens (nodes parts) (nodes (regexp opening parts closing flags)) := by
  have h : Conserved tokens (nodes parts + 0) (nodes (parts.map ofPart) + nodes (options flags)) :=
    (parts_conserved parts).add (options_conserved flags)
  exact .node (by simpa using h) rfl

theorem concatenation_conserved (ns : List Node) :
    Conserved tokens (nodes ns) (nodes (concatenation ns)) := by
  unfold concatenation
  split
  · exact conserved_of_eq (by simp)
  · exact .node (conserved_of_eq (nodesIn_slots _).symm) rfl

theorem ofStatements?_conserved (ns : List Node) :
    Conserved tokens (nodes ns) (nodes (ofStatements? ns)) := by
  unfold ofStatements?
  split
  · exact .refl _
  · exact conserved_of_eq (by simp)
  · exact .node (conserved_of_eq (nodesIn_slots _).symm) rfl

/-! ## §3. Arguments. -/

/-- What may get lost leaves nothing behind. -/
theorem lost_conserved (h : Losable tokens n.marks) : Conserved tokens (nodes n) 0 := by
  rintro x ⟨haccounts, -⟩
  rw [nodes_node, marksOf_singleton] at haccounts
  refine ⟨Accounts.lose (t := n.marks) ?_ h, fun m hm => absurd hm (Multiset.notMem_zero m)⟩
  rwa [marksOf_zero, zero_add]

/-- The nodes of an argument list, by the kinds of its elements. -/
theorem nodes_arguments (items : List Argument) :
    nodes items = nodes (items.filterMap (·.positional?)) + nodes (items.filterMap (·.pair?)) +
      nodes (items.filterMap (·.blockPass?)) := by
  induction items with
  | nil => rfl
  | cons a items ih =>
      rw [nodes_cons, ih]
      cases a <;>
        simp [Argument.positional?, Argument.pair?, Argument.blockPass?, nodes_argument,
          Argument.node, add_assoc, add_left_comm]

/-- Of several block arguments the last one is kept. -/
theorem blockPasses_conserved {blocks : List Node}
    (h : blocks.Pairwise fun n _ => Losable tokens n.marks) :
    Conserved tokens (nodes blocks) (nodes blocks.getLast?) := by
  induction h with
  | nil => exact .refl _
  | @cons n blocks hn _ ih =>
      cases blocks with
      | nil => exact conserved_of_eq (by simp)
      | cons m blocks =>
          rw [List.getLast?_cons_cons]
          have := (lost_conserved (hn m List.mem_cons_self)).add ih
          rwa [zero_add] at this

/-- The pairs of an argument list, as one node if there are some. -/
theorem pairs_conserved (hkind : kind = .kwargs ∨ kind = .hash) (pairs : List Node) :
    Conserved tokens (nodes pairs)
      (nodes (if pairs.isEmpty then [] else [Node.mk kind (slots pairs) (cover pairs)])) := by
  split
  next h =>
    rw [List.isEmpty_iff.mp h]
    exact .refl _
  next =>
    rw [nodes_cons, nodes_nil, add_zero]
    rcases hkind with rfl | rfl <;> exact .node (conserved_of_eq (nodesIn_slots _).symm) rfl

/-- **An argument list loses block arguments at most**: all but the last of them. -/
theorem groupPairs_conserved (hkind : kind = .kwargs ∨ kind = .hash) {items : List Argument}
    (hitems : fit tokens items) :
    Conserved tokens (nodes items) (nodes (groupPairs kind items)) := by
  have hblocks : Conserved tokens (nodes (items.filterMap (·.blockPass?)))
      (nodes (items.filterMap (·.blockPass?)).getLast?) := by
    refine blockPasses_conserved ?_
    rw [List.pairwise_filterMap]
    exact hitems
  have hpositional : nodes (items.filterMap (·.positional?)) =
      nodes ((items.takeWhile (·.pair?.isNone)).filterMap (·.positional?)) +
        nodes ((items.dropWhile (·.pair?.isNone)).filterMap (·.positional?)) := by
    rw [← nodes_append, ← List.filterMap_append, List.takeWhile_append_dropWhile]
  have := ((Conserved.refl (nodes (items.filterMap (·.positional?)))).add
    (pairs_conserved hkind (items.filterMap (·.pair?)))).add hblocks
  rw [← nodes_arguments] at this
  refine this.trans (conserved_of_eq ?_)
  simp only [groupPairs, nodes_append, nodes_toList, hpositional]
  rw [add_right_comm (nodes _)]

theorem arguments_conserved {items : List Argument} (hitems : fit tokens items) :
    Conserved tokens (nodes items) (nodes (arguments items)) :=
  groupPairs_conserved (.inl rfl) hitems

theorem array_conserved (opening : Token) {items : List Argument} (hitems : fit tokens items)
    (closing : Token) : Conserved tokens (nodes items) (nodes (array opening items closing)) := by
  have := groupPairs_conserved (.inr rfl) hitems
  exact .node (by simpa using this) rfl

theorem labelled_conserved (label : Token) (value : Node) :
    Conserved tokens (nodes value) (nodes (labelled label value)) :=
  .node (by simpa using (symbol_conserved label).cons (.refl (nodes value))) rfl

theorem labelAlone_conserved (label : Token) : Conserved tokens 0 (nodes (labelAlone label)) :=
  .node (by simpa using (symbol_conserved label).add (identifier_conserved label)) rfl

theorem pair_conserved (key value : Node) :
    Conserved tokens (nodes key + nodes value) (nodes (pair key value)) :=
  .node (conserved_of_eq (by simp)) rfl

theorem doubleSplat_conserved (op : Token) (value : Node) :
    Conserved tokens (nodes value) (nodes (doubleSplat op value)) :=
  .node (conserved_of_eq (by simp)) rfl

theorem splat_conserved (op : Token) (value : Option Node) :
    Conserved tokens (nodes value) (nodes (splat op value)) :=
  .node (conserved_of_eq (by simp)) rfl

/-! ## §4. Calls. -/

theorem isBareCall_iff : n.isBareCall = true ↔
    n.kind = .send ∧ ∃ name, n.children = [.absent, .symbol name] := by
  constructor
  · intro h
    unfold isBareCall at h
    split at h
    next name span => exact ⟨rfl, name, rfl⟩
    next => cases h
  · obtain ⟨kind, children, span⟩ := n
    rintro ⟨hkind, name, hchildren⟩
    cases hkind
    cases hchildren
    rfl

/-- A call that has a node in a slot is no bare one. -/
theorem isOrdinary_of_mem (hn : Child.node n ∈ children) :
    (Node.mk .send children span).isOrdinary = true := by
  have hbare : (Node.mk .send children span).isBareCall = false := by
    rw [Bool.eq_false_iff]
    intro h
    obtain ⟨-, name, h⟩ := isBareCall_iff.mp h
    rw [show children = [.absent, .symbol name] from h] at hn
    simp at hn
  rw [isOrdinary, hbare]
  rfl

theorem call_conserved (receiver : Node) (dot : Option Token) (name : String) (selector : Span)
    (args : List Node) (closing : Option Span) :
    Conserved tokens (nodes receiver + nodes args)
      (nodes (call (some receiver) dot name selector args closing)) := by
  simp only [call]
  split
  · exact .node (conserved_of_eq (by simp)) rfl
  · exact .node (conserved_of_eq (by simp)) (isOrdinary_of_mem List.mem_cons_self)

theorem methodCall_conserved (receiver : Node) (dot : Token) (name : String) (selector : Span)
    {args : ParenArguments} (hargs : fit tokens args) :
    Conserved tokens (nodes receiver + nodes args)
      (nodes (call (some receiver) dot name selector (arguments args.1) (some args.2.span))) :=
  .trans (.add (.refl _) ((conserved_of_eq (add_zero _)).trans (arguments_conserved hargs.1)))
    (call_conserved receiver dot name selector (arguments args.1) (some args.2.span))

theorem functionCall_conserved {name : Token} {items : List Argument} (hitems : fit tokens items)
    {closing : Token} (hsound : (functionCall name items closing).Sound tokens) :
    Conserved tokens (nodes items) (nodes (functionCall name items closing)) := by
  refine .sound ?_ hsound rfl
  simpa using arguments_conserved hitems

theorem nameCall_conserved {name : Token} (hsound : (nameCall name).Sound tokens) :
    Conserved tokens 0 (nodes (nameCall name)) :=
  .sound (.refl _) hsound rfl

theorem defined_conserved (kw : Token) (value : Node) (closing : Option Token) :
    Conserved tokens (nodes value) (nodes (defined kw value closing)) :=
  .node (conserved_of_eq (by simp)) rfl

theorem joined_conserved (lhs rhs : Node) (h : (joined kind lhs rhs).isOrdinary = true) :
    Conserved tokens (nodes lhs + nodes rhs) (nodes (joined kind lhs rhs)) :=
  .node (conserved_of_eq (by simp)) h

theorem binary_conserved (lhs : Node) (op : Token) (rhs : Node) :
    Conserved tokens (nodes lhs + nodes rhs) (nodes (binary lhs op rhs)) := by
  unfold binary
  split
  · exact .node (conserved_of_eq (by simp)) rfl
  · have h : Conserved tokens (nodes lhs + nodes [rhs]) _ :=
      call_conserved lhs none op.value op.span [rhs] none
    simpa using h

theorem range_conserved (lhs : Option Node) (op : Token) (rhs : Option Node) :
    Conserved tokens (nodes lhs + nodes rhs) (nodes (range lhs op rhs)) := by
  simp only [range]
  split <;> exact .node (conserved_of_eq (by simp)) rfl

theorem jump_conserved (kw : Token) {items : List Argument} (hitems : fit tokens items) :
    Conserved tokens (nodes items) (nodes (jump kw items)) := by
  have := arguments_conserved hitems
  simp only [jump]
  split <;> exact .node (by simpa using this) rfl

theorem superCall_conserved (kw : Token) {items : List Argument} (hitems : fit tokens items)
    (closing : Token) : Conserved tokens (nodes items) (nodes (superCall kw items closing)) :=
  .node (by simpa using arguments_conserved hitems) rfl

theorem yieldCall_conserved (kw : Token) {items : List Argument} (hitems : fit tokens items)
    (closing : Token) : Conserved tokens (nodes items) (nodes (yieldCall kw items closing)) :=
  .node (by simpa using arguments_conserved hitems) rfl

theorem index_conserved (receiver : Node) {items : List Argument} (hitems : fit tokens items)
    (closing : Token) :
    Conserved tokens (nodes receiver + nodes items) (nodes (index receiver items closing)) :=
  .node (by simpa using (Conserved.refl (nodes receiver)).add (arguments_conserved hitems)) rfl

/-! ## §5. Blocks. -/

/-- A call with its block accounts for what the expression and the block account for, if the call
has the marks of the expression and sound operands like it.  It need not be sound itself: it is the
one bare call that a name becomes before names are resolved. -/
theorem Carries.attach {callee : Node} {rest : List Child} {x : Multiset Mark}
    (h : Carries tokens x (nodes n + ms)) (hrest : Conserved tokens ms (nodesIn rest))
    (hkind : kind = .block ∨ kind = .numblock) (hmarks : callee.marks = n.marks)
    (hbelow : Everywhere (Open tokens) n → Everywhere (Open tokens) callee) :
    Carries tokens x {Node.mk kind (.node callee :: rest) span} := by
  obtain ⟨haccounts, hhonest⟩ := (Conserved.refl (nodes n)).add hrest x h
  have hcallee := (hhonest n (Multiset.mem_add.mpr (.inl (Multiset.mem_singleton_self n)))).below
  replace hhonest : SlotsAll (Honest tokens) rest :=
    fun m hm => hhonest m (Multiset.mem_add.mpr (.inr (mem_nodesIn.mpr hm)))
  have hoperands : operands (.mk kind (.node callee :: rest) span) = rest := if_pos hkind
  refine ⟨?_, fun m hm => ?_⟩
  · have hnone : kind.marks span = 0 := by rcases hkind with rfl | rfl <;> rfl
    rw [marksOf_add, nodes_node, marksOf_singleton] at haccounts
    rwa [marksOf_singleton, marks_mk, hnone, zero_add, nodesIn_cons, nodeIn_node, marksOf_add,
      marksOf_singleton, hmarks]
  · cases Multiset.mem_singleton.mp hm
    refine ⟨?_, .mk ?_ ?_⟩
    · rcases hkind with rfl | rfl <;> exact sound_of_not_bare rfl rfl
    · rw [Open, hoperands]
      exact fun m hm => (hhonest m hm).root
    · intro m hm
      rcases List.mem_cons.mp hm with hm | hm
      · cases hm
        exact hbelow hcallee
      · exact (hhonest m hm).below

theorem withBlock_carries (v : Version) {callee : Node} {parts : BlockParts} {x : Multiset Mark}
    (h : Carries tokens x (nodes n + nodes parts)) (hmarks : callee.marks = n.marks)
    (hbelow : Everywhere (Open tokens) n → Everywhere (Open tokens) callee) :
    Carries tokens x (nodes (withBlock v callee parts)) := by
  obtain ⟨opening, params, body, closing⟩ := parts
  simp only [withBlock]
  split
  next params =>
    exact h.attach (conserved_of_eq (by simp [nodes_parts])) (.inl rfl) hmarks hbelow
  next =>
    split
    next => exact h.attach (conserved_of_eq (by simp [nodes_parts])) (.inr rfl) hmarks hbelow
    next =>
      -- a parameter list that is not written leaves no mark
      refine h.attach ?_ (.inl rfl) hmarks hbelow
      exact .cons (leaf_conserved rfl rfl) (conserved_of_eq (by simp [nodes_parts]))

/-- What is known of a node may be used for what becomes of it. -/
theorem Conserved.of_honest {after : Multiset Node}
    (h : n.Honest tokens → Conserved tokens (nodes n + ms) after) :
    Conserved tokens (nodes n + ms) after := fun x hx =>
  h (hx.honest n (Multiset.mem_add.mpr (.inl (Multiset.mem_singleton_self n)))) x hx

/-- A bare name or word that a call can be made from has no node in its slots. -/
theorem nodesIn_of_plain (hkind : n.kind = .lvar ∨ n.kind = .zsuper) (h : n.isPlain = true) :
    nodesIn n.children = 0 := by
  obtain ⟨kind, children, span⟩ := n
  replace h : (children.all fun c => c.node?.isNone) = true := by
    rcases hkind with hkind | hkind <;> cases hkind <;> exact h
  show nodesIn children = 0
  clear hkind
  induction children with
  | nil => rfl
  | cons c rest ih =>
      obtain ⟨hc, hrest⟩ := (Bool.and_eq_true _ _).mp h
      rw [nodesIn_cons, ih hrest, add_zero]
      cases c with
      | node n => cases hc
      | _ => rfl

theorem attachBlock?_conserved (v : Version) (n : Node) (parts : BlockParts) :
    ∀ b ∈ attachBlock? v n parts, Conserved tokens (nodes n + nodes parts) (nodes b) := by
  intro b hb
  obtain ⟨callee, hcallee, rfl⟩ := Option.map_eq_some_iff.mp hb
  cases makesCallee_of_mem hcallee with
  | call _ _ => exact fun x hx => withBlock_carries v hx rfl id
  | name hkind =>
      -- a bare name becomes a call; neither has a node in a slot
      refine .of_honest fun hn x hx => withBlock_carries v hx ?_ fun h => ?_
      · obtain ⟨kind, children, span⟩ := n
        cases hkind
        rw [marks_mk, marks_mk, nodesIn_cons, nodeIn_absent, zero_add]
        rfl
      · have hnone := nodesIn_of_plain (.inl hkind) hn.root.plain
        have hslots : ∀ m, Child.node m ∉ Child.absent :: n.children := by
          rw [← nodesIn_eq_zero, nodesIn_cons, nodeIn_absent, hnone, zero_add]
        exact .mk (fun m hm => absurd (mem_children_of_operands hm) (hslots m))
          fun m hm => absurd hm (hslots m)

theorem lambda_conserved (v : Version) (arrow : Token) (params : Option Node) (body : BlockParts)
    (hbody : body.params = none) :
    Conserved tokens (nodes params + nodes body) (nodes (lambda v arrow params body)) := by
  intro x hx
  refine withBlock_carries v (n := bare .lambdaArrow arrow) ?_ rfl id
  refine Conserved.cons (leaf_conserved rfl rfl) (conserved_of_eq ?_) x hx
  rw [nodes_parts, nodes_parts, hbody, Option.or_none, nodes_none, zero_add]

/-! ## §6. Primary expressions. -/

theorem applySuffix?_conserved (v : Version) (receiver : Chain) {op : Suffix}
    (hop : fit tokens op) :
    ∀ c ∈ applySuffix? v receiver op, Conserved tokens (nodes receiver.node + nodes op) (nodes c.node) := by
  intro c hc
  cases op with
  | method dot name args =>
      cases args with
      | none =>
          cases hc
          exact call_conserved receiver.node (some dot) name.value name.span [] none
      | some args =>
          cases hc
          exact methodCall_conserved receiver.node dot name.value name.span (hop args rfl)
  | unnamed dot args =>
      cases hc
      exact methodCall_conserved receiver.node dot "call" dot.span hop
  | constant name =>
      cases hc
      exact constant_conserved (some receiver.node) name
  | index args closing =>
      cases hc
      exact index_conserved receiver.node hop closing
  | block parts =>
      obtain ⟨b, hb, rfl⟩ := Option.map_eq_some_iff.mp hc
      exact attachBlock?_conserved v receiver.node parts b hb

theorem applySuffixes?_conserved (v : Version) {first : Chain} {ops : List Suffix}
    (hops : fit tokens ops) :
    ∀ c ∈ applySuffixes? v first ops, Conserved tokens (nodes first.node + nodes ops) (nodes c.node) := by
  induction ops generalizing first with
  | nil =>
      rintro c ⟨⟩
      exact conserved_of_eq (add_zero _)
  | cons op ops ih =>
      obtain ⟨hop, hops⟩ := List.forall_mem_cons.mp hops
      intro c hc
      obtain ⟨d, hd, hc⟩ := Option.bind_eq_some_iff.mp hc
      rw [nodes_cons, ← add_assoc]
      exact ((applySuffix?_conserved v first hop d hd).add (.refl _)).trans (ih hops c hc)

theorem command?_conserved {c : Chain} {items : List Argument} (hitems : fit tokens items)
    (hne : items ≠ []) :
    ∀ n ∈ command? c items, Conserved tokens (nodes c.node + nodes items) (nodes n) := by
  obtain ⟨a, args, hargs⟩ := List.exists_cons_of_ne_nil (arguments_ne_nil hne)
  have hconserved := arguments_conserved hitems
  intro n hn
  obtain ⟨kind', kept, hmakes, rfl⟩ := mem_command? hn
  rw [hargs] at hconserved ⊢
  obtain ⟨⟨kind, children, span⟩, isOpen⟩ := c
  -- no node is lost if the slots that the call keeps have the nodes of the expression
  have hgrown : kind.isDivisible = true → nodesIn kept = nodesIn children →
      Conserved tokens (nodes (Node.mk kind children span) + nodes items)
        (nodesIn (kept ++ slots (a :: args))) := by
    intro hkind hkept
    rw [nodesIn_append, nodesIn_slots, hkept]
    exact (conserved_children hkind).add hconserved
  have hordinary : ∀ span', (Node.mk .send (kept ++ slots (a :: args)) span').isOrdinary = true :=
    fun span' => isOrdinary_of_mem (n := a) (by simp)
  cases hmakes with
  | name hkind =>
      obtain rfl : kind = .lvar := hkind
      refine .of_honest fun hhonest => ?_
      have hnone : nodesIn children = 0 := nodesIn_of_plain (.inl rfl) hhonest.root.plain
      have hlast : nodeIn (children.getLastD .absent) = 0 := by
        cases hlast : children.getLastD .absent with
        | node m => exact absurd (mem_of_getLastD hlast) (nodesIn_eq_zero.mp hnone m)
        | _ => rfl
      refine .node (hgrown rfl ?_) (hordinary _)
      rw [hnone, Node.children, nodesIn_cons, nodesIn_cons, hlast, nodesIn_nil, nodeIn_absent,
        add_zero, add_zero]
  | call hkind =>
      obtain rfl | rfl : kind = .send ∨ kind = .constant := hkind
      · exact .node (hgrown rfl rfl) (hordinary _)
      · exact .node (hgrown rfl rfl) (hordinary _)
  | safeCall hkind =>
      obtain rfl : kind = .csend := hkind
      exact .node (hgrown rfl rfl) rfl
  | superCall hkind =>
      obtain rfl : kind = .zsuper := hkind
      refine .of_honest fun hhonest => ?_
      exact .node (hgrown rfl (nodesIn_of_plain (.inr rfl) hhonest.root.plain).symm) rfl
  | yieldCall hkind hnone =>
      obtain rfl : kind = .yieldCall := hkind
      obtain rfl : children = [] := hnone
      exact .node (hgrown rfl rfl) rfl

/-! ## §7. Assignments. -/

theorem target?_conserved (n : Node) :
    ∀ t ∈ target? n, t.kind ∈ targetKinds ∧ Conserved tokens (nodes n) (nodes t) := by
  intro t ht
  obtain ⟨kind', children', hmakes, rfl⟩ := mem_target? ht
  refine ⟨hmakes.kind_mem, ?_⟩
  obtain ⟨kind, children, span⟩ := n
  cases hmakes with
  | name hkind =>
      replace hkind : targetKind? kind = some kind' := hkind
      unfold targetKind? at hkind
      split at hkind <;> cases hkind <;> exact .node (conserved_children rfl) rfl
  | @writer receiver name hkind hchildren hreceiver =>
      obtain rfl : children = [receiver, .symbol name] := hchildren
      have hslots : kind.isDivisible = true →
          Conserved tokens {Node.mk kind [receiver, .symbol name] span}
            (nodesIn [receiver, .symbol (name ++ "=")]) := conserved_children
      obtain rfl | rfl : kind = .send ∨ kind = .csend := hkind
      · -- a call with a receiver is none of the calls that a word alone makes
        refine .node (hslots rfl) ?_
        cases receiver with
        | absent => cases hreceiver
        | _ => rfl
      · exact .node (hslots rfl) rfl

theorem assign?_conserved (n value : Node) :
    ∀ t ∈ assign? n value, Conserved tokens (nodes n + nodes value) (nodes t) := by
  intro t ht
  obtain ⟨⟨kind, children, span⟩, htarget, rfl⟩ := Option.map_eq_some_iff.mp ht
  obtain ⟨hkind, htarget⟩ : kind ∈ targetKinds ∧
      Conserved tokens (nodes n) (nodes (Node.mk kind children span)) := target?_conserved n _ htarget
  have hdivisible : ∀ kind ∈ targetKinds, kind.isDivisible = true := by decide
  have hslots : Conserved tokens (nodes n + nodes value) (nodesIn (children ++ [.node value])) := by
    have h := (htarget.trans (conserved_children (hdivisible kind hkind))).add (.refl (nodes value))
    simpa using h
  simp only [targetKinds, List.mem_cons, List.not_mem_nil, or_false] at hkind
  rcases hkind with rfl | rfl | rfl | rfl | rfl | rfl | rfl | rfl
  case inr.inr.inr.inr.inr.inr.inl => exact .node hslots (isOrdinary_of_mem (n := value) (by simp))
  all_goals exact .node hslots rfl

theorem operatorAssign?_conserved (n : Node) (op : Token) (value : Node) :
    ∀ t ∈ operatorAssign? n op value, Conserved tokens (nodes n + nodes value) (nodes t) := by
  intro t ht
  obtain ⟨target, htarget, rfl⟩ := Option.map_eq_some_iff.mp ht
  have htarget : Conserved tokens (nodes n) (nodes target) := by
    split at htarget
    · cases htarget
      exact .refl _
    · exact (target?_conserved n target htarget).2
  refine (htarget.add (.refl (nodes value))).trans ?_
  simp only
  split
  · exact .node (conserved_of_eq (by simp)) rfl
  · split <;> exact .node (conserved_of_eq (by simp)) rfl

theorem rescueModifier_conserved (body : Node) (kw : Token) (value : Node) :
    Conserved tokens (nodes body + nodes value) (nodes (rescueModifier body kw value)) := by
  have hclause : Conserved tokens (nodes value)
      (nodes (Node.mk .resbody [.absent, .absent, .node value] (kw.span.join value.span))) :=
    .node (conserved_of_eq (by simp)) rfl
  exact .node (by simpa using (Conserved.refl (nodes body)).add hclause) rfl

theorem bareArray_conserved (items : List Node) : Conserved tokens (nodes items) (nodes (bareArray items)) :=
  .node (conserved_of_eq (nodesIn_slots items).symm) rfl

theorem multipleValues_conserved (ns : List Node) :
    Conserved tokens (nodes ns) (nodes (multipleValues ns)) := by
  obtain heq | ⟨n, rfl, heq⟩ := multipleValues_eq ns
  · rw [heq]
    exact bareArray_conserved ns
  · rw [heq]
    exact conserved_of_eq (by simp)

theorem targets_conserved (ns : List Node) : Conserved tokens (nodes ns) (nodes (targets ns)) := by
  obtain heq | ⟨n, rfl, -, heq⟩ := targets_eq ns
  · rw [heq]
    exact .node (conserved_of_eq (nodesIn_slots _).symm) rfl
  · rw [heq]
    exact conserved_of_eq (by simp)

theorem assignValues?_conserved (n : Node) (items : List Node) :
    ∀ t ∈ assignValues? n items, Conserved tokens (nodes n + nodes items) (nodes t) :=
  fun t ht => ((Conserved.refl (nodes n)).add (bareArray_conserved items)).trans
    (assign?_conserved n (bareArray items) t (mem_assignValues? ht))

/-! ## §8. Conditions. -/

/-- **A condition accounts for what the expression accounts for.** -/
theorem condition_conserved (n : Node) : Conserved tokens (nodes n) (nodes (condition n)) := by
  induction n using ind with
  | mk kind children span ih =>
      have hslots : Conserved tokens (nodesIn children) (nodesIn (conditionSlots children)) := by
        clear kind span
        induction children with
        | nil => exact .refl _
        | cons c rest ihrest =>
            refine .add ?_ (ihrest fun n hn => ih n (List.mem_cons_of_mem _ hn))
            cases c with
            | node n => exact ih n List.mem_cons_self
            | _ => exact .refl _
      unfold condition
      split
      · exact .node (conserved_of_eq (by simp)) rfl
      -- parentheses are looked through if there is one statement in them
      case h_6 =>
        split
        · exact .node ((conserved_children rfl).trans hslots) rfl
        · exact .refl _
      case h_7 => exact .refl _
      all_goals exact .node ((conserved_children rfl).trans hslots) rfl

theorem conditional_conserved (kw : Token) (cond : Node) (yes no : Option Node) (stop : Span) :
    Conserved tokens (nodes cond + nodes yes + nodes no) (nodes (conditional kw cond yes no stop)) :=
  .node (by simpa [add_assoc] using
    (condition_conserved cond).add (.refl (nodes yes + nodes no))) rfl

theorem ternary_conserved (cond yes no : Node) :
    Conserved tokens (nodes cond + nodes yes + nodes no) (nodes (ternary cond yes no)) :=
  .node (by simpa [add_assoc] using
    (condition_conserved cond).add (.refl (nodes yes + nodes no))) rfl

theorem modified_conserved (body : Node) (kw : Token) (value : Node) :
    Conserved tokens (nodes body + nodes value) (nodes (modified body kw value)) := by
  have hcond : Conserved tokens (nodes body + nodes value) (nodes (condition value) + nodes body) := by
    rw [add_comm]
    exact (condition_conserved value).add (.refl _)
  simp only [modified]
  split
  · exact .node (by simpa using hcond) rfl
  · exact .node (by simpa using hcond) rfl
  · split <;> exact .node (by simpa using hcond) rfl
  · split <;> exact .node (by simpa using hcond) rfl
  · exact rescueModifier_conserved body kw value

theorem conditionLoop_conserved (kw : Token) (cond : Node) (body : Option Node) (closing : Token) :
    Conserved tokens (nodes cond + nodes body) (nodes (conditionLoop kw cond body closing)) := by
  have hcond : Conserved tokens (nodes cond + nodes body) (nodes (condition cond) + nodes body) :=
    (condition_conserved cond).add (.refl (nodes body))
  simp only [conditionLoop]
  split <;> exact .node (by simpa using hcond) rfl

/-! ## §9. Branches and bodies. -/

theorem whenClause_conserved (kw : Token) (values : List Node) (body : Option Node) :
    Conserved tokens (nodes values + nodes body) (nodes (whenClause kw values body)) :=
  .node (conserved_of_eq (by simp)) rfl

theorem guard_conserved (kw : Token) (cond : Node) : Conserved tokens (nodes cond) (nodes (guard kw cond)) := by
  simp only [guard]
  split <;> exact .node (conserved_of_eq (by simp)) rfl

theorem caseWhen_conserved (kw : Token) (subject : Option Node) (clauses : List Node)
    (otherwise : Option ElseClause) (closing : Token) :
    Conserved tokens (nodes subject + nodes clauses + nodes otherwise)
      (nodes (caseWhen kw subject clauses otherwise closing)) := by
  refine .node (conserved_of_eq ?_) rfl
  rw [nodesIn_append, nodesIn_cons, nodeIn_ofOption, nodesIn_slots, nodesIn_cons, nodeIn_ofOption,
    nodesIn_nil, add_zero]
  rcases otherwise with - | ⟨kw, - | body⟩ <;> rfl

theorem caseMatch_conserved (kw : Token) (subject : Node) (clauses : List Node)
    (otherwise : Option ElseClause) (closing : Token) :
    Conserved tokens (nodes subject + nodes clauses + nodes otherwise)
      (nodes (caseMatch kw subject clauses otherwise closing)) := by
  refine .node ?_ rfl
  rw [nodesIn_append, nodesIn_cons, nodeIn_node, nodesIn_slots, nodesIn_cons, nodesIn_nil, add_zero]
  refine .add (.refl _) ?_
  -- an `else` without a body leaves a node without a mark
  rcases otherwise with - | ⟨kw, - | body⟩
  · exact .refl _
  · exact leaf_conserved rfl rfl
  · exact conserved_of_eq (zero_add _)

theorem rescueClause_conserved (kw : Token) (classes : Option (List Node)) (var body : Option Node) :
    Conserved tokens (nodes classes + nodes var + nodes body)
      (nodes (rescueClause kw classes var body)) := by
  have hclasses : Conserved tokens (nodes classes) (nodes (classes.map bareArray)) := by
    cases classes with
    | none => exact .refl _
    | some ns => exact bareArray_conserved ns
  exact .node (by simpa [add_assoc] using hclasses.add (.refl (nodes var + nodes body))) rfl

theorem rescued?_conserved (statements rescues : List Node) (otherwise : Option (List Node)) :
    Conserved tokens (nodes statements + nodes rescues + nodes otherwise)
      (nodes (rescued? statements rescues otherwise)) := by
  have hbody : Conserved tokens (nodes statements) (nodes (ofStatements? statements)) :=
    ofStatements?_conserved statements
  simp only [rescued?]
  -- without a branch that rescues, the statements after it are put behind the body
  split
  · rw [nodes_nil, add_zero]
    split
    next more =>
      refine (hbody.add (.refl (nodes more))).trans ?_
      rw [← nodes_toList, ← nodes_append]
      exact ofStatements?_conserved ((ofStatements? statements).toList ++ more)
    next => simpa using hbody
  next first rest =>
    have hotherwise : Conserved tokens (nodes otherwise) (nodes (otherwise.bind ofStatements?)) := by
      cases otherwise with
      | none => exact .refl _
      | some more => exact ofStatements?_conserved more
    refine .node ?_ rfl
    rw [List.cons_append, nodesIn_cons, nodeIn_ofOption, nodesIn_append, nodesIn_slots, nodesIn_cons,
      nodeIn_ofOption, nodesIn_nil, add_zero, ← add_assoc]
    exact (hbody.add (.refl _)).add hotherwise

theorem ensured?_conserved (body : Option Node) (ensure : Option (Token × List Node)) :
    Conserved tokens (nodes body + nodes ensure) (nodes (ensured? body ensure)) := by
  unfold ensured?
  split
  · exact conserved_of_eq (add_zero _)
  next kw last =>
    have h : Conserved tokens (nodes body + nodes last) (nodes body + nodes (ofStatements? last)) :=
      (Conserved.refl _).add (ofStatements?_conserved last)
    exact .node (by simpa using h) rfl

/-- **A body keeps its statements and the statements of all its clauses.** -/
theorem bodyStatements_conserved (statements rescues : List Node) (otherwise : Option (List Node))
    (ensure : Option (Token × List Node)) :
    Conserved tokens (nodes statements + nodes rescues + nodes otherwise + nodes ensure)
      (nodes (bodyStatements statements rescues otherwise ensure)) := by
  unfold bodyStatements
  split
  next h =>
    simp only [Bool.and_eq_true, List.isEmpty_iff, Option.isNone_iff_eq_none] at h
    obtain ⟨⟨rfl, rfl⟩, rfl⟩ := h
    exact conserved_of_eq (by simp)
  next =>
    rw [nodes_toList]
    exact ((rescued?_conserved statements rescues otherwise).add (.refl _)).trans
      (ensured?_conserved _ _)

theorem beforeOrAfter_conserved (kw : Token) (statements : List Node) (closing : Token) :
    Conserved tokens (nodes statements) (nodes (beforeOrAfter kw statements closing)) := by
  have h : Conserved tokens (nodes statements) (nodes (ofStatements? statements)) :=
    ofStatements?_conserved statements
  simp only [beforeOrAfter]
  split <;> exact .node (by simpa using h) rfl

/-! ## §10. Definitions and patterns. -/

theorem methodDef_conserved (kw : Token) (head : MethodHead) (params : Node) (body : Option Node)
    (stop : Span) :
    Conserved tokens (nodes head + nodes params + nodes body) (nodes (methodDef kw head params body stop)) := by
  obtain ⟨receiver, name⟩ := head
  cases receiver with
  | none => exact .node (conserved_of_eq (by simp [nodes_head])) rfl
  | some receiver =>
      refine .node (conserved_of_eq ?_) rfl
      simp only [nodes_head, nodesIn_cons, nodeIn_node, nodeIn_symbol, nodeIn_ofOption, nodesIn_nil,
        nodes_some, nodes_node, add_zero, zero_add, add_assoc]

theorem noParams_conserved (params : Option Node) (after : Token) :
    Conserved tokens (nodes params) (nodes (params.getD (noParams after))) := by
  cases params with
  | none => exact leaf_conserved rfl rfl
  | some params => exact .refl _

theorem param_conserved {kind : Kind} (start : Token) (name : Option Token) (value : Option Node)
    (h : (param kind start name value).isOrdinary = true) :
    Conserved tokens (nodes value) (nodes (param kind start name value)) := by
  refine .node (conserved_of_eq ?_) h
  cases name <;> simp

theorem takingApart_conserved (only : Node) : Conserved tokens (nodes only) (nodes (takingApart only)) := by
  obtain ⟨kind, children, span⟩ := only
  unfold takingApart
  by_cases hkind : kind = .mlhs
  · subst hkind
    exact .node (conserved_children rfl) rfl
  · rw [if_neg (by simpa [Node.kind] using hkind)]
    exact .node (conserved_of_eq (by simp)) rfl

theorem blockParams_conserved (opening : Token) (params : List Node) (trailingComma : Bool)
    (own : List Node) (closing : Token) :
    Conserved tokens (nodes params + nodes own)
      (nodes (blockParams opening params trailingComma own closing)) := by
  refine .node ?_ rfl
  rw [nodesIn_slots, nodes_append]
  refine .add ?_ (.refl _)
  split
  · split
    · rw [nodes_cons, nodes_cons, nodes_nil]
      exact (takingApart_conserved _).add (.refl _)
    · exact .refl _
  · exact .refl _

theorem matchAs_conserved (pattern : Node) (name : Token) :
    Conserved tokens (nodes pattern) (nodes (matchAs pattern name)) :=
  ((conserved_of_eq (add_zero _).symm).trans
    ((Conserved.refl (nodes pattern)).add (matchVar_conserved name))).trans (joined_conserved _ _ rfl)

theorem matchRest_conserved (star : Token) (name : Option Token) :
    Conserved tokens 0 (nodes (matchRest star name)) := by
  cases name with
  | none => exact leaf_conserved rfl rfl
  | some name => exact .node (by simpa using matchVar_conserved name) rfl

/-- A list of patterns has no mark of its own, whichever kind it is of. -/
theorem listPattern_conserved (items : List Node) (trailingComma : Bool) (span : Span) :
    Conserved tokens (nodes items)
      (nodes (Node.mk (listPatternKind items trailingComma) (slots items) span)) := by
  simp only [listPatternKind]
  split
  · exact .node (conserved_of_eq (nodesIn_slots items).symm) rfl
  · split <;> exact .node (conserved_of_eq (nodesIn_slots items).symm) rfl

theorem topPattern_conserved (items : List Node) (trailingComma : Bool) :
    Conserved tokens (nodes items) (nodes (topPattern items trailingComma)) := by
  obtain heq | ⟨only, rfl, heq⟩ := topPattern_eq items trailingComma
  · rw [heq]
    exact listPattern_conserved items trailingComma _
  · rw [heq]
    exact conserved_of_eq (by simp)

theorem matchPattern_conserved (v : Version) (value : Node) (op : Token) (pattern : Node) :
    Conserved tokens (nodes value + nodes pattern) (nodes (matchPattern v value op pattern)) := by
  simp only [matchPattern]
  split
  · exact joined_conserved _ _ rfl
  · split <;> exact joined_conserved _ _ rfl

end RubySyntax.Node
