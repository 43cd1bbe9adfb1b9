/-
  RubySyntax.Proofs.Tree.Doubt
  ────────────────────────────
  **WHAT IS DOUBTFUL ABOUT A TREE.**

  A condition is doubtful if it assigns a literal, perhaps between parentheses, and a key of a hash
  if it is the same literal as an earlier one.  The warnings about a tree are those about the nodes
  that a walk visits, in the order of the visits, and at each node they say just what is doubtful.

  Keys are compared by their texts.  In a tree whose floating-point numbers differ in their texts
  this is the same as comparing the literals, their places aside.

  Main results:
    • `conditionWarnings_doubted` — the warnings about a condition,
    • `keyWarnings_doubted` — the warnings about the keys of a hash,
    • `warnings_eq` — the warnings about a tree are those of its tour,
    • `Program.warnings_listed` — the warnings about a program.
-/
import RubySyntax.Proofs.Program
import RubySyntax.Proofs.Tree.Layout.Program
import RubySyntax.Proofs.Tree.Literal
import RubySyntax.Proofs.Tree.Scope

namespace RubySyntax

/-- Whether a slot holds a floating-point number. -/
def Child.isFloat : Child → Bool
  | .float _ => true
  | _ => false

namespace Node

/-! ## §1. Doubtful conditions. -/

/-- A node comes out of any number of sequences that hold nothing else. -/
inductive Unwraps : Node → Node → Prop where
  | here (n : Node) : Unwraps n n
  | out {inner n : Node} {span : Span} (h : Unwraps inner n) :
      Unwraps (.mk .sequence [.node inner] span) n

/-- A variable or a constant is assigned a literal. -/
def AssignsLiteral (n : Node) : Prop :=
  n.kind ∈ [Kind.lvasgn, .ivasgn, .cvasgn, .gvasgn, .casgn] ∧
    ∃ value, n.lastChild? = some (.node value) ∧ value.isLiteral = true

/-- The condition of a node is an assignment of a literal. -/
def ConditionAssigns (n assignment : Node) : Prop :=
  ∃ cond, n.childNode? 0 = some cond ∧ cond.Unwraps assignment ∧ assignment.AssignsLiteral

theorem unwraps_unwrap (n : Node) : n.Unwraps n.unwrap := by
  induction n using ind with
  | mk kind children span ih =>
      unfold unwrap
      split
      next heq =>
        cases heq
        exact .out (ih _ List.mem_cons_self)
      next => exact .here _

theorem Unwraps.unwrap_eq {m n : Node} (h : m.Unwraps n) : m.unwrap = n.unwrap := by
  induction h with
  | here n => rfl
  | out h ih => rwa [unwrap]

theorem unwrap_eq_self {n : Node} (h : n.kind ≠ .sequence) : n.unwrap = n := by
  unfold unwrap
  split
  next => exact absurd rfl h
  next => rfl

theorem isAssignment_iff (n : Node) :
    n.isAssignment = true ↔ n.kind ∈ [Kind.lvasgn, .ivasgn, .cvasgn, .gvasgn, .casgn] := by
  obtain ⟨kind, children, span⟩ := n
  cases kind <;> simp [isAssignment, Node.kind]

theorem assignsLiteral_iff (n : Node) : n.AssignsLiteral ↔
    (n.isAssignment && (n.lastChild?.bind Child.node?).any isLiteral) = true := by
  rw [Bool.and_eq_true, isAssignment_iff, Option.any_eq_true]
  refine and_congr_right fun _ => exists_congr fun value => and_congr_left fun _ => ?_
  cases n.lastChild? with
  | none => simp
  | some c => cases c <;> simp [Child.node?]

theorem AssignsLiteral.unwrap {n : Node} (h : n.AssignsLiteral) : n.unwrap = n := by
  refine unwrap_eq_self fun hkind => ?_
  have hmem := h.1
  rw [hkind] at hmem
  exact absurd hmem (by decide)

/-- **The warnings about a condition**: one if it assigns a literal, at the assignment. -/
theorem conditionWarnings_doubted (n : Node) :
    (∀ assignment, n.ConditionAssigns assignment →
      n.conditionWarnings = [Doubt.literalCondition.at assignment.span]) ∧
    ((∀ assignment, ¬ n.ConditionAssigns assignment) → n.conditionWarnings = []) := by
  unfold conditionWarnings
  cases hcond : n.childNode? 0 with
  | none =>
      refine ⟨?_, fun _ => rfl⟩
      rintro assignment ⟨cond, h, -⟩
      cases hcond.symm.trans h
  | some cond =>
      rw [Option.map_some]
      dsimp only
      constructor
      · rintro assignment ⟨_, h, hunwraps, hassigns⟩
        cases hcond.symm.trans h
        rw [hunwraps.unwrap_eq, hassigns.unwrap, if_pos ((assignsLiteral_iff _).mp hassigns)]
      · intro hnone
        rw [if_neg fun h => ?_]
        exact hnone _ ⟨cond, hcond, unwraps_unwrap cond, (assignsLiteral_iff _).mpr h⟩

/-! ## §2. Doubtful keys. -/

/-- The pair at an index has a literal key. -/
def HasLiteralKey (n : Node) (j : Nat) (key : Node) : Prop :=
  ∃ pair, n.childNodes[j]? = some pair ∧ pair.kind = .pair ∧ pair.childNode? 0 = some key ∧
    key.isLiteral = true

/-- The key of the pair at an index is the literal key of an earlier pair. -/
def RepeatsKey (n : Node) (j : Nat) : Prop :=
  ∃ key, n.HasLiteralKey j key ∧
    ∃ i < j, ∃ earlier, n.HasLiteralKey i earlier ∧ earlier.unplaced = key.unplaced

theorem literalKey?_eq_some {pair key : Node} : literalKey? pair = some key ↔
    pair.kind = .pair ∧ pair.childNode? 0 = some key ∧ key.isLiteral = true := by
  unfold literalKey?
  split
  next h => simp [beq_iff_eq.mp h, Option.filter_eq_some_iff]
  next h =>
    refine ⟨nofun, fun hpair => ?_⟩
    exact absurd (beq_iff_eq.mpr hpair.1) h

/-- The literal key of the pair at an index. -/
def literalKeyAt? (ns : List Node) (j : Nat) : Option Node := ns[j]?.bind literalKey?

theorem hasLiteralKey_iff {n : Node} {j : Nat} {key : Node} :
    n.HasLiteralKey j key ↔ literalKeyAt? n.childNodes j = some key := by
  simp only [HasLiteralKey, literalKeyAt?, Option.bind_eq_some_iff, literalKey?_eq_some]

/-- The literal key of the pair at an index has a text that was seen before. -/
def SeenAt (seen : List String) (ns : List Node) (j : Nat) : Prop :=
  ∃ key, literalKeyAt? ns j = some key ∧ (key.sexp ∈ seen ∨
    ∃ i < j, ∃ earlier, literalKeyAt? ns i = some earlier ∧ earlier.sexp = key.sexp)

section Seen

variable {n : Node} {ns : List Node} {seen : List String} {j : Nat}

theorem seenAt_zero : SeenAt seen (n :: ns) 0 ↔ ∃ key, literalKey? n = some key ∧ key.sexp ∈ seen := by
  simp [SeenAt, literalKeyAt?]

/-- A node without a literal key adds nothing to what was seen. -/
theorem seenAt_succ_of_none (h : literalKey? n = none) :
    SeenAt seen (n :: ns) (j + 1) ↔ SeenAt seen ns j := by
  refine exists_congr fun key => and_congr_right fun _ => or_congr_right ?_
  constructor
  · rintro ⟨i, hi, earlier, hearlier, htext⟩
    cases i with
    | zero => cases h.symm.trans hearlier
    | succ i => exact ⟨i, Nat.lt_of_succ_lt_succ hi, earlier, hearlier, htext⟩
  · rintro ⟨i, hi, hearlier⟩
    exact ⟨i + 1, Nat.succ_lt_succ hi, hearlier⟩

/-- A literal key adds its text. -/
theorem seenAt_succ_of_some {key : Node} (h : literalKey? n = some key) :
    SeenAt seen (n :: ns) (j + 1) ↔ SeenAt (key.sexp :: seen) ns j := by
  refine exists_congr fun k => and_congr_right fun _ => ?_
  rw [List.mem_cons, or_assoc, or_left_comm]
  refine or_congr_right ?_
  constructor
  · rintro ⟨i, hi, earlier, hearlier, htext⟩
    cases i with
    | zero =>
        cases h.symm.trans hearlier
        exact .inl htext.symm
    | succ i => exact .inr ⟨i, Nat.lt_of_succ_lt_succ hi, earlier, hearlier, htext⟩
  · rintro (htext | ⟨i, hi, hearlier⟩)
    · exact ⟨0, Nat.succ_pos j, key, h, htext.symm⟩
    · exact ⟨i + 1, Nat.succ_lt_succ hi, hearlier⟩

theorem seenAt_cons_of_mem {text : String} (h : text ∈ seen) :
    SeenAt (text :: seen) ns j ↔ SeenAt seen ns j := by
  refine exists_congr fun key => and_congr_right fun _ => or_congr_left ?_
  rw [List.mem_cons]
  exact or_iff_right_of_imp fun heq => heq ▸ h

end Seen

/-- Some keys stand, in order, at the places of some nodes. -/
structure Places (P : Nat → Prop) (ns keys : List Node) (places : List Nat) : Prop where
  ordered : places.Pairwise (· < ·)
  mem_iff : ∀ j, j ∈ places ↔ P j
  keys : List.Forall₂ (fun j key => literalKeyAt? ns j = some key) places keys

/-- The places of keys move on by one behind one more node. -/
theorem Places.succ {P Q : Nat → Prop} {n : Node} {ns keys : List Node} {places : List Nat}
    (h : Places P ns keys places) (hzero : ¬ Q 0) (hsucc : ∀ j, Q (j + 1) ↔ P j) :
    Places Q (n :: ns) keys (places.map (· + 1)) := by
  refine ⟨?_, fun j => ?_, ?_⟩
  · exact List.pairwise_map.mpr (h.ordered.imp Nat.succ_lt_succ)
  · rw [List.mem_map]
    constructor
    · rintro ⟨i, hi, rfl⟩
      exact (hsucc i).mpr ((h.mem_iff i).mp hi)
    · intro hj
      cases j with
      | zero => exact absurd hj hzero
      | succ j => exact ⟨j, (h.mem_iff j).mpr ((hsucc j).mp hj), rfl⟩
  · exact List.forall₂_map_left_iff.mpr h.keys

/-- A key at the first place comes before the others. -/
theorem Places.cons {P Q : Nat → Prop} {n key : Node} {ns keys : List Node} {places : List Nat}
    (h : Places P ns keys places) (hkey : literalKey? n = some key) (hzero : Q 0)
    (hsucc : ∀ j, Q (j + 1) ↔ P j) :
    Places Q (n :: ns) (key :: keys) (0 :: places.map (· + 1)) := by
  have hrest := Places.succ (Q := fun j => j ≠ 0 ∧ Q j) (n := n) h (fun h => h.1 rfl) fun j => by
    rw [← hsucc]
    exact and_iff_right (Nat.succ_ne_zero j)
  refine ⟨List.pairwise_cons.mpr ⟨fun j hj => ?_, hrest.ordered⟩, fun j => ?_, .cons hkey hrest.keys⟩
  · exact Nat.pos_of_ne_zero ((hrest.mem_iff j).mp hj).1
  · rw [List.mem_cons, hrest.mem_iff]
    cases j with
    | zero => simp [hzero]
    | succ j => simp

/-- **The keys that are repeated stand where their texts were seen before.** -/
theorem exists_places_repeatedKeys (ns : List Node) : ∀ seen : List String,
    ∃ places, Places (SeenAt seen ns) ns (repeatedKeys seen (ns.filterMap literalKey?)) places := by
  induction ns with
  | nil =>
      refine fun seen => ⟨[], .nil, fun j => ?_, .nil⟩
      simp [SeenAt, literalKeyAt?]
  | cons n ns ih =>
      intro seen
      cases hkey : literalKey? n with
      | none =>
          obtain ⟨places, h⟩ := ih seen
          rw [List.filterMap_cons_none hkey]
          refine ⟨_, h.succ ?_ fun j => seenAt_succ_of_none hkey⟩
          rw [seenAt_zero, hkey]
          rintro ⟨key, h, -⟩
          cases h
      | some key =>
          rw [List.filterMap_cons_some hkey, repeatedKeys]
          split
          next hseen =>
            -- the key was seen, so it is repeated here and stays seen
            have hmem : key.sexp ∈ seen := List.contains_iff_mem.mp hseen
            obtain ⟨places, h⟩ := ih seen
            refine ⟨_, h.cons hkey (seenAt_zero.mpr ⟨key, hkey, hmem⟩) fun j => ?_⟩
            rw [seenAt_succ_of_some hkey, seenAt_cons_of_mem hmem]
          next hseen =>
            obtain ⟨places, h⟩ := ih (key.sexp :: seen)
            refine ⟨_, h.succ ?_ fun j => seenAt_succ_of_some hkey⟩
            rw [seenAt_zero]
            rintro ⟨k, hk, hmem⟩
            cases hkey.symm.trans hk
            exact hseen (List.contains_iff_mem.mpr hmem)

/-- **The warnings about the keys of a hash**: one for each key that is the literal key of an
earlier pair, at the key, if literal keys with the same text are the same. -/
theorem keyWarnings_doubted {n : Node}
    (htexts : ∀ i j a b, n.HasLiteralKey i a → n.HasLiteralKey j b →
      (a.sexp = b.sexp ↔ a.unplaced = b.unplaced)) :
    ∃ places : List Nat, places.Pairwise (· < ·) ∧ (∀ j, j ∈ places ↔ n.RepeatsKey j) ∧
      List.Forall₂ (fun j d => ∃ key, n.HasLiteralKey j key ∧ d = Doubt.duplicateKey.at key.span)
        places n.keyWarnings := by
  obtain ⟨places, hordered, hmem, hkeys⟩ := exists_places_repeatedKeys n.childNodes []
  refine ⟨places, hordered, fun j => ?_, ?_⟩
  · rw [hmem, SeenAt, RepeatsKey]
    simp only [← hasLiteralKey_iff, List.not_mem_nil, false_or]
    refine exists_congr fun key => and_congr_right fun hkey => ?_
    refine exists_congr fun i => and_congr_right fun _ => exists_congr fun earlier => ?_
    exact and_congr_right fun hearlier => htexts i j earlier key hearlier hkey
  · rw [keyWarnings, List.forall₂_map_right_iff]
    exact hkeys.imp fun j key hkey => ⟨key, hasLiteralKey_iff.mpr hkey, rfl⟩

/-! ## §3. Doubts about a visit. -/

/-- The kinds of nodes whose condition is looked at. -/
def conditionKinds : List Kind := [.ifElse, .whileLoop, .untilLoop, .whilePost, .untilPost]

/-- The kinds of nodes whose keys are looked at. -/
def keyKinds : List Kind := [.hash, .kwargs]

/-- **What is doubtful about a visit.**  Where a condition is looked at there is one warning if it
assigns a literal, at the assignment.  Where keys are looked at there is one warning for each key
that is the literal key of an earlier pair, at the key, in the order of the pairs. -/
structure Visit.Doubted (v : Visit) (warnings : List Diagnostic) : Prop where
  assigned : v.method ∈ conditionKinds → ∀ assignment, v.node.ConditionAssigns assignment →
    warnings = [Doubt.literalCondition.at assignment.span]
  unassigned : v.method ∈ conditionKinds → (∀ assignment, ¬ v.node.ConditionAssigns assignment) →
    warnings = []
  keys : v.method ∈ keyKinds → ∃ places : List Nat, places.Pairwise (· < ·) ∧
    (∀ j, j ∈ places ↔ v.node.RepeatsKey j) ∧
    List.Forall₂ (fun j d => ∃ key, v.node.HasLiteralKey j key ∧
      d = Doubt.duplicateKey.at key.span) places warnings
  others : v.method ∉ conditionKinds → v.method ∉ keyKinds → warnings = []

theorem warningsAt_of_condition {method : Kind} (h : method ∈ conditionKinds) (n : Node) :
    warningsAt method n = n.conditionWarnings := by
  simp only [conditionKinds, List.mem_cons, List.not_mem_nil, or_false] at h
  rcases h with rfl | rfl | rfl | rfl | rfl <;> rfl

theorem warningsAt_of_keys {method : Kind} (h : method ∈ keyKinds) (n : Node) :
    warningsAt method n = n.keyWarnings := by
  simp only [keyKinds, List.mem_cons, List.not_mem_nil, or_false] at h
  rcases h with rfl | rfl <;> rfl

theorem warningsAt_of_others {method : Kind} (hcondition : method ∉ conditionKinds)
    (hkeys : method ∉ keyKinds) (n : Node) : warningsAt method n = [] := by
  cases method <;> first | rfl | exact absurd (by decide) hcondition | exact absurd (by decide) hkeys

/-- The warnings at a visit are what is doubtful about it. -/
theorem warningsAt_doubted {v : Visit}
    (htexts : ∀ i j a b, v.node.HasLiteralKey i a → v.node.HasLiteralKey j b →
      (a.sexp = b.sexp ↔ a.unplaced = b.unplaced)) :
    v.Doubted (warningsAt v.method v.node) where
  assigned h := by
    rw [warningsAt_of_condition h]
    exact (conditionWarnings_doubted v.node).1
  unassigned h := by
    rw [warningsAt_of_condition h]
    exact (conditionWarnings_doubted v.node).2
  keys h := by
    rw [warningsAt_of_keys h]
    exact keyWarnings_doubted htexts
  others hcondition hkeys := warningsAt_of_others hcondition hkeys v.node

/-- **The warnings about a tree are those about the visits of its tour.** -/
theorem warnings_eq (n : Node) :
    n.warnings = (tourAs n.kind n).flatMap fun p => warningsAt p.2.method p.2.node := by
  have hafter : ∀ (tour : List (List Nat × Visit)) (found : List Diagnostic),
      (doubter.after tour found).reverse =
        found.reverse ++ tour.flatMap fun p => warningsAt p.2.method p.2.node := by
    intro tour
    induction tour with
    | nil => simp [Visitor.after]
    | cons p tour ih =>
        intro found
        have hstep : doubter.after (p :: tour) found =
            doubter.after tour ((warningsAt p.2.method p.2.node).reverse ++ found) := rfl
        rw [hstep, ih]
        simp
  rw [warnings, walk, walkAs_eq_after fun _ _ => rfl, hafter]
  rfl

/-! ## §4. Texts of literals. -/

/-- A floating-point number stands in a slot of a tree. -/
def HoldsFloat (n : Node) (x : Float) : Prop := ∃ m ∈ n.preorder, Child.float x ∈ m.children

/-- Where a tree has no more than one floating-point number they are all the same. -/
theorem eq_of_holdsFloat {n : Node} {x y : Float}
    (h : (n.preorder.flatMap fun m => m.children.filter Child.isFloat).length ≤ 1)
    (hx : n.HoldsFloat x) (hy : n.HoldsFloat y) : x = y := by
  have hmem : ∀ z, n.HoldsFloat z →
      Child.float z ∈ n.preorder.flatMap fun m => m.children.filter Child.isFloat := by
    rintro z ⟨m, hm, hz⟩
    exact List.mem_flatMap.mpr ⟨m, hm, List.mem_filter.mpr ⟨hz, rfl⟩⟩
  have hx := hmem x hx
  have hy := hmem y hy
  match hlist : n.preorder.flatMap fun m => m.children.filter Child.isFloat with
  | [] =>
      rw [hlist] at hx
      cases hx
  | [c] =>
      rw [hlist] at hx hy
      cases (List.mem_singleton.mp hx).trans (List.mem_singleton.mp hy).symm
      rfl
  | _ :: _ :: _ =>
      rw [hlist] at h
      exact absurd h (by simp)

/-- **Literals of a tree with the same text are the same**, their places aside, if floating-point
numbers of the tree with the same text are. -/
theorem sexp_eq_iff {root m n : Node} (hwell : root.WellFormed)
    (hfloats : ∀ x y, root.HoldsFloat x → root.HoldsFloat y → floatText x = floatText y → x = y)
    (hm : m ∈ root.preorder) (hn : n ∈ root.preorder) (hmliteral : m.isLiteral = true)
    (hnliteral : n.isLiteral = true) : m.sexp = n.sexp ↔ m.unplaced = n.unplaced := by
  have hfits := everywhere_iff_preorder.mp hwell
  constructor
  · refine literal_sexp_inj hmliteral hnliteral (hfits m hm) (hfits n hn) ?_
    rintro _ hc _ hd x y rfl rfl
    exact hfloats x y ⟨m, hm, hc⟩ ⟨n, hn, hd⟩
  · intro h
    rw [← sexp_unplaced m, h, sexp_unplaced]

theorem HasLiteralKey.isLiteral {n key : Node} {j : Nat} (h : n.HasLiteralKey j key) :
    key.isLiteral = true := by
  obtain ⟨pair, -, -, -, hliteral⟩ := h
  exact hliteral

/-- The literal keys of a node of a tree are nodes of the tree. -/
theorem HasLiteralKey.mem_preorder {root n key : Node} {path : List Nat} {j : Nat}
    (hn : root.at? path = some n) (h : n.HasLiteralKey j key) : key ∈ root.preorder := by
  have hall : Everywhere (· ∈ root.preorder) root := everywhere_iff_preorder.mpr fun _ hm => hm
  obtain ⟨pair, hpair, -, hkey, -⟩ := h
  obtain ⟨c, hc, hnode⟩ := List.mem_filterMap.mp (List.mem_of_getElem? hpair)
  cases c <;> cases hnode
  exact (everywhere_childNode ((everywhere_at? hall hn).child hc) hkey).here

end Node

/-! ## §5. Programs. -/

namespace Program

open Node

variable {version : Version} {text : String} {p : Program}

/-- **The warnings about a program** are what is doubtful about the visits of a walk, in their order,
if floating-point numbers of the program with the same text are the same.  In particular literals
have the same text if and only if they are the same but for their places. -/
theorem warnings_listed (h : (read version text).1 = .ok p)
    (hfloats : ∀ x y, p.tree.HoldsFloat x → p.tree.HoldsFloat y → floatText x = floatText y →
      x = y) :
    (∃ (tour : List (List Nat × Visit)) (doubts : List (List Diagnostic)),
      tour.Pairwise (·.1 < ·.1) ∧
      (∀ path v, (path, v) ∈ tour → p.tree.at? path = some v.node) ∧
      tour.map (·.2) = Node.log (fun _ => true) (fun _ => false) p.tree ∧
      List.Forall₂ (fun visit warnings => visit.2.Doubted warnings) tour doubts ∧
      p.tree.warnings = doubts.flatten) ∧
    ∀ m ∈ p.tree.preorder, ∀ n ∈ p.tree.preorder, m.isLiteral = true → n.isLiteral = true →
      (m.sexp = n.sexp ↔ m.unplaced = n.unplaced) := by
  obtain ⟨lexed, found, -, -, -, htree⟩ := eq_of_read h
  have htexts : ∀ m ∈ p.tree.preorder, ∀ n ∈ p.tree.preorder, m.isLiteral = true →
      n.isLiteral = true → (m.sexp = n.sexp ↔ m.unplaced = n.unplaced) :=
    fun m hm n hn hmliteral hnliteral =>
      sexp_eq_iff (treeOf_wellFormed htree) hfloats hm hn hmliteral hnliteral
  let tour := tourAs p.tree.kind p.tree
  have hat : ∀ path v, (path, v) ∈ tour → p.tree.at? path = some v.node :=
    fun path v hv => (mem_tourAs.mp hv).1
  refine ⟨⟨tour, tour.map fun visit => warningsAt visit.2.method visit.2.node,
    tourAs_ordered p.tree _, hat, ?_, ?_, ?_⟩, htexts⟩
  · rw [log_eq]
    simp [cutAt_of_none, tour]
  · rw [List.forall₂_map_right_iff, List.forall₂_same]
    rintro ⟨path, v⟩ hv
    refine warningsAt_doubted fun i j a b ha hb => ?_
    have hnode := hat path v hv
    exact htexts a (ha.mem_preorder hnode) b (hb.mem_preorder hnode) ha.isLiteral hb.isLiteral
  · rw [warnings_eq, List.flatMap_def]

/-- A key that stands twice, and behind it a condition between parentheses that assigns a number. -/
theorem warnings_listed_of_literals :
    ∃ p, (read ⟨3, 4⟩ "\x7b1 => 2, 1 => 3\x7d if (a = 1.5)").1 = .ok p ∧
      p.tree.warnings.map (·.span.start) = [21, 9] ∧
      (∀ x y, p.tree.HoldsFloat x → p.tree.HoldsFloat y → floatText x = floatText y → x = y) ∧
      (∃ (tour : List (List Nat × Visit)) (doubts : List (List Diagnostic)),
        tour.Pairwise (·.1 < ·.1) ∧
        (∀ path v, (path, v) ∈ tour → p.tree.at? path = some v.node) ∧
        tour.map (·.2) = Node.log (fun _ => true) (fun _ => false) p.tree ∧
        List.Forall₂ (fun visit warnings => visit.2.Doubted warnings) tour doubts ∧
        p.tree.warnings = doubts.flatten) ∧
      ∀ m ∈ p.tree.preorder, ∀ n ∈ p.tree.preorder, m.isLiteral = true → n.isLiteral = true →
        (m.sexp = n.sexp ↔ m.unplaced = n.unplaced) := by
  have hread : ((read ⟨3, 4⟩
      "\x7b1 => 2, 1 => 3\x7d if (a = 1.5)").1.toOption.any fun p =>
        decide (p.tree.warnings.map (·.span.start) = [21, 9]) && decide
          ((p.tree.preorder.flatMap fun m => m.children.filter Child.isFloat).length ≤ 1)) = true := by
    decide +kernel
  obtain ⟨p, hp, hfacts⟩ := exists_of_any hread
  simp only [Bool.and_eq_true, decide_eq_true_eq] at hfacts
  have hfloats : ∀ x y, p.tree.HoldsFloat x → p.tree.HoldsFloat y → floatText x = floatText y →
      x = y :=
    fun x y hx hy _ => eq_of_holdsFloat hfacts.2 hx hy
  exact ⟨p, hp, hfacts.1, hfloats, warnings_listed hp hfloats⟩

end Program

end RubySyntax
