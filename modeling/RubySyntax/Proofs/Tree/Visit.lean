/-
  RubySyntax.Proofs.Tree.Visit
  ────────────────────────────
  **WHICH NODES A WALK VISITS.**

  A visitor that records every visit and always descends records its tour.  In the tree of a
  program the slots that a walk passes over are those that `Kind.hides` lists: all slots of a
  block parameter that takes apart what it is given, and what a `break` or a `next` carries
  besides its first value.

      walk visits the node at a path  ⇔  no step of the path is hidden

  Main results:
    • `walk_recordAll` — a walk of any tree records its tour,
    • `mem_tourAs_of_wellFormed` — what the tour of a well-formed tree comes to,
    • `Program.walk_reaches` — a walk of a program visits each node that is not behind a hidden
      slot exactly once, by the method of its kind.
-/
import RubySyntax.Proofs.Tree.Layout.Program
import RubySyntax.Proofs.Tree.Tour

namespace RubySyntax

namespace Node

/-! ## §1. Paths. -/

/-- The slots that a walk passes over although they can hold nodes. -/
def Kind.hides (k : Kind) (i : Nat) : Bool :=
  match k with
  | .procarg0 => true
  | .breakJump | .nextJump => 0 < i
  | _ => false

/-- Whether a path leads to a node and no step of it is hidden. -/
def reaches : Node → List Nat → Bool
  | _, [] => true
  | n, i :: path => !n.kind.hides i && (n.childNode? i).any fun m => m.reaches path

theorem exists_at?_of_reaches {path : List Nat} :
    ∀ {n : Node}, n.reaches path = true → ∃ m, n.at? path = some m := by
  induction path with
  | nil => exact fun _ => ⟨_, rfl⟩
  | cons i path ih =>
      intro n h
      simp only [reaches, Bool.and_eq_true, Option.any_eq_true] at h
      obtain ⟨-, m, hm, h⟩ := h
      obtain ⟨k, hk⟩ := ih h
      exact ⟨k, by rw [at?, hm, Option.bind_some, hk]⟩

/-! ## §2. Recording every visit. -/

/-- The visitor that records all visits, latest first, and always descends. -/
def recordAll : Visitor (List Visit) := .recorder (fun _ => true) (fun _ => false)

/-- **A walk of any tree records its tour.** -/
theorem walk_recordAll (n : Node) (method : Kind) (log : List Visit) :
    walkAs recordAll method n log = ((tourAs method n).map (·.2)).reverse ++ log := by
  have hkeeps : keeps (fun _ => true) (fun _ => false) method n = fun _ => true := by
    funext p
    simp [keeps, cutAt_of_none]
  rw [recordAll, walkAs_recorder, hkeeps, List.filter_true]

/-! ## §3. Slots that hold nodes. -/

/-- The forms that the slot at an index may have in a layout. -/
def Layout.formsAt (l : Layout) (i : Nat) : List Form :=
  match l.front[i]? with
  | some form => [form]
  | none => l.more.toList ++ l.last

theorem Layout.fitsExactly_getElem? {forms : List Form} {children : List Child} {i : Nat}
    {c : Child} (h : fitsExactly forms children = true) (hc : children[i]? = some c) :
    ∃ form ∈ forms, form.holds c = true := by
  induction forms generalizing children i with
  | nil =>
      cases children with
      | nil => cases hc
      | cons _ _ => cases h
  | cons form forms ih =>
      cases children with
      | nil => cases h
      | cons d rest =>
          simp only [fitsExactly, Bool.and_eq_true] at h
          cases i with
          | zero =>
              cases hc
              exact ⟨form, List.mem_cons_self, h.1⟩
          | succ i =>
              obtain ⟨f, hf, hholds⟩ := ih h.2 hc
              exact ⟨f, List.mem_cons_of_mem _ hf, hholds⟩

theorem Layout.fitsTail_getElem? {more : Option Form} {last : List Form} {children : List Child}
    {i : Nat} {c : Child} (h : fitsTail more last children = true) (hc : children[i]? = some c) :
    ∃ form ∈ more.toList ++ last, form.holds c = true := by
  induction children generalizing i with
  | nil => cases hc
  | cons d rest ih =>
      simp only [fitsTail, Bool.or_eq_true, Bool.and_eq_true, Option.any_eq_true] at h
      rcases h with h | ⟨⟨form, hform, hd⟩, h⟩
      · obtain ⟨f, hf, hholds⟩ := fitsExactly_getElem? h hc
        exact ⟨f, List.mem_append_right _ hf, hholds⟩
      · cases i with
        | zero =>
            cases hc
            exact ⟨form, List.mem_append_left _ (Option.mem_toList.mpr hform), hd⟩
        | succ i => exact ih h hc

/-- What a slot holds is of a form that its layout has for it. -/
theorem Layout.fits_getElem? {l : Layout} {children : List Child} {i : Nat} {c : Child}
    (h : l.fits children = true) (hc : children[i]? = some c) :
    ∃ form ∈ l.formsAt i, form.holds c = true := by
  obtain ⟨front, more, last⟩ := l
  unfold fits at h
  dsimp only at h
  induction front generalizing children i with
  | nil => exact fitsTail_getElem? h hc
  | cons form front ih =>
      cases children with
      | nil => cases hc
      | cons d rest =>
          simp only [fitsFront, Bool.and_eq_true] at h
          cases i with
          | zero =>
              cases hc
              exact ⟨form, List.mem_singleton_self _, h.1⟩
          | succ i => exact ih hc h.2

/-- Whether a form can hold a node. -/
def Form.takesNodes : Form → Bool
  | .node | .nodeOf _ | .part | .callee => true
  | .name | .text | .number | .count => false

theorem Form.takesNodes_of_holds {form : Form} {n : Node} (h : form.holds (.node n) = true) :
    form.takesNodes = true := by
  cases form <;> first | rfl | cases h

/-- Whether a walk treats a slot of a form as `Kind.hides` says: it passes over the hidden ones,
enters the others, and takes for a parameter list only what is one. -/
def Kind.treats (k : Kind) (i : Nat) (form : Form) : Bool :=
  match k.shape.slot i with
  | .skipped => k.hides i
  | .entered => !k.hides i
  | .parameters => !k.hides i && form == .nodeOf [.args]

theorem Shape.slot_of_le (s : Shape) {i : Nat} (hi : 4 ≤ i) : s.slot i = s.slot 4 := by
  obtain ⟨j, rfl⟩ := Nat.exists_eq_add_of_le' hi
  cases s with
  | bespoke c => cases c <;> rfl
  | _ => rfl

theorem Kind.treats_of_le (k : Kind) {i : Nat} (form : Form) (hi : 4 ≤ i) :
    k.treats i form = k.treats 4 form := by
  have hhides : k.hides i = k.hides 4 := by
    unfold Kind.hides
    split
    · rfl
    · simp only [decide_eq_decide]
      omega
    · simp only [decide_eq_decide]
      omega
    · rfl
  unfold Kind.treats
  rw [Shape.slot_of_le _ hi, hhides]

theorem front_length_le (k : Kind) : ∀ l ∈ k.layouts, l.front.length ≤ 4 := by
  cases k <;> decide

/-- The slots that a layout gives to nodes are treated as `Kind.hides` says. -/
theorem treats_of_layout (k : Kind) :
    ∀ l ∈ k.layouts, ∀ i, ∀ form ∈ l.formsAt i, form.takesNodes = true →
      k.treats i form = true := by
  -- from the fourth slot on all slots are alike, so the first five tell of all
  have hsmall : ∀ l ∈ k.layouts, ∀ i < 5, ∀ form ∈ l.formsAt i, form.takesNodes = true →
      k.treats i form = true := by
    cases k <;> decide
  intro l hl i form hform htakes
  by_cases hi : i < 5
  · exact hsmall l hl i hi form hform htakes
  · have hat : l.formsAt i = l.formsAt 4 := by
      have hfront := front_length_le k l hl
      unfold Layout.formsAt
      rw [List.getElem?_eq_none (by omega), List.getElem?_eq_none (by omega)]
    rw [hat] at hform
    rw [Kind.treats_of_le k form (by omega)]
    exact hsmall l hl 4 (by omega) form hform htakes

/-- The slots of a well-formed node that hold nodes are treated as `Kind.hides` says. -/
theorem tourSlot_of_fits {n m : Node} {i : Nat} (h : Fits n) (hm : n.childNode? i = some m) :
    tourSlot (n.kind.shape.slot i) (.node m) =
      if n.kind.hides i then [] else tourAs m.kind m := by
  obtain ⟨l, hl, hfits⟩ := List.any_eq_true.mp h
  obtain ⟨form, hform, hholds⟩ := Layout.fits_getElem? hfits (childNode?_eq_some.mp hm)
  have htreats := treats_of_layout n.kind l hl i form hform (Form.takesNodes_of_holds hholds)
  unfold Kind.treats at htreats
  split at htreats
  next hslot =>
    rw [hslot, htreats]
    rfl
  next hslot =>
    rw [Bool.not_eq_true'] at htreats
    rw [hslot, htreats]
    rfl
  next hslot =>
    -- a parameter list is visited as one, which is what it is
    simp only [Bool.and_eq_true, Bool.not_eq_true', beq_iff_eq] at htreats
    obtain ⟨hhides, rfl⟩ := htreats
    have hargs : m.kind = .args := by simpa using hholds
    rw [hslot, hhides, hargs]
    rfl

/-- **What the tour of a well-formed tree comes to**: the nodes that no hidden slot lies before,
by the methods of their kinds. -/
theorem mem_tourAs_of_wellFormed {path : List Nat} :
    ∀ {n : Node}, n.WellFormed → ∀ {v : Visit}, (path, v) ∈ tourAs n.kind n ↔
      n.reaches path = true ∧ n.at? path = some v.node ∧ v.method = v.node.kind := by
  induction path with
  | nil =>
      intro n _ v
      rw [mem_tourAs_nil]
      constructor
      · rintro rfl
        exact ⟨rfl, rfl, rfl⟩
      · rintro ⟨-, hat, hmethod⟩
        obtain ⟨method, m⟩ := v
        cases hat
        exact congrArg (Visit.mk · m) hmethod
  | cons i path ih =>
      intro n hn v
      rw [mem_tourAs_cons, reaches, at?]
      cases hm : n.childNode? i with
      | none => simp
      | some m =>
          have hmwell : m.WellFormed := hn.child (List.mem_of_getElem? (childNode?_eq_some.mp hm))
          have hslot := tourSlot_of_fits hn.here hm
          cases hhides : n.kind.hides i with
          | true =>
              rw [hhides, if_pos rfl] at hslot
              simp [hslot]
          | false =>
              rw [hhides, if_neg Bool.false_ne_true] at hslot
              simp [hslot, ih hmwell]

end Node

/-! ## §4. Programs. -/

namespace Program

/-- **A walk of a program visits each node that no hidden slot lies before exactly once**, by the
method of its kind, and visits nothing else. -/
theorem walk_reaches {version : Version} {text : String} {p : Program}
    (h : (read version text).1 = .ok p) :
    ∃ paths : List (List Nat), paths.Nodup ∧
      (∀ path, path ∈ paths ↔ p.tree.reaches path = true) ∧
      ((Node.walk Node.recordAll p.tree []).reverse.map some =
        paths.map fun path => (p.tree.at? path).map fun n => ⟨n.kind, n⟩) := by
  obtain ⟨lexed, found, -, -, -, htree⟩ := eq_of_read h
  have hwell := treeOf_wellFormed htree
  have hmem : ∀ path v, (path, v) ∈ Node.tourAs p.tree.kind p.tree ↔
      p.tree.reaches path = true ∧ p.tree.at? path = some v.node ∧ v.method = v.node.kind :=
    fun path v => Node.mem_tourAs_of_wellFormed hwell
  refine ⟨(Node.tourAs p.tree.kind p.tree).map (·.1), Node.tourAs_nodup _ _, ?_, ?_⟩
  · intro path
    constructor
    · intro hpath
      obtain ⟨⟨path, v⟩, hv, rfl⟩ := List.mem_map.mp hpath
      exact ((hmem _ _).mp hv).1
    · intro hpath
      obtain ⟨m, hm⟩ := Node.exists_at?_of_reaches hpath
      exact List.mem_map.mpr ⟨(path, ⟨m.kind, m⟩), (hmem _ _).mpr ⟨hpath, hm, rfl⟩, rfl⟩
  · rw [Node.walk, Node.walk_recordAll, List.append_nil, List.reverse_reverse, List.map_map,
      List.map_map]
    apply List.map_congr_left
    rintro ⟨path, v⟩ hv
    obtain ⟨-, hat, hmethod⟩ := (hmem _ _).mp hv
    show some v = (p.tree.at? path).map _
    rw [hat, Option.map_some, ← hmethod]

/-- The second value that a `break` carries is a node of the tree that a walk does not visit. -/
theorem walk_reaches_break : ∃ p, (read ⟨3, 4⟩ "break 1, 2").1 = .ok p ∧
    (p.tree.at? [1]).map Node.kind = some .int ∧ p.tree.reaches [1] = false ∧
    ∃ paths : List (List Nat), paths.Nodup ∧
      (∀ path, path ∈ paths ↔ p.tree.reaches path = true) ∧
      ((Node.walk Node.recordAll p.tree []).reverse.map some =
        paths.map fun path => (p.tree.at? path).map fun n => ⟨n.kind, n⟩) := by
  have hread : ((read ⟨3, 4⟩ "break 1, 2").1.toOption.any fun p =>
      (p.tree.at? [1]).map Node.kind == some .int && !p.tree.reaches [1]) = true := by
    decide +kernel
  obtain ⟨p, hp, hbreak⟩ := exists_of_any hread
  simp only [Bool.and_eq_true, beq_iff_eq, Bool.not_eq_true'] at hbreak
  exact ⟨p, hp, hbreak.1, hbreak.2, walk_reaches hp⟩

end Program

end RubySyntax
