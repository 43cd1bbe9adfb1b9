/-
  RubySyntax.Proofs.Tree.Tour
  ───────────────────────────
  **WHAT A WALK RECORDS.**

  A path names the place of a node in a tree: the slots to go through from the root.  A walk that
  is cut nowhere makes a tour: it comes to places one by one, to each by a method, in the order of
  the paths.  A visitor that records some methods and goes no further behind some of them logs a
  part of the tour:

      log  =  tour, without the methods that are not recorded
                    and without what is below a visit that prunes

  Nothing is asked of the tree: a slot may hold a node of any kind.

  Main results:
    • `mem_tourAs` — what a tour comes to, and by which method,
    • `tourAs_ordered` — it does so in the order of the paths,
    • `walkAs_eq_after` — what a walk that always descends comes to,
    • `walkAs_recorder` — what a walk adds to a log,
    • `logs_agree` — how the logs of all visitors of a tree are parts of its tour.
-/
import RubySyntax.Node.Walk
import RubySyntax.Proofs.Tree.Everywhere

namespace RubySyntax.Node

/-! ## §1. Places. -/

/-- The node at the end of a path. -/
def at? : Node → List Nat → Option Node
  | n, [] => some n
  | n, i :: path => (n.childNode? i).bind fun m => m.at? path

/-- The method by which a walk enters a slot with a node of a kind in it. -/
def SlotUse.method? : SlotUse → Kind → Option Kind
  | .skipped, _ => none
  | .entered, k => some k
  | .parameters, _ => some .args

/-- The method by which a walk that has come to a node by a method comes to the end of a path. -/
def methodAt? (method : Kind) : Node → List Nat → Option Kind
  | _, [] => some method
  | n, i :: path => (n.childNode? i).bind fun m =>
      ((n.kind.shape.slot i).method? m.kind).bind fun entry => m.methodAt? entry path

/-- Whether a walk has met a method that prunes before the end of a path. -/
def cutAt (prunes : Kind → Bool) (method : Kind) (n : Node) (path : List Nat) : Bool :=
  (List.range path.length).any fun l => (n.methodAt? method (path.take l)).any prunes

theorem methodAt?_cons {method entry : Kind} {n m : Node} {i : Nat} (hm : n.childNode? i = some m)
    (hentry : (n.kind.shape.slot i).method? m.kind = some entry) (path : List Nat) :
    n.methodAt? method (i :: path) = m.methodAt? entry path := by
  rw [methodAt?, hm, Option.bind_some, hentry, Option.bind_some]

theorem cutAt_cons {prunes : Kind → Bool} {method entry : Kind} {n m : Node} {i : Nat}
    (hm : n.childNode? i = some m) (hentry : (n.kind.shape.slot i).method? m.kind = some entry)
    (path : List Nat) :
    cutAt prunes method n (i :: path) = (prunes method || cutAt prunes entry m path) := by
  simp only [cutAt, List.length_cons, List.range_succ_eq_map, List.any_cons, List.any_map,
    Function.comp_def, List.take_zero, List.take_succ_cons, methodAt?_cons hm hentry]
  rfl

/-- Nothing is cut where nothing prunes. -/
theorem cutAt_of_none (method : Kind) (n : Node) (path : List Nat) :
    cutAt (fun _ => false) method n path = false := by
  simp [cutAt]

/-- Where the root prunes, everything below it is cut. -/
theorem cutAt_of_root {prunes : Kind → Bool} {method : Kind} (h : prunes method = true) (n : Node)
    {path : List Nat} (hpath : path ≠ []) : cutAt prunes method n path = true := by
  refine List.any_eq_true.mpr ⟨0, List.mem_range.mpr (List.length_pos_iff.mpr hpath), ?_⟩
  rw [List.take_zero, methodAt?, Option.any_some, h]

/-! ## §2. Tours. -/

mutual

/-- The visits of a walk in order, each with the path to its node. -/
def tourAs (method : Kind) : Node → List (List Nat × Visit)
  | .mk kind children span =>
    ([], ⟨method, .mk kind children span⟩) :: tourSlots kind.shape 0 children

/-- The visits below some slots, from an index on. -/
def tourSlots (shape : Shape) (i : Nat) : List Child → List (List Nat × Visit)
  | [] => []
  | c :: rest =>
    (tourSlot (shape.slot i) c).map (Prod.map (i :: ·) id) ++ tourSlots shape (i + 1) rest

/-- The visits in one slot. -/
def tourSlot (use : SlotUse) : Child → List (List Nat × Visit)
  | .node n =>
    match use with
    | .skipped => []
    | .entered => tourAs n.kind n
    | .parameters => tourAs .args n
  | _ => []

end

theorem mem_tourSlots {shape : Shape} {path : List Nat} {v : Visit} {children : List Child} :
    ∀ {i : Nat}, (path, v) ∈ tourSlots shape i children ↔
      ∃ j n rest, children[j]? = some (.node n) ∧ path = (i + j) :: rest ∧
        (rest, v) ∈ tourSlot (shape.slot (i + j)) (.node n) := by
  induction children with
  | nil => simp [tourSlots]
  | cons c rest ih =>
      intro i
      rw [tourSlots, List.mem_append, ih]
      constructor
      · rintro (h | ⟨j, n, path', hn, hpath, h⟩)
        · obtain ⟨⟨path', v'⟩, hmem, heq⟩ := List.mem_map.mp h
          cases heq
          cases c with
          | node n => exact ⟨0, n, path', rfl, rfl, hmem⟩
          | _ => simp [tourSlot] at hmem
        · refine ⟨j + 1, n, path', hn, ?_, ?_⟩
          · rw [hpath, Nat.add_assoc, Nat.add_comm 1 j]
          · rwa [Nat.add_assoc, Nat.add_comm 1 j] at h
      · rintro ⟨j, n, path', hn, hpath, h⟩
        cases j with
        | zero =>
            cases hn
            exact .inl (List.mem_map.mpr ⟨_, h, by rw [hpath]; rfl⟩)
        | succ j =>
            refine .inr ⟨j, n, path', hn, ?_, ?_⟩
            · rw [hpath, Nat.add_assoc, Nat.add_comm 1 j]
            · rwa [Nat.add_assoc, Nat.add_comm 1 j]

theorem mem_tourAs_nil {method : Kind} {n : Node} {v : Visit} :
    ([], v) ∈ tourAs method n ↔ v = ⟨method, n⟩ := by
  cases n with
  | mk kind children span =>
      rw [tourAs, List.mem_cons, mem_tourSlots]
      simp

theorem mem_tourAs_cons {method : Kind} {n : Node} {i : Nat} {path : List Nat} {v : Visit} :
    (i :: path, v) ∈ tourAs method n ↔
      ∃ m, n.childNode? i = some m ∧ (path, v) ∈ tourSlot (n.kind.shape.slot i) (.node m) := by
  cases n with
  | mk kind children span =>
      rw [tourAs, List.mem_cons, mem_tourSlots]
      simp only [childNode?_eq_some, Node.children, Node.kind]
      constructor
      · rintro (h | ⟨j, m, rest, hm, hpath, h⟩)
        · cases h
        · rw [Nat.zero_add] at hpath h
          cases hpath
          exact ⟨m, hm, h⟩
      · rintro ⟨m, hm, h⟩
        exact .inr ⟨i, m, path, hm, by rw [Nat.zero_add], by rwa [Nat.zero_add]⟩

theorem mem_tourSlot_node {use : SlotUse} {n : Node} {p : List Nat × Visit} :
    p ∈ tourSlot use (.node n) ↔ ∃ entry, use.method? n.kind = some entry ∧ p ∈ tourAs entry n := by
  cases use <;> simp [tourSlot, SlotUse.method?]

/-- **What a tour comes to**: the places to which the slots on the way are entered, each by the
method of the last of them. -/
theorem mem_tourAs {path : List Nat} :
    ∀ {method : Kind} {n : Node} {v : Visit}, (path, v) ∈ tourAs method n ↔
      n.at? path = some v.node ∧ n.methodAt? method path = some v.method := by
  induction path with
  | nil =>
      intro method n v
      obtain ⟨entry, m⟩ := v
      rw [mem_tourAs_nil, at?, methodAt?]
      simp [eq_comm, and_comm]
  | cons i path ih =>
      intro method n v
      rw [mem_tourAs_cons, at?, methodAt?]
      constructor
      · rintro ⟨m, hm, h⟩
        obtain ⟨entry, hentry, h⟩ := mem_tourSlot_node.mp h
        rw [hm, Option.bind_some, Option.bind_some, hentry, Option.bind_some]
        exact ih.mp h
      · rintro ⟨hat, hmethod⟩
        obtain ⟨m, hm, hat⟩ := Option.bind_eq_some_iff.mp hat
        rw [hm, Option.bind_some] at hmethod
        obtain ⟨entry, hentry, hmethod⟩ := Option.bind_eq_some_iff.mp hmethod
        exact ⟨m, hm, mem_tourSlot_node.mpr ⟨entry, hentry, ih.mpr ⟨hat, hmethod⟩⟩⟩

/-! ## §3. The order of a tour. -/

/-- The visits below some slots are in order if those below each slot are. -/
theorem tourSlots_ordered {shape : Shape} {children : List Child} :
    ∀ {i : Nat}, (∀ c ∈ children, ∀ use, (tourSlot use c).Pairwise (·.1 < ·.1)) →
      (tourSlots shape i children).Pairwise (·.1 < ·.1) := by
  induction children with
  | nil => simp [tourSlots]
  | cons c rest ih =>
      intro i h
      obtain ⟨hc, hrest⟩ := List.forall_mem_cons.mp h
      rw [tourSlots, List.pairwise_append]
      refine ⟨?_, ih hrest, ?_⟩
      · rw [List.pairwise_map]
        exact (hc _).imp fun hlt => List.cons_lt_cons_iff.mpr (.inr ⟨rfl, hlt⟩)
      · -- what is in this slot begins with its index, and what comes after with a greater
        intro a ha b hb
        obtain ⟨⟨p, v⟩, -, rfl⟩ := List.mem_map.mp ha
        obtain ⟨path, w⟩ := b
        obtain ⟨j, m, rest', -, rfl, -⟩ := mem_tourSlots.mp hb
        exact List.cons_lt_cons_iff.mpr (.inl (by omega))

/-- **A tour goes in the order of the paths**: a node before what is below it, and the slots of a
node in their order. -/
theorem tourAs_ordered (n : Node) : ∀ method, (tourAs method n).Pairwise (·.1 < ·.1) := by
  induction n using ind with
  | mk kind children span ih =>
      intro method
      have hslot : ∀ c ∈ children, ∀ use, (tourSlot use c).Pairwise (·.1 < ·.1) := by
        intro c hc use
        cases c with
        | node m =>
            cases use with
            | skipped => exact List.Pairwise.nil
            | entered => exact ih m hc m.kind
            | parameters => exact ih m hc .args
        | _ => simp [tourSlot]
      rw [tourAs, List.pairwise_cons]
      refine ⟨?_, tourSlots_ordered hslot⟩
      rintro ⟨path, v⟩ hv
      obtain ⟨j, m, rest, -, rfl, -⟩ := mem_tourSlots.mp hv
      exact List.nil_lt_cons _ _

/-- A tour comes to no place twice. -/
theorem tourAs_nodup (method : Kind) (n : Node) : ((tourAs method n).map (·.1)).Nodup := by
  rw [List.Nodup, List.pairwise_map]
  refine (tourAs_ordered n method).imp ?_
  intro a b hlt heq
  rw [heq] at hlt
  exact List.lt_irrefl _ hlt

/-! ## §4. Walks that always descend. -/

section Descending

variable {σ : Type} {v : Visitor σ}

/-- The state after the visits of a tour. -/
def Visitor.after (v : Visitor σ) (tour : List (List Nat × Visit)) (state : σ) : σ :=
  tour.foldl (fun state p => v.visit p.2.method p.2.node state) state

theorem walkSlots_eq_after {shape : Shape} {children : List Child}
    (h : ∀ n, Child.node n ∈ children → ∀ method state,
      walkAs v method n state = v.after (tourAs method n) state) :
    ∀ {i : Nat} {state : σ},
      walkSlots v shape i children state = v.after (tourSlots shape i children) state := by
  induction children with
  | nil => exact rfl
  | cons c rest ih =>
      intro i state
      have hslot : walkSlot v (shape.slot i) c state = v.after (tourSlot (shape.slot i) c) state := by
        cases c with
        | node n =>
            cases shape.slot i with
            | skipped => rfl
            | entered => exact h n List.mem_cons_self n.kind state
            | parameters => exact h n List.mem_cons_self .args state
        | _ => simp [walkSlot, tourSlot, Visitor.after]
      rw [walkSlots, tourSlots, ih fun n hn => h n (List.mem_cons_of_mem _ hn), hslot]
      simp [Visitor.after, List.foldl_append, List.foldl_map]

/-- **A walk that always descends makes its tour.** -/
theorem walkAs_eq_after (hdescends : ∀ method n, v.descends method n = true) (n : Node) :
    ∀ method state, walkAs v method n state = v.after (tourAs method n) state := by
  induction n using ind with
  | mk kind children span ih =>
      intro method state
      rw [walkAs, hdescends, if_pos rfl, walkSlots_eq_after ih, tourAs]
      rfl

end Descending

/-! ## §5. Logs. -/

/-- What a walk adds to a log in some slots, if in each of them it adds the visits of its tour
that are to be kept. -/
theorem walkSlots_adds {v : Visitor (List Visit)} {shape : Shape} {children : List Child}
    (keep : List Nat × Visit → Bool) :
    ∀ {i : Nat}, (∀ j c, children[j]? = some c → ∀ log,
        walkSlot v (shape.slot (i + j)) c log =
          (((tourSlot (shape.slot (i + j)) c).filter
            (keep ∘ Prod.map ((i + j) :: ·) id)).map (·.2)).reverse ++ log) →
      ∀ log, walkSlots v shape i children log =
        (((tourSlots shape i children).filter keep).map (·.2)).reverse ++ log := by
  induction children with
  | nil => exact fun _ _ => rfl
  | cons c rest ih =>
      intro i h log
      have hslot := h 0 c rfl
      rw [Nat.add_zero] at hslot
      have hrest := ih (i := i + 1) fun j d hd => by
        have hnext := h (j + 1) d hd
        rwa [← Nat.add_assoc, Nat.add_right_comm] at hnext
      -- the log is kept latest first, so the tour of this slot stands behind that of the others
      rw [walkSlots, tourSlots, hrest, hslot]
      simp [List.filter_map]

section Recorder

variable (records prunes : Kind → Bool)

/-- The visits that a recorder keeps: those by a method that it records, with no visit above them
by a method that it records and prunes. -/
def keeps (method : Kind) (n : Node) (p : List Nat × Visit) : Bool :=
  records p.2.method && !cutAt (fun k => records k && prunes k) method n p.1

variable {records prunes}

/-- Of its tour a recorder keeps the first visit if it records the method. -/
theorem filter_keeps_tourAs (method kind : Kind) (children : List Child) (span : Span) :
    ((tourAs method (.mk kind children span)).filter
        (keeps records prunes method (.mk kind children span))).map (·.2) =
      (if records method then [⟨method, .mk kind children span⟩] else []) ++
        ((tourSlots kind.shape 0 children).filter
          (keeps records prunes method (.mk kind children span))).map (·.2) := by
  rw [tourAs, List.filter_cons]
  cases hrecords : records method <;> simp [keeps, cutAt, hrecords]

/-- Below a visit that prunes a recorder keeps nothing. -/
theorem filter_keeps_tourSlots {method kind : Kind} {children : List Child} {span : Span}
    (h : (records method && prunes method) = true) :
    (tourSlots kind.shape 0 children).filter
      (keeps records prunes method (.mk kind children span)) = [] := by
  rw [List.filter_eq_nil_iff]
  rintro ⟨path, v⟩ hv
  obtain ⟨j, m, rest, -, rfl, -⟩ := mem_tourSlots.mp hv
  have hcut : cutAt (fun k => records k && prunes k) method (.mk kind children span)
      ((0 + j) :: rest) = true :=
    cutAt_of_root h _ (List.cons_ne_nil _ _)
  rw [keeps, hcut, Bool.not_true, Bool.and_false]
  exact Bool.false_ne_true

/-- Below a visit that does not prune it keeps what it keeps of the parts. -/
theorem keeps_below {method : Kind} {n m : Node} {i : Nat}
    (h : (records method && prunes method) = false) (hm : n.childNode? i = some m) (entry : Kind)
    (hentry : (n.kind.shape.slot i).method? m.kind = some entry) :
    keeps records prunes method n ∘ Prod.map (i :: ·) id = keeps records prunes entry m := by
  funext p
  simp [keeps, cutAt_cons hm hentry, h]

/-- **What a walk adds to a log**: the visits of its tour that the recorder keeps. -/
theorem walkAs_recorder (n : Node) : ∀ method log,
    walkAs (.recorder records prunes) method n log =
      (((tourAs method n).filter (keeps records prunes method n)).map (·.2)).reverse ++ log := by
  induction n using ind with
  | mk kind children span ih =>
      intro method log
      have hvisit : ∀ log, (Visitor.recorder records prunes).visit method (.mk kind children span)
          log = (if records method then [⟨method, .mk kind children span⟩] else []) ++ log := by
        intro log
        cases hrecords : records method <;> simp [Visitor.recorder, hrecords]
      have hdescends : (Visitor.recorder records prunes).descends method (.mk kind children span) =
          !(records method && prunes method) := rfl
      rw [walkAs, filter_keeps_tourAs, hdescends, hvisit]
      cases hprunes : records method && prunes method with
      | true =>
          rw [filter_keeps_tourSlots hprunes]
          cases records method <;> rfl
      | false =>
          rw [Bool.not_false, if_pos rfl, walkSlots_adds (keeps records prunes method
            (.mk kind children span))]
          · cases records method <;> simp
          · intro j c hc log
            rw [Nat.zero_add]
            cases c with
            | node m =>
                have hbelow := keeps_below (n := .mk kind children span) hprunes
                  (childNode?_eq_some.mpr hc)
                cases huse : kind.shape.slot j with
                | skipped => rfl
                | entered =>
                    rw [hbelow m.kind (congrArg (SlotUse.method? · m.kind) huse)]
                    exact ih m (List.mem_of_getElem? hc) m.kind log
                | parameters =>
                    rw [hbelow .args (congrArg (SlotUse.method? · m.kind) huse)]
                    exact ih m (List.mem_of_getElem? hc) .args log
            | _ => simp [walkSlot, tourSlot]

end Recorder

/-! ## §6. Logs and the tour. -/

/-- The visits that a walk with a recorder records, in order. -/
def log (records prunes : Kind → Bool) (n : Node) : List Visit :=
  (walk (.recorder records prunes) n []).reverse

/-- Whether a tour comes to a place above the end of a path by a method that prunes. -/
def isCut (prunes : Kind → Bool) (tour : List (List Nat × Visit)) (path : List Nat) : Bool :=
  tour.any fun above => prunes above.2.method && above.1.isPrefixOf path && above.1 != path

/-- The slot in which the nodes of a kind have their parameters. -/
def Kind.parameterSlot? : Kind → Option Nat
  | .methodDef | .block => some 1
  | .defs => some 2
  | _ => none

theorem Kind.slot_of_parameterSlot? {k : Kind} {i : Nat} (h : k.parameterSlot? = some i) :
    k.shape.slot i = .parameters := by
  cases k <;> cases h <;> rfl

/-- Where a walk comes to there is a node. -/
theorem exists_at?_of_methodAt? {path : List Nat} :
    ∀ {n : Node} {method k : Kind}, n.methodAt? method path = some k → ∃ m, n.at? path = some m := by
  induction path with
  | nil => exact fun _ => ⟨_, rfl⟩
  | cons i path ih =>
      intro n method k h
      obtain ⟨m, hm, h⟩ := Option.bind_eq_some_iff.mp h
      obtain ⟨entry, -, h⟩ := Option.bind_eq_some_iff.mp h
      rw [at?, hm, Option.bind_some]
      exact ih h

/-- What is cut is below a visit of the tour that prunes. -/
theorem isCut_tourAs (prunes : Kind → Bool) (method : Kind) (n : Node) (path : List Nat) :
    isCut prunes (tourAs method n) path = cutAt prunes method n path := by
  rw [Bool.eq_iff_iff]
  simp only [isCut, cutAt, List.any_eq_true, Bool.and_eq_true, bne_iff_ne, List.mem_range,
    Option.any_eq_true, List.isPrefixOf_iff_prefix]
  constructor
  · rintro ⟨⟨above, v⟩, hv, ⟨hprunes, hbefore⟩, hne⟩
    refine ⟨above.length, ?_, v.method, ?_, hprunes⟩
    · exact Nat.lt_of_le_of_ne hbefore.length_le fun h => hne (hbefore.eq_of_length h)
    · rw [← List.prefix_iff_eq_take.mp hbefore]
      exact (mem_tourAs.mp hv).2
  · rintro ⟨l, hl, k, hk, hprunes⟩
    obtain ⟨m, hm⟩ := exists_at?_of_methodAt? hk
    refine ⟨(path.take l, ⟨k, m⟩), mem_tourAs.mpr ⟨hm, hk⟩, ⟨hprunes, List.take_prefix _ _⟩, ?_⟩
    intro heq
    have hlength := congrArg List.length heq
    rw [List.length_take] at hlength
    omega

/-- The node in a slot of parameters is on the tour if the node with the slot is. -/
theorem mem_tourAs_parameters {path : List Nat} {v : Visit} {i : Nat} {m : Node} :
    ∀ {method : Kind} {n : Node}, (path, v) ∈ tourAs method n →
      v.node.kind.parameterSlot? = some i → v.node.childNode? i = some m →
      (path ++ [i], ⟨.args, m⟩) ∈ tourAs method n := by
  induction path with
  | nil =>
      intro method n hv hslot hm
      obtain rfl := mem_tourAs_nil.mp hv
      refine mem_tourAs_cons.mpr ⟨m, hm, mem_tourSlot_node.mpr ⟨.args, ?_, mem_tourAs_nil.mpr rfl⟩⟩
      rw [Kind.slot_of_parameterSlot? hslot, SlotUse.method?]
  | cons j path ih =>
      intro method n hv hslot hm
      obtain ⟨child, hchild, hv⟩ := mem_tourAs_cons.mp hv
      obtain ⟨entry, hentry, hv⟩ := mem_tourSlot_node.mp hv
      exact mem_tourAs_cons.mpr
        ⟨child, hchild, mem_tourSlot_node.mpr ⟨entry, hentry, ih hv hslot hm⟩⟩

/-- The log of a walk is what its recorder keeps of the tour. -/
theorem log_eq (records prunes : Kind → Bool) (n : Node) :
    log records prunes n =
      ((tourAs n.kind n).filter fun p => records p.2.method &&
        !cutAt (fun k => records k && prunes k) n.kind n p.1).map (·.2) := by
  rw [log, walk, walkAs_recorder, List.append_nil, List.reverse_reverse]
  rfl

/-- **The logs of all visitors are parts of one tour.**  The tour of a tree comes to places in
the order of their paths, thus to none twice, to a node before what is below it, and to the slots
of a node in their order; and to what is in a slot of parameters as to a parameter list.  A
visitor that prunes some of the methods that it records logs what is recorded of the log that
records everything, and what is cut nowhere of the log that prunes nothing. -/
theorem logs_agree (t : Node) :
    ∃ tour : List (List Nat × Visit),
      tour.Pairwise (·.1 < ·.1) ∧
      (∀ path v, (path, v) ∈ tour ↔
        t.at? path = some v.node ∧ t.methodAt? t.kind path = some v.method) ∧
      (∀ path v i m, (path, v) ∈ tour → v.node.kind.parameterSlot? = some i →
        v.node.childNode? i = some m → (path ++ [i], ⟨.args, m⟩) ∈ tour) ∧
      ∀ records prunes : Kind → Bool, (∀ k, prunes k = true → records k = true) →
        log records prunes t =
          (log (fun _ => true) prunes t).filter (fun v => records v.method) ∧
        log records (fun _ => false) t =
          (tour.filter fun p => records p.2.method).map (·.2) ∧
        log records prunes t =
          ((tour.filter fun p => records p.2.method).filter
            fun p => !isCut prunes tour p.1).map (·.2) := by
  refine ⟨tourAs t.kind t, tourAs_ordered t _, fun _ _ => mem_tourAs,
    fun _ _ _ _ => mem_tourAs_parameters, ?_⟩
  intro records prunes h
  have hstops : (fun k => records k && prunes k) = prunes := by
    funext k
    cases hk : prunes k with
    | true => rw [h k hk, Bool.true_and]
    | false => rw [Bool.and_false]
  refine ⟨?_, ?_, ?_⟩
  · rw [log_eq, log_eq, List.filter_map, List.filter_filter]
    simp only [hstops, Bool.true_and, Function.comp_def]
  · rw [log_eq]
    simp only [Bool.and_false, cutAt_of_none, Bool.not_false, Bool.and_true]
  · rw [log_eq, List.filter_filter]
    simp only [hstops, isCut_tourAs, Bool.and_comm]

/-- A list that stands where a method has its parameters is logged as a parameter list. -/
theorem logs_agree_in_parameters :
    let span : Span := ⟨0, 0, 1, 0⟩
    let number : Child := .node (.mk .int [.integer 1] span)
    let method : Node :=
      .mk .methodDef [.symbol "m", .node (.mk .array [number] span), number] span
    let records := fun k => k == .args || k == .int
    let prunes := fun k => k == .args
    (∀ k, prunes k = true → records k = true) ∧
    log records prunes method =
      (log (fun _ => true) prunes method).filter (fun v => records v.method) ∧
    (log records prunes method).map (·.method) = [.args, .int] := by
  have hprunes : ∀ k : Kind, (k == .args) = true → (k == .args || k == .int) = true :=
    fun k hk => by rw [hk, Bool.true_or]
  obtain ⟨tour, -, -, -, hlogs⟩ := logs_agree
    (.mk .methodDef [.symbol "m", .node (.mk .array [.node (.mk .int [.integer 1] ⟨0, 0, 1, 0⟩)]
      ⟨0, 0, 1, 0⟩), .node (.mk .int [.integer 1] ⟨0, 0, 1, 0⟩)] ⟨0, 0, 1, 0⟩)
  exact ⟨hprunes, (hlogs _ _ hprunes).1, by decide⟩

end RubySyntax.Node
