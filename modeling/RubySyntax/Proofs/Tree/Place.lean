/-
  RubySyntax.Proofs.Tree.Place
  ────────────────────────────
  **WHERE NODES STAND.**

  A span is anchored if it begins where a token begins and ends where a token ends, and located if
  it has the line and the column of that token, too.  A node is placed if its span is located and
  contains the spans of the nodes in its slots; only a parameter list that is not written has a
  place without a token of its own.

  Spans are made by joining, so what is known of a part is between which two offsets it stands.
  A node over parts between two offsets stands between them too, and its span contains the parts
  if it is joined from them, or from something before them and something after them.

  Main results:
    • `stretch_stands`, `lead_stands`, `bracket_stands` — nodes that reach from one part to
      another,
    • `joinAll_stands`, `cover_stands` — nodes that are joined from their parts.
-/
import RubySyntax.Token
import RubySyntax.Proofs.Tree.Everywhere

namespace RubySyntax

/-! ## §1. Spans. -/

namespace Span

/-- A span contains another one. -/
structure Contains (outer inner : Span) : Prop where
  start_le : outer.start ≤ inner.start
  stop_le : inner.stop ≤ outer.stop

/-- A span begins where a token begins and ends where a token ends. -/
structure Anchored (tokens : List Token) (s : Span) : Prop where
  begins : ∃ t ∈ tokens, t.span.start = s.start
  ends : ∃ t ∈ tokens, t.span.stop = s.stop

/-- A span is anchored, and has the line and the column of a token that begins where it does. -/
structure Located (tokens : List Token) (s : Span) : Prop extends Anchored tokens s where
  position : ∃ t ∈ tokens, t.span.start = s.start ∧ t.span.line = s.line ∧
    t.span.column = s.column

/-- A span stands between two offsets. -/
structure Stands (tokens : List Token) (lo hi : Nat) (s : Span) : Prop where
  lo_le : lo ≤ s.start
  le : s.start ≤ s.stop
  le_hi : s.stop ≤ hi
  located : s.Located tokens

theorem join_start (a b : Span) : (a.join b).start = min a.start b.start := by
  unfold join
  split
  · show b.start = _
    omega
  · show a.start = _
    omega

theorem join_stop (a b : Span) : (a.join b).stop = max a.stop b.stop := rfl

theorem Contains.refl (s : Span) : s.Contains s := ⟨Nat.le_refl _, Nat.le_refl _⟩

theorem Contains.trans {a b c : Span} (hab : a.Contains b) (hbc : b.Contains c) : a.Contains c :=
  ⟨Nat.le_trans hab.start_le hbc.start_le, Nat.le_trans hbc.stop_le hab.stop_le⟩

theorem join_contains_left (a b : Span) : (a.join b).Contains a := by
  refine ⟨?_, ?_⟩
  · rw [join_start]
    omega
  · rw [join_stop]
    omega

theorem join_contains_right (a b : Span) : (a.join b).Contains b := by
  refine ⟨?_, ?_⟩
  · rw [join_start]
    omega
  · rw [join_stop]
    omega

theorem Anchored.join {tokens : List Token} {a b : Span} (ha : a.Anchored tokens)
    (hb : b.Anchored tokens) : (a.join b).Anchored tokens := by
  refine ⟨?_, ?_⟩
  · rcases Nat.le_total a.start b.start with h | h
    · rw [join_start, Nat.min_eq_left h]
      exact ha.begins
    · rw [join_start, Nat.min_eq_right h]
      exact hb.begins
  · rcases Nat.le_total a.stop b.stop with h | h
    · rw [join_stop, Nat.max_eq_right h]
      exact hb.ends
    · rw [join_stop, Nat.max_eq_left h]
      exact ha.ends

/-- A joined span has the position of the span that begins first. -/
theorem Located.join {tokens : List Token} {a b : Span} (ha : a.Located tokens)
    (hb : b.Located tokens) : (a.join b).Located tokens := by
  refine ⟨ha.toAnchored.join hb.toAnchored, ?_⟩
  unfold Span.join
  split
  · exact hb.position
  · exact ha.position

variable {tokens : List Token} {lo hi lo' hi' : Nat} {s a b : Span}

theorem Stands.mono (h : s.Stands tokens lo hi) (hle : lo' ≤ lo ∧ hi ≤ hi') :
    s.Stands tokens lo' hi' :=
  { h with
    lo_le := Nat.le_trans hle.1 h.lo_le
    le_hi := Nat.le_trans h.le_hi hle.2 }

theorem Stands.bounds (h : s.Stands tokens lo hi) : lo ≤ hi :=
  Nat.le_trans h.lo_le (Nat.le_trans h.le h.le_hi)

theorem Stands.join (ha : a.Stands tokens lo hi) (hb : b.Stands tokens lo hi) :
    (a.join b).Stands tokens lo hi := by
  obtain ⟨halo, hale, hahi, ha⟩ := ha
  obtain ⟨hblo, hble, hbhi, hb⟩ := hb
  refine ⟨?_, ?_, ?_, ha.join hb⟩
  · rw [join_start]
    omega
  · rw [join_start, join_stop]
    omega
  · rw [join_stop]
    omega

end Span

namespace Node

/-! ## §2. Nodes. -/

/-- A parameter list that is not written: it is empty and stands, without width, where a token
ends. -/
structure IsMissingList (tokens : List Token) (n : Node) : Prop where
  kind_eq : n.kind = .args
  children_eq : n.children = []
  empty : n.span.start = n.span.stop
  ends : ∃ t ∈ tokens, t.span.stop = n.span.stop

/-- A parameter list that is not written stands at the end of a token, as if it were on the line on
which the token begins. -/
structure IsUnwritten (tokens : List Token) (n : Node) : Prop extends IsMissingList tokens n where
  at_end : ∃ t ∈ tokens, n.span = t.span.atEnd

/-- The span of a node is located and contains the nodes in the slots. -/
structure Placed (tokens : List Token) (n : Node) : Prop where
  le : n.span.start ≤ n.span.stop
  located : n.span.Located tokens ∨ n.IsUnwritten tokens
  contains : ∀ m, Child.node m ∈ n.children → n.span.Contains m.span

/-- A node lies between two offsets, and everything in it is placed. -/
structure Lies (tokens : List Token) (lo hi : Nat) (n : Node) : Prop where
  lo_le : lo ≤ n.span.start
  le_hi : n.span.stop ≤ hi
  placed : Everywhere (Placed tokens) n

/-- A node with a token at each end lies between two offsets, and everything in it is placed. -/
structure Stands (tokens : List Token) (lo hi : Nat) (n : Node) : Prop where
  span : n.span.Stands tokens lo hi
  placed : Everywhere (Placed tokens) n

variable {tokens : List Token} {lo hi lo' hi' a b : Nat}

theorem Lies.mono {n : Node} (h : n.Lies tokens lo hi) (hle : lo' ≤ lo ∧ hi ≤ hi') :
    n.Lies tokens lo' hi' :=
  ⟨Nat.le_trans hle.1 h.lo_le, Nat.le_trans h.le_hi hle.2, h.placed⟩

theorem Stands.mono {n : Node} (h : n.Stands tokens lo hi) (hle : lo' ≤ lo ∧ hi ≤ hi') :
    n.Stands tokens lo' hi' :=
  ⟨h.span.mono ⟨hle.1, hle.2⟩, h.placed⟩

theorem Stands.lies {n : Node} (h : n.Stands tokens lo hi) : n.Lies tokens lo hi :=
  ⟨h.span.lo_le, h.span.le_hi, h.placed⟩

theorem Stands.bounds {n : Node} (h : n.Stands tokens lo hi) : lo ≤ hi := h.span.bounds

/-- What contains the span of a node contains the node. -/
theorem Stands.lies_in {n : Node} (h : n.Stands tokens lo hi) {s : Span}
    (hs : s.Contains n.span) : n.Lies tokens s.start s.stop :=
  ⟨hs.start_le, hs.stop_le, h.placed⟩

/-- The nodes in the slots lie in the span. -/
theorem Stands.child_lies {n m : Node} (h : n.Stands tokens lo hi)
    (hm : Child.node m ∈ n.children) : m.Lies tokens n.span.start n.span.stop := by
  obtain ⟨hstart, hstop⟩ := h.placed.here.contains m hm
  exact ⟨hstart, hstop, h.placed.child hm⟩

/-- A node stands between closer offsets, if its span does. -/
theorem Stands.narrow {n : Node} (h : n.Stands tokens lo hi) (hlo : lo' ≤ n.span.start)
    (hhi : n.span.stop ≤ hi') : n.Stands tokens lo' hi' :=
  ⟨⟨hlo, h.span.le, hhi, h.span.located⟩, h.placed⟩

/-- The nodes in some slots lie between two offsets. -/
abbrev SlotsLie (tokens : List Token) (lo hi : Nat) (children : List Child) : Prop :=
  SlotsAll (Lies tokens lo hi) children

theorem SlotsLie.mono {children : List Child} (h : SlotsLie tokens lo hi children)
    (hle : lo' ≤ lo ∧ hi ≤ hi') : SlotsLie tokens lo' hi' children :=
  fun n hn => (h n hn).mono ⟨hle.1, hle.2⟩

/-! ## §3. New nodes. -/

variable {kind : Kind} {children : List Child} {s : Span}

/-- A node stands where its span does, if its slots lie in the span. -/
theorem stands_mk (hs : s.Stands tokens lo hi) (hslots : SlotsLie tokens s.start s.stop children) :
    (Node.mk kind children s).Stands tokens lo hi := by
  refine ⟨hs, .mk ⟨hs.le, .inl hs.located, fun m hm => ?_⟩ fun m hm => ?_⟩
  · exact ⟨(hslots m hm).lo_le, (hslots m hm).le_hi⟩
  · exact (hslots m hm).placed

/-- A node may change its kind and lose slots. -/
theorem Stands.rewrap {n : Node} (h : n.Stands tokens lo hi)
    (hchildren : ∀ m, Child.node m ∈ children → Child.node m ∈ n.children) :
    (Node.mk kind children n.span).Stands tokens lo hi :=
  stands_mk h.span fun m hm => h.child_lies (hchildren m hm)

section Reaching

variable {first last : Span}

/-- A node that reaches from one span to another one after it. -/
theorem reach_stands (hfirst : first.Stands tokens lo a) (hlast : last.Stands tokens a hi)
    (hslots : SlotsLie tokens first.start last.stop children) :
    (Node.mk kind children (first.join last)).Stands tokens lo hi := by
  have hlo := hfirst.bounds
  have hhi := hlast.bounds
  -- the joined span begins with the first or before it, and ends with the last or after it
  have hstart := (Span.join_contains_left first last).start_le
  have hstop := (Span.join_contains_right first last).stop_le
  exact stands_mk ((hfirst.mono (by omega)).join (hlast.mono (by omega))) (hslots.mono (by omega))

/-- It contains what lies between the end of the first and the end of the last. -/
theorem stretch_stands (hfirst : first.Stands tokens lo a) (hlast : last.Stands tokens a hi)
    (hb : b ≤ last.stop) (hslots : SlotsLie tokens a b children) :
    (Node.mk kind children (first.join last)).Stands tokens lo hi := by
  have hstart := Nat.le_trans hfirst.le hfirst.le_hi
  exact reach_stands hfirst hlast (hslots.mono (by omega))

/-- A node whose first slot is where it begins. -/
theorem lead_stands {x : Node} (hx : x.Stands tokens lo a) (hlast : last.Stands tokens a hi)
    (hb : b ≤ last.stop) (hslots : SlotsLie tokens a b children) :
    (Node.mk kind (.node x :: children) (x.span.join last)).Stands tokens lo hi := by
  have hstart := Nat.le_trans hx.span.le hx.span.le_hi
  have hstop := Nat.le_trans hx.span.le_hi (Nat.le_trans hlast.lo_le hlast.le)
  refine reach_stands hx.span hlast (slotsAll_cons.mpr ⟨?_, hslots.mono (by omega)⟩)
  rintro n ⟨⟩
  exact ⟨Nat.le_refl _, hstop, hx.placed⟩

/-- A node between brackets contains what lies between them. -/
theorem bracket_stands (hfirst : first.Stands tokens lo a) (hlast : last.Stands tokens b hi)
    (hab : a ≤ b) (hslots : SlotsLie tokens a b children) :
    (Node.mk kind children (first.join last)).Stands tokens lo hi :=
  stretch_stands hfirst (hlast.mono (by omega)) (Nat.le_trans hlast.lo_le hlast.le) hslots

end Reaching

/-! ## §4. Nodes joined from their parts. -/

theorem joinOption_eq_joinAll (s : Span) (o : Option Node) :
    joinOption s o = joinAll s o.toList := by
  cases o <;> rfl

theorem joinAll_joinAll (s : Span) (ns ms : List Node) :
    joinAll (joinAll s ns) ms = joinAll s (ns ++ ms) :=
  List.foldl_append.symm

theorem joinAll_contains_self (s : Span) (ns : List Node) : (joinAll s ns).Contains s := by
  induction ns generalizing s with
  | nil => exact .refl s
  | cons n ns ih => exact (ih (s.join n.span)).trans (Span.join_contains_left s n.span)

theorem joinAll_contains {s : Span} {ns : List Node} :
    ∀ n ∈ ns, (joinAll s ns).Contains n.span := by
  induction ns generalizing s with
  | nil => exact fun n hn => absurd hn List.not_mem_nil
  | cons m ns ih =>
      refine List.forall_mem_cons.mpr ⟨?_, ih⟩
      exact (joinAll_contains_self (s.join m.span) ns).trans (Span.join_contains_right s m.span)

theorem stands_joinAll {ns : List Node} (hs : s.Stands tokens lo hi)
    (hns : ∀ n ∈ ns, n.Stands tokens lo hi) : (joinAll s ns).Stands tokens lo hi := by
  induction ns generalizing s with
  | nil => exact hs
  | cons n ns ih =>
      obtain ⟨hn, hns⟩ := List.forall_mem_cons.mp hns
      exact ih (hs.join hn.span) hns

/-- A node that is joined from a span and some nodes contains these nodes and what lies in the
span. -/
theorem joinAll_stands {ns : List Node} (hs : s.Stands tokens lo hi)
    (hns : ∀ n ∈ ns, n.Stands tokens lo hi)
    (hchildren : SlotsAll (fun m => m ∈ ns ∨ m.Lies tokens s.start s.stop) children) :
    (Node.mk kind children (joinAll s ns)).Stands tokens lo hi := by
  refine stands_mk (stands_joinAll hs hns) fun m hm => ?_
  -- a slot is one of the nodes that are joined, or lies in the span that they are joined to
  rcases hchildren m hm with hm | hm
  · exact (hns m hm).lies_in (joinAll_contains m hm)
  · obtain ⟨hstart, hstop⟩ := joinAll_contains_self s ns
    exact hm.mono (by omega)

theorem joined_stands {x y : Node} (hx : x.Stands tokens lo hi) (hy : y.Stands tokens lo hi) :
    (Node.mk kind [.node x, .node y] (x.span.join y.span)).Stands tokens lo hi := by
  apply stands_mk (hx.span.join hy.span)
  simpa using ⟨hx.lies_in (Span.join_contains_left _ _), hy.lies_in (Span.join_contains_right _ _)⟩

theorem stands_cover {ns : List Node} (hne : ns ≠ []) (hns : ∀ n ∈ ns, n.Stands tokens lo hi) :
    (cover ns).Stands tokens lo hi := by
  obtain ⟨n, rest, rfl⟩ := List.exists_cons_of_ne_nil hne
  exact stands_joinAll (hns n List.mem_cons_self).span hns

theorem cover_contains {ns : List Node} : ∀ n ∈ ns, (cover ns).Contains n.span := by
  cases ns with
  | nil => exact fun n hn => absurd hn List.not_mem_nil
  | cons n ns => exact joinAll_contains

/-- A node that covers its slots. -/
theorem cover_stands {ns : List Node} (hne : ns ≠ []) (hns : ∀ n ∈ ns, n.Stands tokens lo hi) :
    (Node.mk kind (slots ns) (cover ns)).Stands tokens lo hi := by
  refine stands_mk (stands_cover hne hns) (slotsAll_slots.mpr fun n hn => ?_)
  exact (hns n hn).lies_in (cover_contains n hn)

end Node

end RubySyntax
