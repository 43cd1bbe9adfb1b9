/-
  RubySyntax.Proofs.Tree.Place.Call
  ─────────────────────────────────
  **COLLECTIONS, CALLS AND BLOCKS ARE PLACED.**

  The arguments of a call change their order, and of several blocks that are passed on only the
  last is kept; but the span of a call is joined from the arguments that it has.  Where a span is
  joined from the first and the last part alone, what lies between them is known from the order
  of the tokens.
-/
import RubySyntax.Proofs.Tree.Made
import RubySyntax.Proofs.Tree.Place.Literal

namespace RubySyntax.Node

variable {tokens : List Token} {lo hi a b : Nat}

/-! ## §1. Arguments and collections. -/

theorem groupPairs_stands {kind : Kind} {items : List Argument}
    (h : ∀ x ∈ items, x.node.Stands tokens lo hi) :
    ∀ n ∈ groupPairs kind items, n.Stands tokens lo hi := by
  intro n hn
  rcases mem_groupPairs hn with ⟨x, hx, rfl⟩ | ⟨pairs, hne, hpairs, rfl⟩
  · exact h x hx
  · refine cover_stands hne fun p hp => ?_
    obtain ⟨x, hx, rfl⟩ := hpairs p hp
    exact h x hx

theorem arguments_stand {items : List Argument} (h : ∀ x ∈ items, x.node.Stands tokens lo hi) :
    ∀ n ∈ arguments items, n.Stands tokens lo hi :=
  groupPairs_stands h

theorem array_stands {opening closing : Token} {items : List Argument}
    (hopening : opening.span.Stands tokens lo a) (h : ∀ x ∈ items, x.node.Stands tokens a b)
    (hab : a ≤ b) (hclosing : closing.span.Stands tokens b hi) :
    (array opening items closing).Stands tokens lo hi :=
  between_stands hopening (groupPairs_stands h) hab hclosing

theorem labelled_stands {label : Token} {value : Node} (hlabel : label.span.Stands tokens lo hi)
    (hvalue : value.Stands tokens lo hi) : (labelled label value).Stands tokens lo hi :=
  joined_stands (named_stands hlabel) hvalue

theorem labelAlone_stands {label : Token} (h : label.span.Stands tokens lo hi) :
    (labelAlone label).Stands tokens lo hi := by
  apply stands_mk h
  simpa using ⟨(named_stands h).lies_in (.refl _), (named_stands h).lies_in (.refl _)⟩

section Marks

variable {op : Token} (hop : op.span.Stands tokens lo hi)
include hop

/-- A mark before a node. -/
theorem marked_stands {kind : Kind} {value : Node} (hvalue : value.Stands tokens lo hi) :
    (Node.mk kind [.node value] (op.span.join value.span)).Stands tokens lo hi := by
  apply stands_mk (hop.join hvalue.span)
  simpa using hvalue.lies_in (Span.join_contains_right _ _)

theorem splat_stands {value : Option Node} (hvalue : ∀ n ∈ value, n.Stands tokens lo hi) :
    (splat op value).Stands tokens lo hi := by
  rw [splat, joinOption_eq_joinAll]
  exact joinAll_stands hop (by simpa using hvalue) (by simp +contextual)

theorem blockPass_stands {value : Option Node} (hvalue : ∀ n ∈ value, n.Stands tokens lo hi) :
    (blockPass op value).Stands tokens lo hi := by
  rw [blockPass, joinOption_eq_joinAll]
  exact joinAll_stands hop (by simpa using hvalue) (by simp +contextual)

/-! ## §2. Calls and operators. -/

theorem jump_stands {items : List Argument} (h : ∀ x ∈ items, x.node.Stands tokens lo hi) :
    (jump op items).Stands tokens lo hi :=
  joinAll_stands hop (arguments_stand h) (slotsAll_slots.mpr fun _ hn => .inl hn)

theorem unary_stands {operand : Node} (h : operand.Stands tokens lo hi) (method : String) :
    (unary op operand method).Stands tokens lo hi := by
  apply stands_mk (hop.join h.span)
  simpa using h.lies_in (Span.join_contains_right _ _)

theorem range_stands {lhs rhs : Option Node} (hlhs : ∀ n ∈ lhs, n.Stands tokens lo hi)
    (hrhs : ∀ n ∈ rhs, n.Stands tokens lo hi) : (range lhs op rhs).Stands tokens lo hi := by
  simp only [range, joinOption_eq_joinAll, joinAll_joinAll]
  refine joinAll_stands hop (List.forall_mem_append.mpr ?_) ?_
  · simpa using ⟨hlhs, hrhs⟩
  · simp +contextual

theorem defined_stands {value : Node} {closing : Option Token}
    (hvalue : value.Stands tokens lo hi) (hclosing : ∀ t ∈ closing, t.span.Stands tokens lo hi) :
    (defined op value closing).Stands tokens lo hi := by
  have hspan := hop.join hvalue.span
  have hcontains := Span.join_contains_right op.span value.span
  simp only [defined]
  split
  next t =>
    apply stands_mk (hspan.join (hclosing t rfl))
    simpa using hvalue.lies_in ((Span.join_contains_left _ _).trans hcontains)
  next =>
    apply stands_mk hspan
    simpa using hvalue.lies_in hcontains

end Marks

/-- A call is joined from its parts. -/
theorem call_stands {receiver : Option Node} {dot : Option Token} {name : String}
    {selector : Span} {args : List Node} {closing : Option Span}
    (hselector : selector.Stands tokens lo hi) (hreceiver : ∀ n ∈ receiver, n.Stands tokens lo hi)
    (hargs : ∀ n ∈ args, n.Stands tokens lo hi) (hclosing : ∀ s ∈ closing, s.Stands tokens lo hi) :
    (call receiver dot name selector args closing).Stands tokens lo hi := by
  have hparts : ∀ n ∈ receiver.toList ++ args, n.Stands tokens lo hi :=
    List.forall_mem_append.mpr ⟨by simpa using hreceiver, hargs⟩
  have hslots : SlotsAll (· ∈ receiver.toList ++ args)
      (.ofOption receiver :: .symbol name :: slots args) := by
    simp +contextual
  simp only [call, joinOption_eq_joinAll, joinAll_joinAll]
  cases closing with
  | none => exact joinAll_stands hselector hparts fun m hm => .inl (hslots m hm)
  | some s =>
      refine stands_mk ((stands_joinAll hselector hparts).join (hclosing s rfl)) fun m hm => ?_
      apply (hparts m (hslots m hm)).lies_in
      exact (Span.join_contains_left _ _).trans (joinAll_contains m (hslots m hm))

theorem binary_stands {lhs rhs : Node} {op : Token} (hlhs : lhs.Stands tokens lo hi)
    (hop : op.span.Stands tokens lo hi) (hrhs : rhs.Stands tokens lo hi) :
    (binary lhs op rhs).Stands tokens lo hi := by
  unfold binary
  split
  · exact joined_stands hlhs hrhs
  · exact call_stands hop (forall_mem_some hlhs) (by simpa using hrhs) (by simp)

/-- Arguments and the closing token after them. -/
structure ArgumentsStand (tokens : List Token) (lo hi : Nat) (items : List Argument)
    (closing : Token) : Prop where
  items : ∀ x ∈ items, x.node.Stands tokens lo closing.span.start
  closing : closing.span.Stands tokens lo hi

theorem ArgumentsStand.mono {items : List Argument} {closing : Token} {lo' hi' : Nat}
    (h : ArgumentsStand tokens lo hi items closing) (hle : lo' ≤ lo ∧ hi ≤ hi') :
    ArgumentsStand tokens lo' hi' items closing :=
  ⟨fun x hx => (h.items x hx).mono ⟨hle.1, Nat.le_refl _⟩, h.closing.mono ⟨hle.1, hle.2⟩⟩

section ParenArguments

variable {items : List Argument} {closing : Token}

theorem argumentsStand_mk (h : ∀ x ∈ items, x.node.Stands tokens lo a) (ha : lo ≤ a)
    (hclosing : closing.span.Stands tokens a hi) : ArgumentsStand tokens lo hi items closing := by
  have hstart := hclosing.lo_le
  exact ⟨fun x hx => (h x hx).mono (by omega), hclosing.mono (by omega)⟩

theorem functionCall_stands {name : Token} (hname : name.span.Stands tokens lo a)
    (h : ArgumentsStand tokens a hi items closing) :
    (functionCall name items closing).Stands tokens lo hi := by
  have ha := hname.bounds
  have hhi := h.closing.bounds
  have hstop := Nat.le_trans h.closing.le h.closing.le_hi
  refine call_stands (hname.mono (by omega)) (by simp) (arguments_stand fun x hx => ?_)
    (by simpa using (h.closing.mono (by omega)))
  exact (h.items x hx).mono (by omega)

/-- A call whose arguments are between its keyword and the closing token. -/
theorem keywordCall_stands {kind : Kind} {kw : Token} (hkw : kw.span.Stands tokens lo a)
    (h : ArgumentsStand tokens a hi items closing) :
    (Node.mk kind (slots (arguments items)) (kw.span.join closing.span)).Stands tokens lo hi := by
  refine stretch_stands hkw h.closing h.closing.le (slotsAll_slots.mpr fun n hn => ?_)
  exact (arguments_stand h.items n hn).lies

theorem index_stands {receiver : Node} (hreceiver : receiver.Stands tokens lo a)
    (h : ArgumentsStand tokens a hi items closing) :
    (index receiver items closing).Stands tokens lo hi := by
  refine lead_stands hreceiver h.closing h.closing.le (slotsAll_slots.mpr fun n hn => ?_)
  exact (arguments_stand h.items n hn).lies

end ParenArguments

theorem nameCall_stands {name : Token} (h : name.span.Stands tokens lo hi) :
    (nameCall name).Stands tokens lo hi :=
  call_stands h (by simp) (by simp) (by simp)

theorem command?_stands {c : Chain} {items : List Argument} (hc : c.node.Stands tokens lo hi)
    (h : ∀ x ∈ items, x.node.Stands tokens lo hi) :
    ∀ n ∈ command? c items, n.Stands tokens lo hi := by
  intro n hn
  obtain ⟨kind, children, hmakes, rfl⟩ := mem_command? hn
  -- whatever the call is made of, it keeps slots of the expression and gets the arguments behind them
  refine joinAll_stands hc.span (arguments_stand h) (slotsAll_append.mpr ⟨?_, ?_⟩)
  · exact hmakes.slotsAll fun m hm => .inr (hc.child_lies hm)
  · exact slotsAll_slots.mpr fun m hm => .inl hm

/-! ## §3. Blocks. -/

/-- The parts of a block lie in order before its closing token. -/
structure BlockParts.Stands (tokens : List Token) (lo hi : Nat) (parts : BlockParts) : Prop where
  opening_mem : parts.opening ∈ tokens
  opening : parts.opening.span.Stands tokens lo parts.closing.span.start
  params : ∀ n ∈ parts.params, n.Stands tokens lo parts.closing.span.start
  body : ∀ n ∈ parts.body, n.Stands tokens lo parts.closing.span.start
  closing : parts.closing.span.Stands tokens lo hi

theorem blockParts_stand {opening closing : Token} {params body : Option Node}
    (hmem : opening ∈ tokens) (hopening : opening.span.Stands tokens lo a)
    (hparams : ∀ n ∈ params, n.Stands tokens lo a)
    (hbody : ∀ n ∈ body, n.Stands tokens lo a) (hclosing : closing.span.Stands tokens a hi) :
    (BlockParts.mk opening params body closing).Stands tokens lo hi := by
  have hlo := Nat.le_refl lo
  have hstart : a ≤ closing.span.start := hclosing.lo_le
  refine ⟨hmem, hopening.mono ⟨hlo, hstart⟩, fun n hn => ?_, fun n hn => ?_, ?_⟩
  · exact (hparams n hn).mono ⟨hlo, hstart⟩
  · exact (hbody n hn).mono ⟨hlo, hstart⟩
  · exact hclosing.mono ⟨hopening.bounds, Nat.le_refl _⟩

theorem blockCallee?_stands {n : Node} (hn : n.Stands tokens lo hi) :
    ∀ m ∈ blockCallee? n, m.Stands tokens lo hi := by
  intro m hm
  cases makesCallee_of_mem hm with
  | name _ => exact hn.rewrap (by simp)
  | call _ _ => exact hn

theorem withBlock_stands (v : Version) {callee : Node} {parts : BlockParts}
    (hcallee : callee.Stands tokens lo a) (hparts : parts.Stands tokens a hi) :
    (withBlock v callee parts).Stands tokens lo hi := by
  have hbody : ∀ n ∈ parts.body, n.Lies tokens a parts.closing.span.start :=
    fun n hn => (hparts.body n hn).lies
  simp only [withBlock]
  split
  next params hparams =>
    apply lead_stands hcallee hparts.closing hparts.closing.le
    simpa using ⟨(hparts.params params hparams).lies, hbody⟩
  next =>
    split
    · apply lead_stands hcallee hparts.closing hparts.closing.le
      simpa using hbody
    · apply lead_stands hcallee hparts.closing hparts.closing.le
      simpa using ⟨missing_lies hparts.opening_mem hparts.opening, hbody⟩

theorem attachBlock?_stands (v : Version) {n : Node} {parts : BlockParts}
    (hn : n.Stands tokens lo a) (hparts : parts.Stands tokens a hi) :
    ∀ m ∈ attachBlock? v n parts, m.Stands tokens lo hi := by
  intro m hm
  obtain ⟨callee, hcallee, rfl⟩ := Option.map_eq_some_iff.mp hm
  exact withBlock_stands v (blockCallee?_stands hn callee hcallee) hparts

/-- The parameters of a lambda stand before its body. -/
theorem lambda_stands (v : Version) {arrow : Token} {params : Option Node} {parts : BlockParts}
    (harrow : arrow.span.Stands tokens lo a) (hparams : ∀ n ∈ params, n.Stands tokens a b)
    (hab : a ≤ b) (hparts : parts.Stands tokens b hi) :
    (lambda v arrow params parts).Stands tokens lo hi := by
  have hstart : b ≤ parts.closing.span.start := hparts.opening.bounds
  have hrefl := Nat.le_refl parts.closing.span.start
  refine withBlock_stands v (bare_stands harrow)
    ⟨hparts.opening_mem, hparts.opening.mono ⟨hab, hrefl⟩, ?_, ?_, ?_⟩
  · intro n hn
    -- the parameters stand before the body, or there are those of the body
    cases params with
    | none => exact (hparts.params n hn).mono ⟨hab, hrefl⟩
    | some p => exact (hparams n hn).mono ⟨Nat.le_refl _, hstart⟩
  · exact fun n hn => (hparts.body n hn).mono ⟨hab, hrefl⟩
  · exact hparts.closing.mono ⟨hab, Nat.le_refl _⟩

/-! ## §4. Suffixes. -/

/-- What follows a primary expression stands between two offsets. -/
def Suffix.Stands (tokens : List Token) (lo hi : Nat) : Suffix → Prop
  | .method _ name none => name.span.Stands tokens lo hi
  | .method _ name (some (items, closing)) =>
    name.span.Stands tokens lo hi ∧ ArgumentsStand tokens lo hi items closing
  | .unnamed dot (items, closing) =>
    dot.span.Stands tokens lo hi ∧ ArgumentsStand tokens lo hi items closing
  | .constant name => name.span.Stands tokens lo hi
  | .index items closing => ArgumentsStand tokens lo hi items closing
  | .block parts => parts.Stands tokens lo hi

theorem Suffix.Stands.bounds {op : Suffix} (h : op.Stands tokens lo hi) : lo ≤ hi := by
  match op with
  | .method _ _ none => exact Span.Stands.bounds h
  | .method _ _ (some (_, _)) => exact h.1.bounds
  | .unnamed _ (_, _) => exact h.1.bounds
  | .constant _ => exact Span.Stands.bounds h
  | .index _ _ => exact (ArgumentsStand.closing h).bounds
  | .block _ => exact (BlockParts.Stands.closing h).bounds

theorem methodCall_stands {receiver : Node} {dot : Option Token} {name : String} {selector : Span}
    {items : List Argument} {closing : Token} (hreceiver : receiver.Stands tokens lo a)
    (hselector : selector.Stands tokens a hi) (h : ArgumentsStand tokens a hi items closing) :
    (call (some receiver) dot name selector (arguments items) (some closing.span)).Stands
      tokens lo hi := by
  have ha := hreceiver.bounds
  have hhi := hselector.bounds
  have hstop := Nat.le_trans h.closing.le h.closing.le_hi
  refine call_stands (hselector.mono (by omega)) (forall_mem_some (hreceiver.mono (by omega)))
    (arguments_stand fun x hx => ?_) (by simpa using (h.closing.mono (by omega)))
  exact (h.items x hx).mono (by omega)

theorem applySuffix?_stands (v : Version) {receiver : Chain} {op : Suffix}
    (hreceiver : receiver.node.Stands tokens lo a) (hop : op.Stands tokens a hi) :
    ∀ c ∈ applySuffix? v receiver op, c.node.Stands tokens lo hi := by
  have ha := hreceiver.bounds
  have hhi := hop.bounds
  intro c hc
  -- the receiver ends where the suffix begins
  match op with
  | .method dot name none =>
      cases hc
      rw [Chain.opened_node]
      exact call_stands (Span.Stands.mono hop (by omega))
        (forall_mem_some (hreceiver.mono (by omega))) (by simp) (by simp)
  | .method dot name (some (items, closing)) =>
      cases hc
      exact methodCall_stands hreceiver hop.1 hop.2
  | .unnamed dot (items, closing) =>
      cases hc
      exact methodCall_stands hreceiver hop.1 hop.2
  | .constant name =>
      cases hc
      exact constant_stands (Span.Stands.mono hop (by omega))
        (forall_mem_some (hreceiver.mono (by omega)))
  | .index items closing =>
      cases hc
      exact index_stands hreceiver hop
  | .block parts =>
      obtain ⟨n, hn, rfl⟩ := Option.map_eq_some_iff.mp hc
      exact attachBlock?_stands v hreceiver hop n hn

section Keywords

variable {kw : Token} {args : Option ParenArguments} (hkw : kw.span.Stands tokens lo a)
  (hargs : ∀ p ∈ args, ArgumentsStand tokens a hi p.1 p.2) (ha : a ≤ hi)
include hkw hargs ha

theorem superChain_stands : (superChain kw args).node.Stands tokens lo hi := by
  match args with
  | none => exact bare_stands (hkw.mono (by omega))
  | some (items, closing) => exact keywordCall_stands hkw (hargs _ rfl)

theorem yieldChain_stands : (yieldChain kw args).node.Stands tokens lo hi := by
  match args with
  | none => exact bare_stands (hkw.mono (by omega))
  | some (items, closing) => exact keywordCall_stands hkw (hargs _ rfl)

end Keywords

end RubySyntax.Node
