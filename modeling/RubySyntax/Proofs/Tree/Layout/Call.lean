/-
  RubySyntax.Proofs.Tree.Layout.Call
  ──────────────────────────────────
  **CALLS, ASSIGNMENTS AND BLOCKS ARE WELL FORMED.**

  A call can grow: arguments, a value that is assigned, a block are added to a node that is
  finished.  What it was says what the grown node is: the slots of a name are one name, those of
  a call begin with a receiver and a name, and so the new slots fit behind the old ones.
-/
import RubySyntax.Proofs.Tree.Layout.Literal
import RubySyntax.Proofs.Tree.Made

namespace RubySyntax.Node

/-! ## §1. Arguments. -/

/-- The arguments of some list are well formed. -/
abbrev ArgumentsWellFormed (items : List Argument) : Prop := ∀ a ∈ items, a.node.WellFormed

theorem groupPairs_wellFormed {kind : Kind} (hkind : kind = .kwargs ∨ kind = .hash)
    {items : List Argument} (h : ArgumentsWellFormed items) :
    ∀ n ∈ groupPairs kind items, n.WellFormed := by
  intro n hn
  rcases mem_groupPairs hn with ⟨a, ha, rfl⟩ | ⟨pairs, hne, hpairs, rfl⟩
  · exact h a ha
  · refine wellFormed_mk ?_ (slotsAll_slots.mpr fun p hp => ?_)
    · obtain ⟨first, rest, rfl⟩ := List.exists_cons_of_ne_nil hne
      rcases hkind with rfl | rfl <;> simp
    · obtain ⟨a, ha, rfl⟩ := hpairs p hp
      exact h a ha

theorem arguments_wellFormed {items : List Argument} (h : ArgumentsWellFormed items) :
    ∀ n ∈ arguments items, n.WellFormed :=
  groupPairs_wellFormed (.inl rfl) h

theorem slots_arguments_wellFormed {items : List Argument} (h : ArgumentsWellFormed items) :
    SlotsWellFormed (slots (arguments items)) :=
  slotsAll_slots.mpr (arguments_wellFormed h)

/-! ## §2. Collections. -/

theorem array_wellFormed {opening closing : Token} {items : List Argument}
    (h : ArgumentsWellFormed items) : (array opening items closing).WellFormed :=
  wellFormed_mk (by simp) (slotsAll_slots.mpr (groupPairs_wellFormed (.inr rfl) h))

theorem bareArray_wellFormed {ns : List Node} (h : ∀ n ∈ ns, n.WellFormed) :
    (bareArray ns).WellFormed :=
  wellFormed_mk (by simp) (slotsAll_slots.mpr h)

theorem hash_wellFormed {opening closing : Token} {pairs : List Node}
    (h : ∀ n ∈ pairs, n.WellFormed) : (hash opening pairs closing).WellFormed :=
  wellFormed_mk (by simp) (slotsAll_slots.mpr h)

theorem pair_wellFormed {key value : Node} (hkey : key.WellFormed) (hvalue : value.WellFormed) :
    (pair key value).WellFormed :=
  wellFormed_mk (by simp) (by simpa using ⟨hkey, hvalue⟩)

theorem labelled_wellFormed {label : Token} {value : Node} (h : value.WellFormed) :
    (labelled label value).WellFormed :=
  pair_wellFormed (symbol_wellFormed label) h

theorem labelAlone_wellFormed (label : Token) : (labelAlone label).WellFormed :=
  wellFormed_mk (by simp)
    (by simpa using ⟨symbol_wellFormed label, identifier_wellFormed label⟩)

theorem doubleSplat_wellFormed {op : Token} {value : Node} (h : value.WellFormed) :
    (doubleSplat op value).WellFormed :=
  wellFormed_mk (by simp) (by simpa using h)

theorem splat_wellFormed {op : Token} {value : Option Node} (h : ∀ n ∈ value, n.WellFormed) :
    (splat op value).WellFormed := by
  refine wellFormed_mk ?_ (slotsAll_slots.mpr (by simpa using h))
  cases value <;> simp

theorem blockPass_wellFormed {op : Token} {value : Option Node}
    (h : ∀ n ∈ value, n.WellFormed) : (blockPass op value).WellFormed :=
  wellFormed_mk (by simp) (by simpa using h)

/-! ## §3. Calls and operators. -/

theorem call_wellFormed {receiver : Option Node} {dot : Option Token} {name : String}
    {selector : Span} {args : List Node} {closing : Option Span}
    (hreceiver : ∀ n ∈ receiver, n.WellFormed) (hargs : ∀ n ∈ args, n.WellFormed) :
    (call receiver dot name selector args closing).WellFormed := by
  refine wellFormed_mk ?_ (by simpa using ⟨hreceiver, hargs⟩)
  split <;> simp

theorem functionCall_wellFormed {name closing : Token} {items : List Argument}
    (h : ArgumentsWellFormed items) : (functionCall name items closing).WellFormed :=
  call_wellFormed (by simp) (arguments_wellFormed h)

theorem nameCall_wellFormed (name : Token) : (nameCall name).WellFormed :=
  call_wellFormed (by simp) (by simp)

section Calls

variable {kw closing : Token} {items : List Argument} (h : ArgumentsWellFormed items)
include h

theorem index_wellFormed {receiver : Node} (hreceiver : receiver.WellFormed) :
    (index receiver items closing).WellFormed :=
  wellFormed_mk (by simp) (by simpa using ⟨hreceiver, arguments_wellFormed h⟩)

theorem superCall_wellFormed : (superCall kw items closing).WellFormed :=
  wellFormed_mk (by simp) (slots_arguments_wellFormed h)

theorem yieldCall_wellFormed : (yieldCall kw items closing).WellFormed :=
  wellFormed_mk (by simp) (slots_arguments_wellFormed h)

theorem jump_wellFormed : (jump kw items).WellFormed := by
  refine wellFormed_mk ?_ (slots_arguments_wellFormed h)
  split <;> simp

end Calls

theorem defined_wellFormed {kw : Token} {value : Node} {closing : Option Token}
    (h : value.WellFormed) : (defined kw value closing).WellFormed :=
  wellFormed_mk (by simp) (by simpa using h)

theorem unary_wellFormed {op : Token} {operand : Node} {method : String}
    (h : operand.WellFormed) : (unary op operand method).WellFormed :=
  wellFormed_mk (by simp) (by simpa using h)

section Operators

variable {lhs rhs : Node} (hlhs : lhs.WellFormed) (hrhs : rhs.WellFormed)
include hlhs hrhs

/-- A node with two operands is well formed if its kind promises two nodes. -/
theorem joined_wellFormed {kind : Kind} (hkind : kind.layouts = [.exactly [.node, .node]]) :
    (joined kind lhs rhs).WellFormed := by
  refine wellFormed_mk ?_ (by simpa using ⟨hlhs, hrhs⟩)
  rw [Kind.fits, hkind]
  rfl

theorem binary_wellFormed (op : Token) : (binary lhs op rhs).WellFormed := by
  unfold binary
  split
  next hmatch =>
    simp only [Bool.and_eq_true, beq_iff_eq] at hmatch
    exact wellFormed_mk (by simp [hmatch.1.2]) (by simpa using ⟨hlhs, hrhs⟩)
  next => exact call_wellFormed (by simpa using hlhs) (by simpa using hrhs)

end Operators

theorem range_wellFormed {lhs rhs : Option Node} {op : Token} (hlhs : ∀ n ∈ lhs, n.WellFormed)
    (hrhs : ∀ n ∈ rhs, n.WellFormed) : (range lhs op rhs).WellFormed := by
  refine wellFormed_mk ?_ (by simpa using ⟨hlhs, hrhs⟩)
  split <;> simp

/-! ## §4. What the slots of a finished node are. -/

/-- The slots of a node whose kind promises one layout. -/
theorem Fits.of_layouts {n : Node} {l : Layout} (h : Fits n) (hl : n.kind.layouts = [l]) :
    l.fits n.children = true := by
  rw [Fits, Kind.fits, hl] at h
  simpa only [List.any_cons, List.any_nil, Bool.or_false] using h

theorem Form.name_of_holds {c : Child} (h : Form.name.holds c = true) : ∃ t, c = .symbol t := by
  cases c with
  | symbol t => exact ⟨t, rfl⟩
  | _ => cases h

theorem eq_of_fits_name {children : List Child}
    (h : (Layout.exactly [.name]).fits children = true) : ∃ t, children = [.symbol t] := by
  match children with
  | [] => cases h
  | c :: rest =>
      simp only [Layout.exactly, Layout.fits, Layout.fitsFront, Bool.and_eq_true] at h
      obtain ⟨t, rfl⟩ := Form.name_of_holds h.1
      match rest with
      | [] => exact ⟨t, rfl⟩
      | _ :: _ => simp at h

/-! ## §5. Commands. -/

/-- A call, or what becomes one, can be given arguments behind its slots. -/
theorem call_append_wellFormed {kind : Kind} {children : List Child} {args : List Node}
    {span : Span} (hkind : kind = .send ∨ kind = .csend)
    (hfits : (Layout.many [.part, .name] .node []).fits children = true)
    (hchildren : SlotsWellFormed children) (hargs : SlotsWellFormed (slots args)) :
    (Node.mk kind (children ++ slots args) span).WellFormed := by
  refine wellFormed_mk ?_ (slotsAll_append.mpr ⟨hchildren, hargs⟩)
  refine Kind.fits_of_layout (.many [.part, .name] .node []) ?_
    (Layout.fitsFront_append_slots args hfits)
  rcases hkind with rfl | rfl <;> exact List.mem_cons_self

theorem command?_wellFormed {c : Chain} {items : List Argument} (hc : c.node.WellFormed)
    (hitems : ArgumentsWellFormed items) : ∀ n ∈ command? c items, n.WellFormed := by
  intro n hn
  obtain ⟨kind, children, hmakes, rfl⟩ := mem_command? hn
  have hargs := slots_arguments_wellFormed hitems
  have hslots : SlotsWellFormed c.node.children := fun m hm => hc.child hm
  have hfits := hc.here
  cases hmakes with
  | name hkind =>
      obtain ⟨t, ht⟩ := eq_of_fits_name (hfits.of_layouts (by rw [hkind]; rfl))
      rw [ht]
      exact wellFormed_mk (by simp) (by simpa using hargs)
  | call hkind =>
      refine call_append_wellFormed (.inl rfl) ?_ hslots hargs
      rcases hkind with hkind | hkind
      · exact hfits.of_layouts (by rw [hkind]; rfl)
      · -- a constant has the slots of a call that has no arguments yet
        have hname := hfits.of_layouts (l := .exactly [.part, .name]) (by rw [hkind]; rfl)
        have hcall := Layout.fitsFront_append hname (Layout.fitsTail_slots [])
        rwa [slots_nil, List.append_nil] at hcall
  | safeCall hkind =>
      exact call_append_wellFormed (.inr rfl) (hfits.of_layouts (by rw [hkind]; rfl)) hslots hargs
  | superCall _ => exact wellFormed_mk (by simp) hargs
  | yieldCall _ _ => exact wellFormed_mk (by simp) hargs

/-! ## §6. Blocks. -/

theorem parameterNumber_le_nine (name : String) : parameterNumber name ≤ 9 := by
  unfold parameterNumber
  split
  next c _ =>
    split
    next hdigit =>
      have hc : c.toNat ≤ '9'.toNat := by
        simp only [Text.isDigit, Bool.and_eq_true, decide_eq_true_eq] at hdigit
        exact hdigit.2
      simp only [Char.reduceToNat] at hc ⊢
      omega
    next => omega
  next => omega

theorem slotsGreatest_le_nine :
    ∀ {children : List Child}, (∀ n, Child.node n ∈ children → greatestParameter n ≤ 9) →
      slotsGreatest children ≤ 9
  | [], _ => by simp [slotsGreatest]
  | c :: rest, h => by
      have hrest := slotsGreatest_le_nine fun n hn => h n (List.mem_cons_of_mem _ hn)
      have hc : slotGreatest c ≤ 9 := by
        cases c with
        | node n => exact h n List.mem_cons_self
        | _ => simp [slotGreatest]
      rw [slotsGreatest]
      omega

theorem firstGreatest_le_nine {children : List Child} (h : slotsGreatest children ≤ 9) :
    firstGreatest children ≤ 9 := by
  cases children with
  | nil => simp [firstGreatest]
  | cons c rest =>
      rw [slotsGreatest] at h
      rw [firstGreatest]
      omega

/-- There are nine implicit parameters. -/
theorem greatestParameter_le_nine (n : Node) : greatestParameter n ≤ 9 := by
  induction n using ind with
  | mk kind children span ih =>
      unfold greatestParameter
      split
      · split
        · exact parameterNumber_le_nine _
        · omega
      · exact firstGreatest_le_nine (slotsGreatest_le_nine ih)
      · exact firstGreatest_le_nine (slotsGreatest_le_nine ih)
      iterate 5 omega
      · exact slotsGreatest_le_nine ih

/-- The parts of a block are well formed, and its parameters are a parameter list. -/
structure BlockParts.WellFormed (parts : BlockParts) : Prop where
  params : ∀ n ∈ parts.params, n.IsParameterList
  body : ∀ n ∈ parts.body, n.WellFormed

theorem blockCallee?_wellFormed {n : Node} (hn : n.WellFormed) :
    ∀ m ∈ blockCallee? n, m.WellFormed ∧ Form.callee.holds (.node m) = true := by
  intro m hm
  cases makesCallee_of_mem hm with
  | name hkind =>
      obtain ⟨t, ht⟩ := eq_of_fits_name (hn.here.of_layouts (by rw [hkind]; rfl))
      rw [ht]
      exact ⟨wellFormed_mk (by simp) (by simp), rfl⟩
  | call hkind hpasses =>
      have hcallee : ∀ kind ∈ [Kind.send, .csend, .superCall, .zsuper],
          calleeKinds.contains kind = true := by decide
      rw [callee_holds, hcallee n.kind hkind, passesBlock, hpasses]
      exact ⟨hn, rfl⟩

section Block

variable {callee : Node} {body : Option Node} {span : Span} (hcallee : callee.WellFormed)
  (hholds : Form.callee.holds (.node callee) = true) (hbody : ∀ n ∈ body, n.WellFormed)
include hcallee hholds hbody

theorem block_wellFormed {params : Node} (hparams : params.IsParameterList) :
    (Node.mk .block [.node callee, .node params, .ofOption body] span).WellFormed := by
  obtain ⟨hlist, hkind⟩ := hparams
  refine wellFormed_mk ?_ (by simpa using ⟨hcallee, hlist, hbody⟩)
  simp only [Kind.fits, Kind.layouts, List.any_cons, Layout.fits, Layout.exactly,
    Layout.fitsFront, hholds]
  simp [hkind]

/-- A block without parameters whose body has numbered ones. -/
theorem numblock_wellFormed (hpos : 0 < (body.map greatestParameter).getD 0) :
    (Node.mk .numblock [.node callee, .integer ((body.map greatestParameter).getD 0 : Nat),
      .ofOption body] span).WellFormed := by
  cases body with
  | none => cases hpos
  | some n =>
      rw [Option.map_some, Option.getD_some] at hpos ⊢
      have hcount : Form.count.holds (.integer n.greatestParameter) = true := by
        have hle := greatestParameter_le_nine n
        simp only [Form.holds, Bool.and_eq_true, decide_eq_true_eq]
        omega
      refine wellFormed_mk ?_ (by simpa [Child.ofOption] using ⟨hcallee, hbody n rfl⟩)
      simp only [Kind.fits, Kind.layouts, List.any_cons, Layout.fits, Layout.exactly,
        Layout.fitsFront, hholds, hcount]
      rfl

end Block

theorem withBlock_wellFormed (v : Version) {callee : Node} {parts : BlockParts}
    (hcallee : callee.WellFormed) (hholds : Form.callee.holds (.node callee) = true)
    (hparts : parts.WellFormed) : (withBlock v callee parts).WellFormed := by
  simp only [withBlock]
  split
  next params hparams =>
    exact block_wellFormed hcallee hholds hparts.body (hparts.params params hparams)
  next =>
    split
    next hcount =>
      simp only [Bool.and_eq_true, decide_eq_true_eq] at hcount
      exact numblock_wellFormed hcallee hholds hparts.body hcount.2
    next =>
      have hempty : (Node.mk .args (slots []) parts.opening.span.atEnd).IsParameterList :=
        slots_isParameterList (by simp)
      exact block_wellFormed hcallee hholds hparts.body hempty

theorem attachBlock?_wellFormed (v : Version) {n : Node} {parts : BlockParts}
    (hn : n.WellFormed) (hparts : parts.WellFormed) :
    ∀ m ∈ attachBlock? v n parts, m.WellFormed := by
  intro m hm
  obtain ⟨callee, hcallee, rfl⟩ := Option.map_eq_some_iff.mp hm
  obtain ⟨hwell, hholds⟩ := blockCallee?_wellFormed hn callee hcallee
  exact withBlock_wellFormed v hwell hholds hparts

theorem lambda_wellFormed (v : Version) {arrow : Token} {params : Option Node}
    {parts : BlockParts} (hparams : ∀ n ∈ params, n.IsParameterList)
    (hparts : parts.WellFormed) : (lambda v arrow params parts).WellFormed := by
  refine withBlock_wellFormed v (bare_wellFormed rfl) rfl ⟨?_, hparts.body⟩
  intro n hn
  cases params with
  | none => exact hparts.params n hn
  | some p => exact hparams n hn

/-! ## §7. Suffixes. -/

/-- What follows a primary expression has well-formed parts. -/
def Suffix.WellFormed : Suffix → Prop
  | .method _ _ args => ∀ a ∈ args, ArgumentsWellFormed a.1
  | .unnamed _ args => ArgumentsWellFormed args.1
  | .constant _ => True
  | .index args _ => ArgumentsWellFormed args
  | .block parts => parts.WellFormed

theorem applySuffix?_wellFormed (v : Version) {receiver : Chain} {suffix : Suffix}
    (hreceiver : receiver.node.WellFormed) (hsuffix : suffix.WellFormed) :
    ∀ c ∈ applySuffix? v receiver suffix, c.node.WellFormed := by
  intro c hc
  cases suffix with
  | method dot name args =>
      match args, hsuffix with
      | none, _ =>
          cases hc
          rw [Chain.opened_node]
          exact call_wellFormed (forall_mem_some hreceiver) (by simp)
      | some (items, closing), hsuffix =>
          cases hc
          rw [Chain.closed_node]
          exact call_wellFormed (forall_mem_some hreceiver)
            (arguments_wellFormed (hsuffix (items, closing) rfl))
  | unnamed dot args =>
      cases hc
      rw [Chain.closed_node]
      exact call_wellFormed (forall_mem_some hreceiver) (arguments_wellFormed hsuffix)
  | constant name =>
      cases hc
      exact constant_wellFormed (forall_mem_some hreceiver)
  | index args closing =>
      cases hc
      exact index_wellFormed hsuffix hreceiver
  | block parts =>
      obtain ⟨n, hn, rfl⟩ := Option.map_eq_some_iff.mp hc
      exact attachBlock?_wellFormed v hreceiver hsuffix n hn

theorem applySuffixes?_wellFormed (v : Version) {ops : List Suffix}
    (hops : ∀ op ∈ ops, op.WellFormed) :
    ∀ {first : Chain}, first.node.WellFormed →
      ∀ c ∈ applySuffixes? v first ops, c.node.WellFormed := by
  induction ops with
  | nil =>
      rintro first hfirst c ⟨⟩
      exact hfirst
  | cons op ops ih =>
      intro first hfirst c hc
      obtain ⟨next, hnext, hc⟩ := Option.bind_eq_some_iff.mp hc
      refine ih (fun o ho => hops o (List.mem_cons_of_mem _ ho)) ?_ c hc
      exact applySuffix?_wellFormed v hfirst (hops op List.mem_cons_self) next hnext

theorem superChain_wellFormed (kw : Token) {args : Option ParenArguments}
    (h : ∀ a ∈ args, ArgumentsWellFormed a.1) : (superChain kw args).node.WellFormed := by
  match args with
  | none => exact bare_wellFormed rfl
  | some (items, closing) => exact superCall_wellFormed (h _ rfl)

theorem yieldChain_wellFormed (kw : Token) {args : Option ParenArguments}
    (h : ∀ a ∈ args, ArgumentsWellFormed a.1) : (yieldChain kw args).node.WellFormed := by
  match args with
  | none => exact bare_wellFormed rfl
  | some (items, closing) => exact yieldCall_wellFormed (h _ rfl)

end RubySyntax.Node
