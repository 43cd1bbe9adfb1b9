/-
  RubySyntax.Proofs.Tree.Layout.Control
  ─────────────────────────────────────
  **ASSIGNMENTS, CONTROL AND PATTERNS ARE WELL FORMED.**

  What stands left of an equals sign is finished before it becomes a target, so its slots are
  known: a target keeps them, and an assignment puts the value behind them.  A condition keeps
  the slots of the expression that it was, and the branches of a choice are nodes of one kind.
-/
import RubySyntax.Node.Build.Control
import RubySyntax.Node.Build.Pattern
import RubySyntax.Proofs.Tree.Layout.Call

namespace RubySyntax.Node

/-! ## §1. Targets and assignments. -/

/-- A target can stand alone, and with a value behind its slots. -/
structure IsTarget (t : Node) : Prop where
  wellFormed : t.WellFormed
  assigned : ∀ value : Node, t.kind.fits (t.children ++ [.node value]) = true

/-- A call that writes an attribute can stand alone, and with the value as its last argument. -/
theorem attribute_isTarget {n : Node} {receiver : Child} {name : String} (hn : n.WellFormed)
    (hkind : n.kind = .send ∨ n.kind = .csend) (hchildren : n.children = [receiver, .symbol name]) :
    IsTarget (.mk n.kind [receiver, .symbol (name ++ "=")] n.span) := by
  have hslots : SlotsWellFormed n.children := fun m hm => hn.child hm
  have hfits := hn.here.of_layouts (l := .many [.part, .name] .node [])
    (by rcases hkind with h | h <;> rw [h] <;> rfl)
  rw [hchildren] at hslots hfits
  simp only [slotsAll_cons] at hslots
  simp only [Layout.many, Layout.fits, Layout.fitsFront, Bool.and_eq_true] at hfits
  refine ⟨wellFormed_mk ?_ (by simpa using hslots.1), fun value => ?_⟩
  · rcases hkind with h | h <;> simp [h, hfits.1]
  · show n.kind.fits [receiver, .symbol (name ++ "="), .node value] = true
    rcases hkind with h | h <;> simp [h, hfits.1]

/-- Slots that fit a layout of a kind make a target if a layout of it fits with a value behind. -/
theorem IsTarget.mk_of_layouts {kind : Kind} {children : List Child} {span : Span}
    (before after : Layout) (hbefore : before ∈ kind.layouts) (hafter : after ∈ kind.layouts)
    (hslots : SlotsWellFormed children) (hfits : before.fits children = true)
    (hvalue : ∀ value, after.fits (children ++ [.node value]) = true) :
    IsTarget (.mk kind children span) := by
  refine ⟨wellFormed_mk (Kind.fits_of_layout before hbefore hfits) hslots, fun value => ?_⟩
  exact Kind.fits_of_layout after hafter (hvalue value)

theorem target?_isTarget {n : Node} (hn : n.WellFormed) : ∀ t ∈ target? n, t.IsTarget := by
  intro t ht
  have hslots : SlotsWellFormed n.children := fun m hm => hn.child hm
  -- a name without a value has the slots of the variable that it assigns
  have hname : ∀ {kind : Kind}, n.kind.layouts = [.exactly [.name]] →
      kind.layouts = [.exactly [.name], .exactly [.name, .node]] →
        IsTarget (.mk kind n.children n.span) := by
    intro kind hbefore hafter
    have hfits := hn.here.of_layouts hbefore
    refine .mk_of_layouts (.exactly [.name]) (.exactly [.name, .node]) ?_ ?_ hslots hfits
      fun value => Layout.fitsFront_snoc (node_holds value) hfits
    · rw [hafter]
      exact List.mem_cons_self
    · rw [hafter]
      exact List.mem_cons_of_mem _ List.mem_cons_self
  obtain ⟨kind, children, hmakes, rfl⟩ := mem_target? ht
  cases hmakes with
  | writer hcall hchildren _ => exact attribute_isTarget hn hcall hchildren
  | name hkind =>
      cases hn' : n.kind <;> rw [hn'] at hkind <;> cases hkind
      · exact hname (by rw [hn']; rfl) rfl
      · exact hname (by rw [hn']; rfl) rfl
      · exact hname (by rw [hn']; rfl) rfl
      · exact hname (by rw [hn']; rfl) rfl
      · -- a constant, whose slots are a scope and a name
        have hfits := hn.here.of_layouts (l := .exactly [.part, .name]) (by rw [hn']; rfl)
        exact .mk_of_layouts (.exactly [.part, .name]) (.exactly [.part, .name, .node]) (by simp)
          (by simp) hslots hfits fun value => Layout.fitsFront_snoc (node_holds value) hfits
      · -- an index, which takes the value as one more argument
        have hfits := hn.here.of_layouts (l := .many [.node] .node []) (by rw [hn']; rfl)
        exact .mk_of_layouts (.many [.node] .node []) (.many [.node] .node []) (by simp) (by simp)
          hslots hfits fun value => Layout.fitsFront_append_slots [value] hfits

theorem assign?_wellFormed {n value : Node} (hn : n.WellFormed) (hvalue : value.WellFormed) :
    ∀ m ∈ assign? n value, m.WellFormed := by
  intro m hm
  obtain ⟨t, ht, rfl⟩ := Option.map_eq_some_iff.mp hm
  obtain ⟨hwell, hassigned⟩ := target?_isTarget hn t ht
  refine wellFormed_mk (hassigned value) (slotsAll_append.mpr ⟨?_, by simpa using hvalue⟩)
  exact fun k hk => hwell.child hk

theorem operatorAssign?_wellFormed {n value : Node} {op : Token} (hn : n.WellFormed)
    (hvalue : value.WellFormed) : ∀ m ∈ operatorAssign? n op value, m.WellFormed := by
  intro m hm
  obtain ⟨t, ht, rfl⟩ := Option.map_eq_some_iff.mp hm
  have hwell : t.WellFormed := by
    split at ht
    · cases ht
      exact hn
    · exact (target?_isTarget hn t ht).wellFormed
  split
  · exact wellFormed_mk (by simp) (by simpa using ⟨hwell, hvalue⟩)
  split
  · exact wellFormed_mk (by simp) (by simpa using ⟨hwell, hvalue⟩)
  · exact wellFormed_mk (by simp) (by simpa using ⟨hwell, hvalue⟩)

theorem rescueModifier_wellFormed {body value : Node} {kw : Token} (hbody : body.WellFormed)
    (hvalue : value.WellFormed) : (rescueModifier body kw value).WellFormed := by
  have hclause : ∀ {span : Span},
      (Node.mk .resbody [.absent, .absent, .node value] span).WellFormed :=
    wellFormed_mk (by simp) (by simpa using hvalue)
  exact wellFormed_mk (by simp [Node.kind]) (by simpa using ⟨hbody, hclause⟩)

/-! ## §2. Multiple assignment. -/

theorem multipleValues_wellFormed {ns : List Node} (h : ∀ n ∈ ns, n.WellFormed) :
    (multipleValues ns).WellFormed := by
  obtain heq | ⟨n, rfl, heq⟩ := multipleValues_eq ns
  · rw [heq]
    exact bareArray_wellFormed h
  · rw [heq]
    exact h n List.mem_cons_self

/-- A list of targets: a well-formed node of that kind. -/
structure IsTargetList (n : Node) : Prop where
  wellFormed : n.WellFormed
  kind_eq : n.kind = .mlhs

theorem targets_isTargetList {ns : List Node} (h : ∀ n ∈ ns, n.WellFormed) :
    (targets ns).IsTargetList := by
  obtain heq | ⟨n, rfl, hkind, heq⟩ := targets_eq ns
  · rw [heq]
    exact ⟨wellFormed_mk (by simp) (slotsAll_slots.mpr h), rfl⟩
  · rw [heq]
    exact ⟨h n List.mem_cons_self, hkind⟩

theorem parenTargets_wellFormed {opening closing : Token} {ns : List Node}
    (h : ∀ n ∈ ns, n.WellFormed) : (parenTargets opening ns closing).WellFormed :=
  wellFormed_mk (by simp) (slotsAll_slots.mpr h)

theorem multipleAssign_wellFormed {left value : Node} (hleft : left.IsTargetList)
    (hvalue : value.WellFormed) : (multipleAssign left value).WellFormed :=
  wellFormed_mk (by simp [hleft.kind_eq]) (by simpa using ⟨hleft.wellFormed, hvalue⟩)

theorem assignValues?_wellFormed {n : Node} {items : List Node} (hn : n.WellFormed)
    (hitems : ∀ m ∈ items, m.WellFormed) : ∀ m ∈ assignValues? n items, m.WellFormed :=
  fun m hm => assign?_wellFormed hn (bareArray_wellFormed hitems) m (mem_assignValues? hm)

/-! ## §3. Conditions. -/

theorem conditionSlot_holds {form : Form} (hform : form = .node ∨ form = .part) {c : Child}
    (h : form.holds c = true) : form.holds (conditionSlot c) = true := by
  cases c with
  | node n => rcases hform with rfl | rfl <;> rfl
  | _ => exact h

/-- Conditions fit where any nodes fit. -/
theorem conditionSlots_fits {l : Layout} (hl : ∀ form ∈ l.forms, form = .node ∨ form = .part)
    {children : List Child} (h : l.fits children = true) :
    l.fits (conditionSlots children) = true := by
  refine Layout.fits_mono hl ?_ h
  clear h
  induction children with
  | nil => exact .nil
  | cons c rest ih => exact .cons (fun form hform hc => conditionSlot_holds hform hc) ih

theorem conditionSlots_wellFormed {children : List Child}
    (h : ∀ n, Child.node n ∈ children → (condition n).WellFormed) :
    SlotsWellFormed (conditionSlots children) := by
  induction children with
  | nil => exact slotsAll_nil
  | cons c rest ih =>
      refine slotsAll_cons.mpr ⟨fun n hn => ?_, ih fun n hn => h n (List.mem_cons_of_mem _ hn)⟩
      cases c with
      | node m =>
          cases hn
          exact h m List.mem_cons_self
      | _ => cases hn

/-- A node whose kind promises any nodes may have conditions in its slots instead. -/
theorem withConditions_wellFormed {kind kind' : Kind} {children : List Child} {span : Span}
    (l : Layout) (hbefore : kind.layouts = [l]) (hafter : kind'.layouts = [l])
    (hl : ∀ form ∈ l.forms, form = .node ∨ form = .part) (h : Fits (.mk kind children span))
    (hslots : SlotsWellFormed (conditionSlots children)) :
    (Node.mk kind' (conditionSlots children) span).WellFormed := by
  refine wellFormed_mk (Kind.fits_of_layout l ?_ (conditionSlots_fits hl ?_)) hslots
  · rw [hafter]
    exact List.mem_cons_self
  · exact h.of_layouts hbefore

theorem condition_wellFormed (n : Node) : n.WellFormed → (condition n).WellFormed := by
  induction n using ind with
  | mk kind children span ih =>
      intro h
      have hfits := h.here
      have hslots : SlotsWellFormed (conditionSlots children) :=
        conditionSlots_wellFormed fun m hm => ih m hm (h.child hm)
      unfold condition
      split
      · -- a pattern alone is matched with the current line
        exact wellFormed_mk (by simp [Node.kind]) (by simpa using h)
      · exact withConditions_wellFormed (.exactly [.part, .part]) rfl rfl (by simp [Layout.forms])
          hfits hslots
      · exact withConditions_wellFormed (.exactly [.part, .part]) rfl rfl (by simp [Layout.forms])
          hfits hslots
      · exact withConditions_wellFormed (.exactly [.node, .node]) rfl rfl (by simp [Layout.forms])
          hfits hslots
      · exact withConditions_wellFormed (.exactly [.node, .node]) rfl rfl (by simp [Layout.forms])
          hfits hslots
      · -- parentheses are looked through if there is one statement in them
        split
        · exact withConditions_wellFormed (.many [] .node []) rfl rfl (by simp [Layout.forms]) hfits
            hslots
        · exact h
      · exact h

section Conditionals

variable {kw : Token} {cond : Node} {yes no : Option Node} (hcond : cond.WellFormed)
  (hyes : ∀ n ∈ yes, n.WellFormed) (hno : ∀ n ∈ no, n.WellFormed)
include hcond hyes hno

theorem conditional_wellFormed {stop : Span} : (conditional kw cond yes no stop).WellFormed :=
  wellFormed_mk (by simp) (by simpa using ⟨condition_wellFormed cond hcond, hyes, hno⟩)

theorem elseIf_wellFormed : (elseIf kw cond yes no).WellFormed :=
  conditional_wellFormed hcond hyes hno

end Conditionals

theorem ternary_wellFormed {cond yes no : Node} (hcond : cond.WellFormed) (hyes : yes.WellFormed)
    (hno : no.WellFormed) : (ternary cond yes no).WellFormed :=
  wellFormed_mk (by simp) (by simpa using ⟨condition_wellFormed cond hcond, hyes, hno⟩)

theorem modified_wellFormed {body value : Node} {kw : Token} (hbody : body.WellFormed)
    (hvalue : value.WellFormed) : (modified body kw value).WellFormed := by
  have hcond := condition_wellFormed value hvalue
  simp only [modified]
  split
  · exact wellFormed_mk (by simp) (by simpa using ⟨hcond, hbody⟩)
  · exact wellFormed_mk (by simp) (by simpa using ⟨hcond, hbody⟩)
  · refine wellFormed_mk ?_ (by simpa using ⟨hcond, hbody⟩)
    split <;> simp
  · refine wellFormed_mk ?_ (by simpa using ⟨hcond, hbody⟩)
    split <;> simp
  · exact rescueModifier_wellFormed hbody hvalue

/-! ## §4. Loops and choices. -/

section Loops

variable {kw closing : Token} {body : Option Node} (hbody : ∀ n ∈ body, n.WellFormed)
include hbody

theorem conditionLoop_wellFormed {cond : Node} (hcond : cond.WellFormed) :
    (conditionLoop kw cond body closing).WellFormed := by
  refine wellFormed_mk ?_ (by simpa using ⟨condition_wellFormed cond hcond, hbody⟩)
  split <;> simp

theorem forLoop_wellFormed {var elements : Node} (hvar : var.WellFormed)
    (helements : elements.WellFormed) : (forLoop kw var elements body closing).WellFormed :=
  wellFormed_mk (by simp) (by simpa using ⟨hvar, helements, hbody⟩)

end Loops

/-- A branch of a choice: a well-formed node of the kind that the choice asks for. -/
structure IsBranch (kind : Kind) (n : Node) : Prop where
  wellFormed : n.WellFormed
  kind_eq : n.kind = kind

theorem branches_fit {kind : Kind} {last : Child} {n : Node} {rest : List Node}
    (h : ∀ m ∈ n :: rest, m.IsBranch kind) (hlast : Form.part.holds last = true) :
    Layout.fitsFront (some (.nodeOf [kind])) [.part] [.nodeOf [kind]]
      (slots (n :: rest) ++ [last]) = true := by
  have hkind : ∀ m ∈ n :: rest, (Form.nodeOf [kind]).holds (.node m) = true := by
    intro m hm
    simp [(h m hm).kind_eq]
  have htail : Layout.fitsTail (some (.nodeOf [kind])) [.part] (slots rest ++ [last]) = true := by
    refine Layout.fitsTail_slots_append (fun m hm => hkind m (List.mem_cons_of_mem _ hm)) ?_
    simp [hlast]
  show ((Form.nodeOf [kind]).holds (.node n) && Layout.fitsTail _ _ (slots rest ++ [last])) = true
  rw [hkind n List.mem_cons_self, htail]
  rfl

theorem branches_wellFormed {kind : Kind} {head last : Child} {ns : List Node}
    (hhead : ∀ n, head = .node n → n.WellFormed) (h : ∀ n ∈ ns, n.IsBranch kind)
    (hlast : ∀ n, last = .node n → n.WellFormed) :
    SlotsWellFormed (head :: slots ns ++ [last]) := by
  refine slotsAll_append.mpr ⟨slotsAll_cons.mpr ⟨hhead, ?_⟩, ?_⟩
  · exact slotsAll_slots.mpr fun n hn => (h n hn).wellFormed
  · exact slotsAll_cons.mpr ⟨hlast, slotsAll_nil⟩

theorem whenClause_isBranch {kw : Token} {value : Node} {values : List Node} {body : Option Node}
    (hvalues : ∀ n ∈ value :: values, n.WellFormed) (hbody : ∀ n ∈ body, n.WellFormed) :
    (whenClause kw (value :: values) body).IsBranch .whenClause := by
  refine ⟨wellFormed_mk ?_ ?_, rfl⟩
  · have htail : Layout.fitsTail (some .node) [.part] (slots values ++ [.ofOption body]) = true :=
      Layout.fitsTail_slots_append (fun _ _ => rfl) (by simp)
    simpa using htail
  · refine slotsAll_append.mpr ⟨slotsAll_slots.mpr hvalues, ?_⟩
    simpa using hbody

/-- The body of the `else` of a choice is well formed. -/
abbrev ElseWellFormed (otherwise : Option ElseClause) : Prop :=
  ∀ clause ∈ otherwise, ∀ n ∈ clause.2, n.WellFormed

section Choices

variable {kw closing : Token} {otherwise : Option ElseClause}
  (hotherwise : ElseWellFormed otherwise) {clause : Node} {clauses : List Node}
include hotherwise

theorem caseWhen_wellFormed {subject : Option Node} (hsubject : ∀ n ∈ subject, n.WellFormed)
    (hclauses : ∀ n ∈ clause :: clauses, n.IsBranch .whenClause) :
    (caseWhen kw subject (clause :: clauses) otherwise closing).WellFormed := by
  refine wellFormed_mk ?_ ?_
  · have hfits := branches_fit hclauses (part_holds_ofOption (otherwise.bind (·.2)))
    apply Kind.fits_of_layout _ List.mem_cons_self
    show (Form.part.holds (.ofOption subject) && Layout.fitsFront _ _ _ _) = true
    rw [part_holds_ofOption]
    exact hfits
  · refine branches_wellFormed (by simpa using hsubject) hclauses fun n hn => ?_
    obtain ⟨c, hc, hn⟩ := Option.bind_eq_some_iff.mp (ofOption_eq_node.mp hn)
    exact hotherwise c hc n hn

theorem caseMatch_wellFormed {subject : Node} (hsubject : subject.WellFormed)
    (hclauses : ∀ n ∈ clause :: clauses, n.IsBranch .inPattern) :
    (caseMatch kw subject (clause :: clauses) otherwise closing).WellFormed := by
  -- what the `else` leaves in the last slot differs, the slots before it do not
  have hlast : ∀ last : Child, (∀ n, last = .node n → n.WellFormed) →
      Form.part.holds last = true → ∀ span : Span,
        (Node.mk .caseMatch (.node subject :: slots (clause :: clauses) ++ [last])
          span).WellFormed := by
    intro last hlast hpart span
    refine wellFormed_mk (Kind.fits_of_layout _ List.mem_cons_self ?_) ?_
    · exact branches_fit hclauses hpart
    · exact branches_wellFormed (by simpa using hsubject) hclauses hlast
  unfold caseMatch
  match otherwise, hotherwise with
  | none, _ => exact hlast .absent (by simp) rfl _
  | some (keyword, none), _ =>
      refine hlast _ ?_ rfl _
      rintro n ⟨⟩
      exact bare_wellFormed rfl
  | some (_, some body), hotherwise =>
      refine hlast _ ?_ rfl _
      rintro n ⟨⟩
      exact hotherwise _ rfl body rfl

end Choices

theorem inPattern_isBranch {kw : Token} {pattern : Node} {guard body : Option Node}
    (hpattern : pattern.WellFormed) (hguard : ∀ n ∈ guard, n.WellFormed)
    (hbody : ∀ n ∈ body, n.WellFormed) : (inPattern kw pattern guard body).IsBranch .inPattern :=
  ⟨wellFormed_mk (by simp) (by simpa using ⟨hpattern, hguard, hbody⟩), rfl⟩

theorem guard_wellFormed {kw : Token} {cond : Node} (h : cond.WellFormed) :
    (guard kw cond).WellFormed := by
  refine wellFormed_mk ?_ (by simpa using h)
  split <;> simp

/-! ## §5. Bodies. -/

theorem rescueClause_isBranch {kw : Token} {classes : Option (List Node)} {var body : Option Node}
    (hclasses : ∀ ns ∈ classes, ∀ n ∈ ns, n.WellFormed) (hvar : ∀ n ∈ var, n.WellFormed)
    (hbody : ∀ n ∈ body, n.WellFormed) : (rescueClause kw classes var body).IsBranch .resbody := by
  have hlist : ∀ n ∈ classes.map bareArray, n.WellFormed := by
    intro n hn
    obtain ⟨ns, hns, rfl⟩ := Option.map_eq_some_iff.mp hn
    exact bareArray_wellFormed (hclasses ns hns)
  refine ⟨wellFormed_mk (by simp) ?_, rfl⟩
  simp only [slotsAll_cons, ofOption_eq_node]
  exact ⟨hlist, hvar, hbody, slotsAll_nil⟩

section Bodies

variable {statements rescues : List Node} {otherwise : Option (List Node)}
  {ensure : Option (Token × List Node)} (hstatements : ∀ n ∈ statements, n.WellFormed)
include hstatements

theorem rescued?_wellFormed (hrescues : ∀ n ∈ rescues, n.IsBranch .resbody)
    (hotherwise : ∀ ns ∈ otherwise, ∀ n ∈ ns, n.WellFormed) :
    ∀ n ∈ rescued? statements rescues otherwise, n.WellFormed := by
  have hbody := ofStatements?_wellFormed hstatements
  unfold rescued?
  match rescues, otherwise, hotherwise with
  | [], none, _ => exact hbody
  | [], some more, hmore =>
      -- an `else` without a `rescue` goes on with the statements
      refine ofStatements?_wellFormed (List.forall_mem_append.mpr ⟨?_, hmore more rfl⟩)
      exact fun n hn => hbody n (Option.mem_toList.mp hn)
  | first :: rest, otherwise, hotherwise =>
      have hfits := branches_fit hrescues (part_holds_ofOption (otherwise.bind ofStatements?))
      refine forall_mem_some (wellFormed_mk (Kind.fits_of_layout _ List.mem_cons_self ?_) ?_)
      · show (Form.part.holds (.ofOption (ofStatements? statements)) && _) = true
        rw [part_holds_ofOption]
        exact hfits
      · refine branches_wellFormed (by simpa using hbody) hrescues fun n hn => ?_
        obtain ⟨ns, hns, hn⟩ := Option.bind_eq_some_iff.mp (ofOption_eq_node.mp hn)
        exact ofStatements?_wellFormed (hotherwise ns hns) n hn

omit hstatements in
theorem ensured?_wellFormed {body : Option Node} (hbody : ∀ n ∈ body, n.WellFormed)
    (hensure : ∀ e ∈ ensure, ∀ n ∈ e.2, n.WellFormed) :
    ∀ n ∈ ensured? body ensure, n.WellFormed := by
  unfold ensured?
  match ensure, hensure with
  | none, _ => exact hbody
  | some (kw, last), hlast =>
      have hlast := ofStatements?_wellFormed (hlast _ rfl)
      exact forall_mem_some (wellFormed_mk (by simp) (by simpa using ⟨hbody, hlast⟩))

theorem bodyStatements_wellFormed (hrescues : ∀ n ∈ rescues, n.IsBranch .resbody)
    (hotherwise : ∀ ns ∈ otherwise, ∀ n ∈ ns, n.WellFormed)
    (hensure : ∀ e ∈ ensure, ∀ n ∈ e.2, n.WellFormed) :
    ∀ n ∈ bodyStatements statements rescues otherwise ensure, n.WellFormed := by
  unfold bodyStatements
  split
  · exact hstatements
  · have hrescued := rescued?_wellFormed hstatements hrescues hotherwise
    exact fun n hn => ensured?_wellFormed hrescued hensure n (Option.mem_toList.mp hn)

variable {kw opening closing : Token}

theorem keywordBegin_wellFormed : (keywordBegin kw statements closing).WellFormed :=
  wellFormed_mk (by simp) (slotsAll_slots.mpr hstatements)

theorem parenthesized_wellFormed : (parenthesized opening statements closing).WellFormed :=
  wellFormed_mk (by simp) (slotsAll_slots.mpr hstatements)

theorem beforeOrAfter_wellFormed : (beforeOrAfter kw statements closing).WellFormed := by
  refine wellFormed_mk ?_ (by simpa using ofStatements?_wellFormed hstatements)
  split <;> simp

end Bodies

/-! ## §6. Patterns. -/

theorem matchVar_isBranch (t : Token) : (matchVar t).IsBranch .matchVar :=
  ⟨named_wellFormed rfl, rfl⟩

theorem pin_wellFormed {caret : Token} {value : Node} (h : value.WellFormed) :
    (pin caret value).WellFormed :=
  wellFormed_mk (by simp) (by simpa using h)

theorem matchAs_wellFormed {pattern : Node} {name : Token} (h : pattern.WellFormed) :
    (matchAs pattern name).WellFormed := by
  obtain ⟨hname, hkind⟩ := matchVar_isBranch name
  exact wellFormed_mk (by simp [hkind]) (by simpa using ⟨h, hname⟩)

theorem matchRest_wellFormed (star : Token) (name : Option Token) :
    (matchRest star name).WellFormed := by
  unfold matchRest
  split
  next name =>
    obtain ⟨hname, hkind⟩ := matchVar_isBranch name
    exact wellFormed_mk (by simp [hkind]) (by simpa using hname)
  next => exact bare_wellFormed rfl

theorem matchNoRest_wellFormed (star nil_ : Token) : (matchNoRest star nil_).WellFormed :=
  wellFormed_mk (by simp) slotsAll_nil

section Lists

variable {items : List Node} (h : ∀ n ∈ items, n.WellFormed) {opening closing : Token}
include h

theorem patternList_wellFormed (trailingComma : Bool) (span : Span) :
    (Node.mk (listPatternKind items trailingComma) (slots items) span).WellFormed := by
  refine wellFormed_mk ?_ (slotsAll_slots.mpr h)
  simp only [listPatternKind]
  split
  · simp
  split <;> simp

theorem listPattern_wellFormed (trailingComma : Bool) :
    (listPattern opening items trailingComma closing).WellFormed :=
  patternList_wellFormed h _ _

theorem topPattern_wellFormed (trailingComma : Bool) :
    (topPattern items trailingComma).WellFormed := by
  obtain heq | ⟨only, rfl, heq⟩ := topPattern_eq items trailingComma
  · rw [heq]
    exact patternList_wellFormed h _ _
  · rw [heq]
    exact h only List.mem_cons_self

theorem hashPattern_wellFormed : (hashPattern opening items closing).WellFormed :=
  wellFormed_mk (by simp) (slotsAll_slots.mpr h)

theorem bareHashPattern_wellFormed : (bareHashPattern items).WellFormed :=
  wellFormed_mk (by simp) (slotsAll_slots.mpr h)

end Lists

theorem constPattern_wellFormed {scope inner : Node} {closing : Token} (hscope : scope.WellFormed)
    (hinner : inner.WellFormed) : (constPattern scope inner closing).WellFormed :=
  wellFormed_mk (by simp) (by simpa using ⟨hscope, hinner⟩)

theorem matchPattern_wellFormed (v : Version) {value pattern : Node} {op : Token}
    (hvalue : value.WellFormed) (hpattern : pattern.WellFormed) :
    (matchPattern v value op pattern).WellFormed := by
  apply joined_wellFormed hvalue hpattern
  split
  · rfl
  split <;> rfl

end RubySyntax.Node
