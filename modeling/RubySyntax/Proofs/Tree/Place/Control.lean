/-
  RubySyntax.Proofs.Tree.Place.Control
  ────────────────────────────────────
  **ASSIGNMENTS, CONTROL AND PATTERNS ARE PLACED.**

  A target and a condition keep the span of the expression that they were.  The branches of a
  body are joined from its first statement on, so of the statements it matters that none of them
  begins before the first.
-/
import RubySyntax.Node.Build.Control
import RubySyntax.Node.Build.Pattern
import RubySyntax.Proofs.Tree.Place.Call

namespace RubySyntax.Node

variable {tokens : List Token} {lo hi a b : Nat}

/-! ## §1. Targets and assignments. -/

theorem target?_stands {n : Node} (hn : n.Stands tokens lo hi) :
    ∀ t ∈ target? n, t.Stands tokens lo hi := by
  intro t ht
  obtain ⟨kind, children, hmakes, rfl⟩ := mem_target? ht
  exact hn.rewrap (hmakes.slotsAll fun m hm => hm)

section Values

variable {n value : Node} (hn : n.Stands tokens lo hi) (hvalue : value.Stands tokens lo hi)
include hn hvalue

theorem assign?_stands : ∀ m ∈ assign? n value, m.Stands tokens lo hi := by
  intro m hm
  obtain ⟨t, ht, rfl⟩ := Option.map_eq_some_iff.mp hm
  have ht := target?_stands hn t ht
  have hparts : (Node.mk t.kind (t.children ++ [.node value]) (joinAll t.span [value])).Stands
      tokens lo hi := by
    refine joinAll_stands ht.span (by simpa using hvalue) (slotsAll_append.mpr ⟨?_, ?_⟩)
    · exact fun m hm => .inr (ht.child_lies hm)
    · simp
  exact hparts

theorem operatorAssign?_stands (op : Token) :
    ∀ m ∈ operatorAssign? n op value, m.Stands tokens lo hi := by
  intro m hm
  obtain ⟨t, ht, rfl⟩ := Option.map_eq_some_iff.mp hm
  replace ht : t.Stands tokens lo hi := by
    split at ht
    · cases ht
      exact hn
    · exact target?_stands hn t ht
  dsimp only
  split
  · exact joined_stands ht hvalue
  split
  · exact joined_stands ht hvalue
  · apply stands_mk (ht.span.join hvalue.span)
    simpa using ⟨ht.lies_in (Span.join_contains_left _ _),
      hvalue.lies_in (Span.join_contains_right _ _)⟩

theorem rescueModifier_stands {kw : Token} (hkw : kw.span.Stands tokens lo hi) :
    (rescueModifier n kw value).Stands tokens lo hi := by
  have hclause : (Node.mk .resbody [.absent, .absent, .node value]
      (kw.span.join value.span)).Stands tokens lo hi := by
    apply stands_mk (hkw.join hvalue.span)
    simpa using hvalue.lies_in (Span.join_contains_right _ _)
  apply stands_mk (hn.span.join hclause.span)
  simpa using ⟨hn.lies_in (Span.join_contains_left _ _),
    hclause.lies_in (Span.join_contains_right _ _)⟩

end Values

section Lists

variable {ns : List Node} (hne : ns ≠ []) (hns : ∀ n ∈ ns, n.Stands tokens lo hi)
include hne hns

theorem multipleValues_stands : (multipleValues ns).Stands tokens lo hi := by
  obtain heq | ⟨n, rfl, heq⟩ := multipleValues_eq ns
  · rw [heq]
    exact cover_stands hne hns
  · rw [heq]
    exact hns n List.mem_cons_self

theorem targets_stands : (targets ns).Stands tokens lo hi := by
  obtain heq | ⟨n, rfl, -, heq⟩ := targets_eq ns
  · rw [heq]
    exact cover_stands hne hns
  · rw [heq]
    exact hns n List.mem_cons_self

theorem assignValues?_stands {n : Node} (hn : n.Stands tokens lo hi) :
    ∀ m ∈ assignValues? n ns, m.Stands tokens lo hi :=
  fun m hm => assign?_stands hn (cover_stands hne hns) m (mem_assignValues? hm)

end Lists

/-! ## §2. Conditions. -/

@[simp]
theorem span_condition (n : Node) : (condition n).span = n.span := by
  cases n with
  | mk kind children span =>
      unfold condition
      split
      · rfl
      · rfl
      · rfl
      · rfl
      · rfl
      · split <;> rfl
      · rfl

theorem mem_conditionSlots {m : Node} {children : List Child}
    (h : Child.node m ∈ conditionSlots children) :
    ∃ n, Child.node n ∈ children ∧ m = condition n := by
  induction children with
  | nil => cases h
  | cons c rest ih =>
      rcases List.mem_cons.mp h with h | h
      · cases c with
        | node n =>
            cases h
            exact ⟨n, List.mem_cons_self, rfl⟩
        | _ => cases h
      · obtain ⟨n, hn, hm⟩ := ih h
        exact ⟨n, List.mem_cons_of_mem _ hn, hm⟩

/-- A condition is placed where the expression was. -/
theorem condition_placed (n : Node) :
    Everywhere (Placed tokens) n → Everywhere (Placed tokens) (condition n) := by
  induction n using ind with
  | mk kind children span ih =>
      intro h
      -- A node of any other kind than a parameter list has tokens of its own.
      have hlocated : kind ≠ .args → span.Located tokens :=
        fun hkind => h.here.located.resolve_right fun hunwritten => hkind hunwritten.kind_eq
      -- A node with conditions in its slots keeps its span, and so do they.
      have hslots : ∀ kind', span.Located tokens →
          Everywhere (Placed tokens) (.mk kind' (conditionSlots children) span) := by
        intro kind' hspan
        refine .mk ⟨h.here.le, .inl hspan, fun m hm => ?_⟩ fun m hm => ?_
        · obtain ⟨n, hn, rfl⟩ := mem_conditionSlots hm
          rw [span_condition]
          exact h.here.contains n hn
        · obtain ⟨n, hn, rfl⟩ := mem_conditionSlots hm
          exact ih n hn (h.child hn)
      unfold condition
      split
      · refine .mk ⟨h.here.le, .inl (hlocated (by decide)), ?_⟩ ?_
        · rintro m hm
          cases List.mem_singleton.mp hm
          exact .refl span
        · rintro m hm
          cases List.mem_singleton.mp hm
          exact h
      · exact hslots _ (hlocated (by decide))
      · exact hslots _ (hlocated (by decide))
      · exact hslots _ (hlocated (by decide))
      · exact hslots _ (hlocated (by decide))
      · split
        · exact hslots _ (hlocated (by decide))
        · exact h
      · exact h

theorem Stands.condition {n : Node} (h : n.Stands tokens lo hi) :
    (condition n).Stands tokens lo hi :=
  ⟨by rw [span_condition]; exact h.span, condition_placed n h.placed⟩

/-! ## §3. Conditionals and loops. -/

section Conditionals

variable {kw : Token} {cond : Node} {yes no : Option Node}

theorem conditional_stands {stop : Span} (hkw : kw.span.Stands tokens lo a)
    (hcond : cond.Stands tokens a b) (hyes : ∀ n ∈ yes, n.Stands tokens a b)
    (hno : ∀ n ∈ no, n.Stands tokens a b) (hstop : stop.Stands tokens a hi)
    (hb : b ≤ stop.stop) : (conditional kw cond yes no stop).Stands tokens lo hi := by
  apply stretch_stands hkw hstop hb
  simpa using ⟨hcond.condition.lies, fun n hn => (hyes n hn).lies, fun n hn => (hno n hn).lies⟩

theorem elseIf_stands (hkw : kw.span.Stands tokens lo a) (hcond : cond.Stands tokens a hi)
    (hyes : ∀ n ∈ yes, n.Stands tokens a hi) (hno : ∀ n ∈ no, n.Stands tokens a hi) :
    (elseIf kw cond yes no).Stands tokens lo hi := by
  have hparts : ∀ n ∈ yes.toList ++ no.toList, n.Stands tokens a hi :=
    List.forall_mem_append.mpr ⟨by simpa using hyes, by simpa using hno⟩
  simp only [elseIf, joinOption_eq_joinAll, joinAll_joinAll]
  -- there is no `end`, so the span ends with the last part
  have hpart : ∀ n ∈ yes.toList ++ no.toList,
      n.Stands tokens a (joinAll cond.span (yes.toList ++ no.toList)).stop :=
    fun n hn => (hparts n hn).narrow (hparts n hn).span.lo_le (joinAll_contains n hn).stop_le
  refine conditional_stands hkw ?_ (fun n hn => hpart n ?_) (fun n hn => hpart n ?_)
    (stands_joinAll hcond.span hparts) (Nat.le_refl _)
  · exact hcond.narrow hcond.span.lo_le (joinAll_contains_self _ _).stop_le
  · exact List.mem_append_left _ (Option.mem_toList.mpr hn)
  · exact List.mem_append_right _ (Option.mem_toList.mpr hn)

end Conditionals

theorem ternary_stands {cond yes no : Node} (hcond : cond.Stands tokens lo a)
    (hyes : yes.Stands tokens a b) (hno : no.Stands tokens b hi) :
    (ternary cond yes no).Stands tokens lo hi := by
  have hab := hyes.bounds
  have hstop := Nat.le_trans hno.span.lo_le hno.span.le
  -- the span is joined from the condition and the last branch alone
  rw [ternary, ← span_condition cond]
  apply lead_stands hcond.condition (hno.span.mono (by omega)) (Nat.le_refl _)
  have hno' : no.Stands tokens a no.span.stop :=
    hno.narrow (Nat.le_trans hab hno.span.lo_le) (Nat.le_refl _)
  simpa using ⟨hyes.lies.mono (by omega), hno'.lies⟩

/-- A statement and its modifier are joined. -/
theorem modified_stands {body value : Node} {kw : Token} (hbody : body.Stands tokens lo hi)
    (hkw : kw.span.Stands tokens lo hi) (hvalue : value.Stands tokens lo hi) :
    (modified body kw value).Stands tokens lo hi := by
  have hspan := hbody.span.join hvalue.span
  have hbody' := hbody.lies_in (Span.join_contains_left body.span value.span)
  have hcond := hvalue.condition.lies_in (s := body.span.join value.span) <| by
    rw [span_condition]
    exact Span.join_contains_right _ _
  simp only [modified]
  split
  · exact stands_mk hspan (by simpa using ⟨hcond, hbody'⟩)
  · exact stands_mk hspan (by simpa using ⟨hcond, hbody'⟩)
  · exact stands_mk hspan (by simpa using ⟨hcond, hbody'⟩)
  · exact stands_mk hspan (by simpa using ⟨hcond, hbody'⟩)
  · exact rescueModifier_stands hbody hvalue hkw

section Loops

variable {kw closing : Token} {body : Option Node} (hkw : kw.span.Stands tokens lo a)
  (hbody : ∀ n ∈ body, n.Stands tokens a b) (hclosing : closing.span.Stands tokens b hi)
include hkw hbody hclosing

theorem conditionLoop_stands {cond : Node} (hcond : cond.Stands tokens a b) :
    (conditionLoop kw cond body closing).Stands tokens lo hi := by
  apply bracket_stands hkw hclosing hcond.bounds
  simpa using ⟨hcond.condition.lies, fun n hn => (hbody n hn).lies⟩

theorem forLoop_stands {var elements : Node} (hvar : var.Stands tokens a b)
    (helements : elements.Stands tokens a b) :
    (forLoop kw var elements body closing).Stands tokens lo hi := by
  apply bracket_stands hkw hclosing hvar.bounds
  simpa using ⟨hvar.lies, helements.lies, fun n hn => (hbody n hn).lies⟩

end Loops

/-! ## §4. Choices. -/

theorem whenClause_stands {kw : Token} {values : List Node} {body : Option Node}
    (hkw : kw.span.Stands tokens lo hi) (hvalues : ∀ n ∈ values, n.Stands tokens lo hi)
    (hbody : ∀ n ∈ body, n.Stands tokens lo hi) :
    (whenClause kw values body).Stands tokens lo hi := by
  simp only [whenClause, joinOption_eq_joinAll, joinAll_joinAll]
  apply joinAll_stands hkw (List.forall_mem_append.mpr ⟨hvalues, by simpa using hbody⟩)
  refine slotsAll_append.mpr ⟨slotsAll_slots.mpr fun n hn => ?_, ?_⟩
  · exact .inl (List.mem_append_left _ hn)
  · simpa using fun n hn => .inl (.inr hn)

/-- The `else` of a choice stands between two offsets. -/
structure ElseStands (tokens : List Token) (lo hi : Nat) (clause : ElseClause) : Prop where
  keyword : clause.1.span.Stands tokens lo hi
  body : ∀ n ∈ clause.2, n.Stands tokens lo hi

theorem ElseStands.mono {clause : ElseClause} {lo' hi' : Nat}
    (h : ElseStands tokens lo hi clause) (hle : lo' ≤ lo ∧ hi ≤ hi') :
    ElseStands tokens lo' hi' clause :=
  ⟨h.keyword.mono ⟨hle.1, hle.2⟩, fun n hn => (h.body n hn).mono ⟨hle.1, hle.2⟩⟩

section Choices

variable {kw closing : Token} {clauses : List Node} {otherwise : Option ElseClause}
  (hkw : kw.span.Stands tokens lo a) (hclauses : ∀ n ∈ clauses, n.Stands tokens a b)
  (hotherwise : ∀ clause ∈ otherwise, ElseStands tokens a b clause)
  (hclosing : closing.span.Stands tokens b hi)
include hkw hclauses hotherwise hclosing

theorem caseWhen_stands {subject : Option Node} (hab : a ≤ b)
    (hsubject : ∀ n ∈ subject, n.Stands tokens a b) :
    (caseWhen kw subject clauses otherwise closing).Stands tokens lo hi := by
  refine bracket_stands hkw hclosing hab (slotsAll_append.mpr ⟨slotsAll_cons.mpr ⟨?_, ?_⟩, ?_⟩)
  · simpa using fun n hn => (hsubject n hn).lies
  · exact slotsAll_slots.mpr fun n hn => (hclauses n hn).lies
  · refine slotsAll_cons.mpr ⟨fun n hn => ?_, slotsAll_nil⟩
    obtain ⟨clause, hclause, hn⟩ := Option.bind_eq_some_iff.mp (ofOption_eq_node.mp hn)
    exact ((hotherwise clause hclause).body n hn).lies

theorem caseMatch_stands {subject : Node} (hsubject : subject.Stands tokens a b) :
    (caseMatch kw subject clauses otherwise closing).Stands tokens lo hi := by
  refine bracket_stands hkw hclosing hsubject.bounds
    (slotsAll_append.mpr ⟨slotsAll_cons.mpr ⟨?_, ?_⟩, ?_⟩)
  · rintro n ⟨⟩
    exact hsubject.lies
  · exact slotsAll_slots.mpr fun n hn => (hclauses n hn).lies
  · refine slotsAll_cons.mpr ⟨fun n hn => ?_, slotsAll_nil⟩
    match otherwise, hotherwise with
    | none, _ => cases hn
    | some (keyword, none), hotherwise =>
        cases hn
        exact (bare_stands (hotherwise _ rfl).keyword).lies
    | some (keyword, some body), hotherwise =>
        cases hn
        exact ((hotherwise _ rfl).body n rfl).lies

end Choices

theorem inPattern_stands {kw : Token} {pattern : Node} {guard body : Option Node}
    (hkw : kw.span.Stands tokens lo hi) (hpattern : pattern.Stands tokens lo hi)
    (hguard : ∀ n ∈ guard, n.Stands tokens lo hi) (hbody : ∀ n ∈ body, n.Stands tokens lo hi) :
    (inPattern kw pattern guard body).Stands tokens lo hi := by
  have hparts : ∀ n ∈ [pattern] ++ guard.toList ++ body.toList, n.Stands tokens lo hi := by
    simp only [List.forall_mem_append]
    exact ⟨⟨by simpa using hpattern, by simpa using hguard⟩, by simpa using hbody⟩
  have hspan : joinAll kw.span [pattern] = kw.span.join pattern.span := rfl
  simp only [inPattern, joinOption_eq_joinAll, ← hspan, joinAll_joinAll]
  exact joinAll_stands hkw hparts (by simp +contextual)

/-! ## §5. Bodies. -/

/-- Statements stand between two offsets, and none of them begins before the first. -/
structure StatementsStand (tokens : List Token) (lo hi : Nat) (ns : List Node) : Prop where
  bounds : lo ≤ hi
  stands : ∀ n ∈ ns, n.Stands tokens lo hi
  first : ∀ first ∈ ns.head?, ∀ n ∈ ns, n.Stands tokens first.span.start hi

theorem rescueClause_stands {kw : Token} {classes : Option (List Node)} {var body : Option Node}
    (hkw : kw.span.Stands tokens lo hi)
    (hclasses : ∀ ns ∈ classes, ns ≠ [] ∧ ∀ n ∈ ns, n.Stands tokens lo hi)
    (hvar : ∀ n ∈ var, n.Stands tokens lo hi) (hbody : ∀ n ∈ body, n.Stands tokens lo hi) :
    (rescueClause kw classes var body).Stands tokens lo hi := by
  have hlist : ∀ n ∈ classes.map bareArray, n.Stands tokens lo hi := by
    intro n hn
    obtain ⟨ns, hns, rfl⟩ := Option.map_eq_some_iff.mp hn
    exact cover_stands (hclasses ns hns).1 (hclasses ns hns).2
  simp only [rescueClause]
  generalize classes.map bareArray = list at hlist
  simp only [joinOption_eq_joinAll, joinAll_joinAll]
  refine joinAll_stands hkw ?_ ?_
  · simp only [List.forall_mem_append]
    exact ⟨⟨by simpa using hlist, by simpa using hvar⟩, by simpa using hbody⟩
  · simp +contextual

section Bodies

variable {statements rescues : List Node} {otherwise : Option (List Node)}
  {ensure : Option (Token × List Node)} {c : Nat}

/-- A body with branches for failures is joined from where it starts: at its first statement, or
at its first branch if it has no statement. -/
theorem rescue_stands {start : Span} {body last : Option Node} {first : Node} {rest : List Node}
    (hstart : start.Stands tokens lo b)
    (hbody : ∀ n ∈ body, start.start ≤ n.span.start ∧ n.Stands tokens lo a)
    (hrescues : ∀ n ∈ first :: rest, n.Stands tokens a b) (hlast : ∀ n ∈ last, n.Stands tokens a b)
    (hlo : lo ≤ a) :
    (Node.mk .rescue (.ofOption body :: slots (first :: rest) ++ [.ofOption last])
      (joinAll start (first :: rest ++ last.toList))).Stands tokens lo b := by
  have hparts : ∀ n ∈ first :: rest ++ last.toList, n.Stands tokens lo b := by
    refine List.forall_mem_append.mpr ⟨fun n hn => (hrescues n hn).mono (by omega), fun n hn => ?_⟩
    exact (hlast n (Option.mem_toList.mp hn)).mono (by omega)
  have hjoined : ∀ n ∈ first :: rest ++ last.toList, n.Lies tokens
      (joinAll start (first :: rest ++ last.toList)).start
      (joinAll start (first :: rest ++ last.toList)).stop :=
    fun n hn => (hparts n hn).lies_in (joinAll_contains n hn)
  refine stands_mk (stands_joinAll hstart hparts)
    (slotsAll_append.mpr ⟨slotsAll_cons.mpr ⟨fun n hn => ?_, ?_⟩, ?_⟩)
  · -- The span is not joined from the statements, but they end before the first branch begins.
    obtain ⟨hle, hn⟩ := hbody n (ofOption_eq_node.mp hn)
    have hfirst := (hrescues first List.mem_cons_self).span
    have hend := (hjoined first (List.mem_append_left _ List.mem_cons_self)).le_hi
    have hstart' := (joinAll_contains_self start (first :: rest ++ last.toList)).start_le
    refine ⟨Nat.le_trans hstart' hle, ?_, hn.placed⟩
    calc n.span.stop
      _ ≤ a := hn.span.le_hi
      _ ≤ first.span.start := hfirst.lo_le
      _ ≤ first.span.stop := hfirst.le
      _ ≤ _ := hend
  · exact slotsAll_slots.mpr fun n hn => hjoined n (List.mem_append_left _ hn)
  · refine slotsAll_cons.mpr ⟨fun n hn => ?_, slotsAll_nil⟩
    exact hjoined n (List.mem_append_right _ (Option.mem_toList.mpr (ofOption_eq_node.mp hn)))

theorem rescued?_stands (hstatements : StatementsStand tokens lo a statements)
    (hrescues : ∀ n ∈ rescues, n.Stands tokens a b)
    (hotherwise : ∀ ns ∈ otherwise, ∀ n ∈ ns, n.Stands tokens a b) (hab : a ≤ b) :
    ∀ n ∈ rescued? statements rescues otherwise, n.Stands tokens lo b := by
  have hlo := hstatements.bounds
  have hbody : ∀ n ∈ ofStatements? statements, n.Stands tokens lo a :=
    ofStatements?_stands hstatements.stands
  unfold rescued?
  match rescues, otherwise, hotherwise with
  | [], none, _ => exact fun n hn => (hbody n hn).mono (by omega)
  | [], some more, hmore =>
      refine ofStatements?_stands (List.forall_mem_append.mpr ⟨fun n hn => ?_, fun n hn => ?_⟩)
      · exact (hbody n (Option.mem_toList.mp hn)).mono (by omega)
      · exact (hmore more rfl n hn).mono (by omega)
  | first :: rest, otherwise, hotherwise =>
      have hlast : ∀ n ∈ otherwise.bind ofStatements?, n.Stands tokens a b := by
        intro n hn
        obtain ⟨ns, hns, hn⟩ := Option.bind_eq_some_iff.mp hn
        exact ofStatements?_stands (hotherwise ns hns) n hn
      apply forall_mem_some
      simp only [joinOption_eq_joinAll, joinAll_joinAll]
      -- the span starts with the first statement, or with the first branch if there is none
      cases hhead : statements.head? with
      | none =>
          rw [List.head?_eq_none_iff] at hhead
          have hfirst := (hrescues first List.mem_cons_self).span
          refine rescue_stands (hfirst.mono (by omega)) ?_ hrescues hlast hlo
          rw [hhead]
          exact fun n hn => nomatch hn
      | some s =>
          have hs := (hstatements.stands s (List.mem_of_mem_head? hhead)).span
          refine rescue_stands (hs.mono (by omega)) (fun n hn => ⟨?_, hbody n hn⟩) hrescues hlast
            hlo
          exact (ofStatements?_stands (hstatements.first s hhead) n hn).span.lo_le

theorem ensured?_stands {body : Option Node} (hbody : ∀ n ∈ body, n.Stands tokens lo b)
    (hlo : lo ≤ b) (hb : b ≤ c)
    (hensure : ∀ e ∈ ensure, e.1.span.Stands tokens b c ∧ ∀ n ∈ e.2, n.Stands tokens b c) :
    ∀ n ∈ ensured? body ensure, n.Stands tokens lo c := by
  unfold ensured?
  match ensure, hensure with
  | none, _ => exact fun n hn => (hbody n hn).mono (by omega)
  | some (kw, last), hensure =>
      obtain ⟨hkw, hlast⟩ := hensure _ rfl
      replace hkw : kw.span.Stands tokens lo c := hkw.mono (by omega)
      have hlast : ∀ n ∈ ofStatements? last, n.Stands tokens lo c :=
        fun n hn => (ofStatements?_stands hlast n hn).mono (by omega)
      apply forall_mem_some
      simp only [joinOption_eq_joinAll]
      cases body with
      | none =>
          apply joinAll_stands (hkw.join hkw) (by simpa using hlast)
          simp +contextual
      | some m =>
          have hm : m.Stands tokens lo c := (hbody m rfl).mono (by omega)
          apply joinAll_stands (hm.span.join hkw) (by simpa using hlast)
          simpa using ⟨.inr (hm.lies_in (Span.join_contains_left _ _)), fun n hn => .inl hn⟩

theorem bodyStatements_stand (hstatements : StatementsStand tokens lo a statements)
    (hrescues : ∀ n ∈ rescues, n.Stands tokens a b)
    (hotherwise : ∀ ns ∈ otherwise, ∀ n ∈ ns, n.Stands tokens a b) (hab : a ≤ b) (hb : b ≤ c)
    (hensure : ∀ e ∈ ensure, e.1.span.Stands tokens b c ∧ ∀ n ∈ e.2, n.Stands tokens b c) :
    ∀ n ∈ bodyStatements statements rescues otherwise ensure, n.Stands tokens lo c := by
  have hlo := hstatements.bounds
  unfold bodyStatements
  split
  · exact fun n hn => (hstatements.stands n hn).mono (by omega)
  · have hrescued := rescued?_stands hstatements hrescues hotherwise hab
    intro n hn
    exact ensured?_stands hrescued (by omega) hb hensure n (Option.mem_toList.mp hn)

theorem beforeOrAfter_stands {kw closing : Token} (hkw : kw.span.Stands tokens lo a)
    (hstatements : ∀ n ∈ statements, n.Stands tokens a b) (hab : a ≤ b)
    (hclosing : closing.span.Stands tokens b hi) :
    (beforeOrAfter kw statements closing).Stands tokens lo hi := by
  apply bracket_stands hkw hclosing hab
  simpa using fun n hn => (ofStatements?_stands hstatements n hn).lies

end Bodies

/-! ## §6. Patterns. -/

theorem matchAs_stands {pattern : Node} {name : Token} (h : pattern.Stands tokens lo hi)
    (hname : name.span.Stands tokens lo hi) : (matchAs pattern name).Stands tokens lo hi :=
  joined_stands h (named_stands hname)

theorem matchRest_stands {star : Token} {name : Option Token}
    (hstar : star.span.Stands tokens lo hi) (hname : ∀ t ∈ name, t.span.Stands tokens lo hi) :
    (matchRest star name).Stands tokens lo hi := by
  unfold matchRest
  split
  next name => exact marked_stands hstar (named_stands (hname name rfl))
  next => exact bare_stands hstar

theorem matchNoRest_stands {star nil_ : Token} (hstar : star.span.Stands tokens lo hi)
    (hnil : nil_.span.Stands tokens lo hi) : (matchNoRest star nil_).Stands tokens lo hi :=
  stands_mk (hstar.join hnil) (by simp)

theorem topPattern_stands {items : List Node} (hne : items ≠ [])
    (h : ∀ n ∈ items, n.Stands tokens lo hi) (trailingComma : Bool) :
    (topPattern items trailingComma).Stands tokens lo hi := by
  obtain heq | ⟨only, rfl, heq⟩ := topPattern_eq items trailingComma
  · rw [heq]
    exact cover_stands hne h
  · rw [heq]
    exact h only List.mem_cons_self

/-- A pattern for the parts of an object ends where the pattern of its parts does. -/
theorem constPattern_stands {scope inner : Node} {closing : Token}
    (hscope : scope.Stands tokens lo a) (hinner : inner.Stands tokens a hi)
    (hclosing : closing.span.Stands tokens a hi) (hstop : inner.span.stop ≤ closing.span.stop) :
    (constPattern scope inner closing).Stands tokens lo hi := by
  apply lead_stands hscope hclosing (Nat.le_refl _)
  simpa using (hinner.narrow hinner.span.lo_le hstop).lies

end RubySyntax.Node
