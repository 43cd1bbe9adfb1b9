/-
  RubySyntax.Proofs.Tree.Place.Literal
  ────────────────────────────────────
  **LITERALS, NAMES AND DEFINITIONS ARE PLACED.**

  A literal reaches from its opening token to its closing one, and a definition from its keyword
  to its end.  A parameter list that is not written lies at the end of the token before it.
-/
import RubySyntax.Node.Build.Definition
import RubySyntax.Proofs.Tree.Place

namespace RubySyntax.Node

variable {tokens : List Token} {lo hi a b : Nat}

/-! ## §1. Statements and names. -/

theorem ofStatements?_stands {ns : List Node} (hns : ∀ n ∈ ns, n.Stands tokens lo hi) :
    ∀ n ∈ ofStatements? ns, n.Stands tokens lo hi := by
  rintro n hn
  match ns with
  | [] => cases hn
  | [m] =>
      cases hn
      exact hns _ List.mem_cons_self
  | m :: m' :: ms =>
      cases hn
      exact cover_stands (List.cons_ne_nil _ _) hns

section Names

variable {t : Token} (ht : t.span.Stands tokens lo hi)
include ht

theorem bare_stands {kind : Kind} : (bare kind t).Stands tokens lo hi := stands_mk ht (by simp)

theorem named_stands {kind : Kind} : (named kind t).Stands tokens lo hi := stands_mk ht (by simp)

theorem markedVariable_stands : (markedVariable t).Stands tokens lo hi := by
  unfold markedVariable
  split
  · exact named_stands ht
  · exact named_stands ht
  · exact named_stands ht
  · exact named_stands ht
  · apply stands_mk ht
    cases ((baseValue? 10 t.value.toList).map Int.ofNat).filter (· ≤ maxInteger) <;> simp
  · exact named_stands ht

theorem constant_stands {scope : Option Node} (hscope : ∀ n ∈ scope, n.Stands tokens lo hi) :
    (constant scope t).Stands tokens lo hi := by
  rw [constant, joinOption_eq_joinAll]
  exact joinAll_stands ht (by simpa using hscope) (by simp +contextual)

theorem topConstant_stands {colons : Token} (hcolons : colons.span.Stands tokens lo hi) :
    (topConstant colons t).Stands tokens lo hi := by
  apply constant_stands ht
  rintro n ⟨⟩
  exact bare_stands hcolons

/-! ## §2. Numbers and strings. -/

theorem integer_stands : (integer t).Stands tokens lo hi := by
  apply stands_mk ht
  cases integerValue? t.value.toList <;> simp

theorem float_stands : (float t).Stands tokens lo hi := by
  apply stands_mk ht
  cases Decimal.read? _ <;> simp

theorem rational_stands : (rational t).Stands tokens lo hi := stands_mk ht (by simp)

theorem complex_stands : (complex t).Stands tokens lo hi := stands_mk ht (by simp)

theorem character_stands : (character t).Stands tokens lo hi := stands_mk ht (by simp)

theorem options_stands : (options t).Stands tokens lo hi := by
  refine stands_mk ht fun n hn => ?_
  simp at hn

end Names

/-- The node of a part of a string stands between two offsets. -/
abbrev StringPart.Stands (tokens : List Token) (lo hi : Nat) (part : StringPart) : Prop :=
  (ofPart part).Stands tokens lo hi

theorem map_ofPart_stands {parts : List StringPart}
    (h : ∀ p ∈ parts, p.Stands tokens lo hi) :
    ∀ n ∈ parts.map ofPart, n.Stands tokens lo hi := by
  intro n hn
  obtain ⟨part, hpart, rfl⟩ := List.mem_map.mp hn
  exact h part hpart

section Strings

variable {opening closing : Token} {parts : List StringPart}
  (hopening : opening.span.Stands tokens lo a) (hparts : ∀ p ∈ parts, p.Stands tokens a b)
  (hab : a ≤ b)
include hopening hparts hab

theorem parts_stand {kind : Kind} (hclosing : closing.span.Stands tokens b hi) :
    (Node.mk kind (slots (parts.map ofPart)) (opening.span.join closing.span)).Stands
      tokens lo hi :=
  bracket_stands hopening hclosing hab
    (slotsAll_slots.mpr fun n hn => (map_ofPart_stands hparts n hn).lies)

theorem string_stands (hclosing : closing.span.Stands tokens b hi) :
    (string opening parts closing).Stands tokens lo hi := by
  simp only [string]
  split
  · exact bracket_stands hopening hclosing hab (by simp)
  · exact parts_stand hopening hparts hab hclosing

theorem quotedSymbol_stands (hclosing : closing.span.Stands tokens b hi) :
    (quotedSymbol opening parts closing).Stands tokens lo hi := by
  simp only [quotedSymbol]
  split
  · exact bracket_stands hopening hclosing hab (by simp)
  · exact parts_stand hopening hparts hab hclosing

theorem commandString_stands (hclosing : closing.span.Stands tokens b hi) :
    (commandString opening parts closing).Stands tokens lo hi :=
  parts_stand hopening hparts hab hclosing

/-- The options of a regular expression stand after its closing mark. -/
theorem regexp_stands {c : Nat} {flags : Token} (hclosing : closing.span.Stands tokens b c)
    (hflags : flags.span.Stands tokens c hi) :
    (regexp opening parts closing flags).Stands tokens lo hi := by
  have hclosing' := hclosing.bounds
  have hflags' := hflags.bounds
  have hopening' := hopening.bounds
  have hspan :=
    ((hopening.mono (by omega)).join (hflags.mono (by omega)) : Span.Stands tokens lo hi _).join
    (hclosing.mono (by omega) : closing.span.Stands tokens lo hi)
  apply stands_mk hspan
  have hfirst := (Span.join_contains_left (opening.span.join flags.span) closing.span).trans
    (Span.join_contains_left opening.span flags.span)
  have hlast := (Span.join_contains_left (opening.span.join flags.span) closing.span).trans
    (Span.join_contains_right opening.span flags.span)
  have hstart := Nat.le_trans hfirst.start_le (Nat.le_trans hopening.le hopening.le_hi)
  have hstop := Nat.le_trans hflags.lo_le (Nat.le_trans hflags.le hlast.stop_le)
  refine slotsAll_slots.mpr (List.forall_mem_append.mpr ⟨fun n hn => ?_, ?_⟩)
  · exact (map_ofPart_stands hparts n hn).lies.mono (by omega)
  · exact List.forall_mem_singleton.mpr ((options_stands hflags).lies_in hlast)

end Strings

theorem concatenation_stands {ns : List Node} (hne : ns ≠ [])
    (h : ∀ n ∈ ns, n.Stands tokens lo hi) : (concatenation ns).Stands tokens lo hi := by
  unfold concatenation
  split
  · exact h _ List.mem_cons_self
  · exact cover_stands hne h

/-! ## §3. Parameters. -/

theorem param_stands {kind : Kind} {start : Token} {name : Option Token} {value : Option Node}
    (hstart : start.span.Stands tokens lo hi) (hname : ∀ t ∈ name, t.span.Stands tokens lo hi)
    (hvalue : ∀ n ∈ value, n.Stands tokens lo hi) :
    (param kind start name value).Stands tokens lo hi := by
  simp only [param, joinOption_eq_joinAll]
  refine joinAll_stands ?_ (by simpa using hvalue) ?_
  · split
    next name => exact hstart.join (hname name rfl)
    next => exact hstart
  · cases name <;> simp +contextual

theorem noKeywords_stands {star nil_ : Token} (hstar : star.span.Stands tokens lo hi)
    (hnil : nil_.span.Stands tokens lo hi) : (noKeywords star nil_).Stands tokens lo hi :=
  stands_mk (hstar.join hnil) (by simp)

theorem takingApart_stands {only : Node} (h : only.Stands tokens lo hi) :
    (takingApart only).Stands tokens lo hi := by
  unfold takingApart
  split
  · exact h.rewrap fun _ hm => hm
  · apply stands_mk h.span
    simpa using h.lies_in (.refl _)

/-- A parameter list that is not written lies where the token before it does. -/
theorem missing_lies {t : Token} (hmem : t ∈ tokens) (ht : t.span.Stands tokens lo hi) :
    (Node.mk .args [] t.span.atEnd).Lies tokens lo hi := by
  refine ⟨Nat.le_trans ht.lo_le ht.le, ht.le_hi, .mk ⟨Nat.le_refl _, .inr ?_, ?_⟩ ?_⟩
  · exact ⟨⟨rfl, rfl, rfl, ht.located.ends⟩, t, hmem, rfl⟩
  · exact fun m hm => absurd hm List.not_mem_nil
  · exact fun m hm => absurd hm List.not_mem_nil

section ParameterLists

variable {opening closing : Token} {params own : List Node}
  (hopening : opening.span.Stands tokens lo a) (hparams : ∀ n ∈ params, n.Stands tokens a b)
  (hab : a ≤ b) (hclosing : closing.span.Stands tokens b hi)
include hopening hparams hab hclosing

/-- Nodes between two tokens. -/
theorem between_stands {kind : Kind} :
    (Node.mk kind (slots params) (opening.span.join closing.span)).Stands tokens lo hi :=
  bracket_stands hopening hclosing hab (slotsAll_slots.mpr fun n hn => (hparams n hn).lies)

theorem blockParams_stands (trailing : Bool) (hown : ∀ n ∈ own, n.Stands tokens a b) :
    (blockParams opening params trailing own closing).Stands tokens lo hi := by
  refine between_stands hopening (List.forall_mem_append.mpr ⟨?_, hown⟩) hab hclosing
  split
  next only =>
    have honly := hparams only List.mem_cons_self
    split
    · exact List.forall_mem_singleton.mpr (takingApart_stands honly)
    · exact List.forall_mem_singleton.mpr honly
  next => exact hparams

end ParameterLists

/-- Two bars without parameters between them are one token. -/
theorem noBlockParams_stands {bars : Token} (h : bars.span.Stands tokens lo hi) :
    (blockParams bars [] false [] bars).Stands tokens lo hi :=
  stands_mk (h.join h) (by simp)

/-! ## §4. Definitions. -/

/-- The name of a definition, and its object if there is one, stand between two offsets. -/
structure MethodHead.Stands (tokens : List Token) (lo hi : Nat) (head : MethodHead) : Prop where
  receiver : ∀ n ∈ head.receiver, n.Stands tokens lo hi
  name_mem : head.name ∈ tokens
  name : head.name.span.Stands tokens lo hi

theorem MethodHead.Stands.mono {head : MethodHead} {lo' hi' : Nat}
    (h : head.Stands tokens lo hi) (hle : lo' ≤ lo ∧ hi ≤ hi') : head.Stands tokens lo' hi' :=
  ⟨fun n hn => (h.receiver n hn).mono ⟨hle.1, hle.2⟩, h.name_mem, h.name.mono ⟨hle.1, hle.2⟩⟩

theorem methodReceiver_stands {t : Token} (ht : t.span.Stands tokens lo hi) :
    (methodReceiver t).Stands tokens lo hi := by
  unfold methodReceiver
  split
  · exact bare_stands ht
  · exact constant_stands ht (by simp)
  · exact named_stands ht

section Definitions

variable {kw closing : Token} {body : Option Node} (hkw : kw.span.Stands tokens lo a)
  (hbody : ∀ n ∈ body, n.Stands tokens a b)
include hkw hbody

/-- The definition of a method ends with its value or with its closing keyword. -/
theorem methodDef_stands {head : MethodHead} {params : Node} {stop : Span}
    (hhead : head.Stands tokens a b) (hparams : params.Lies tokens a b)
    (hstop : stop.Stands tokens a hi) (hb : b ≤ stop.stop) :
    (methodDef kw head params body stop).Stands tokens lo hi := by
  have hbody' : ∀ n ∈ body, n.Lies tokens a b := fun n hn => (hbody n hn).lies
  simp only [methodDef]
  split
  next receiver hreceiver =>
    apply stretch_stands hkw hstop hb
    simpa using ⟨(hhead.receiver receiver hreceiver).lies, hparams, hbody'⟩
  next =>
    apply stretch_stands hkw hstop hb
    simpa using ⟨hparams, hbody'⟩

variable (hab : a ≤ b) (hclosing : closing.span.Stands tokens b hi)
include hab hclosing

theorem classDef_stands {name : Node} {parent : Option Node} (hname : name.Stands tokens a b)
    (hparent : ∀ n ∈ parent, n.Stands tokens a b) :
    (classDef kw name parent body closing).Stands tokens lo hi := by
  apply bracket_stands hkw hclosing hab
  simpa using ⟨hname.lies, fun n hn => (hparent n hn).lies, fun n hn => (hbody n hn).lies⟩

theorem singletonClass_stands {object : Node} (hobject : object.Stands tokens a b) :
    (singletonClass kw object body closing).Stands tokens lo hi := by
  apply bracket_stands hkw hclosing hab
  simpa using ⟨hobject.lies, fun n hn => (hbody n hn).lies⟩

theorem moduleDef_stands {name : Node} (hname : name.Stands tokens a b) :
    (moduleDef kw name body closing).Stands tokens lo hi := by
  apply bracket_stands hkw hclosing hab
  simpa using ⟨hname.lies, fun n hn => (hbody n hn).lies⟩

end Definitions

theorem aliasDef_stands {kw : Token} {new old : Node} (hkw : kw.span.Stands tokens lo a)
    (hnew : new.Stands tokens a b) (hold : old.Stands tokens b hi) :
    (aliasDef kw new old).Stands tokens lo hi := by
  have hnew' := hnew.bounds
  have hspan := hold.span
  apply stretch_stands hkw (hspan.mono (by omega)) (Nat.le_refl _)
  have hstop := Nat.le_trans hspan.lo_le hspan.le
  have hold' : old.Lies tokens a old.span.stop :=
    ⟨Nat.le_trans hnew' hspan.lo_le, Nat.le_refl _, hold.placed⟩
  simpa using ⟨hnew.lies.mono (by omega), hold'⟩

theorem undefNames_stands {kw : Token} {names : List Node} (hkw : kw.span.Stands tokens lo hi)
    (h : ∀ n ∈ names, n.Stands tokens lo hi) : (undefNames kw names).Stands tokens lo hi :=
  joinAll_stands hkw h (slotsAll_slots.mpr fun _ hn => .inl hn)

end RubySyntax.Node
