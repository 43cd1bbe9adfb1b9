/-
  RubySyntax.Proofs.Tree.Layout.Literal
  ─────────────────────────────────────
  **LITERALS, NAMES AND DEFINITIONS ARE WELL FORMED.**

  The nodes of literals, of names and of definitions keep the promises of their kinds, if their
  parts do.  What a definition needs of its parameter list is its kind, so the parameter lists
  are followed as such.
-/
import RubySyntax.Node.Build.Assignment
import RubySyntax.Node.Build.Definition
import RubySyntax.Proofs.Tree.Layout

namespace RubySyntax.Node

/-! ## §1. Statements and names. -/

theorem ofStatements?_wellFormed {ns : List Node} (hns : ∀ n ∈ ns, n.WellFormed) :
    ∀ n ∈ ofStatements? ns, n.WellFormed := by
  rintro n hn
  match ns with
  | [] => cases hn
  | [m] =>
      cases hn
      exact hns _ List.mem_cons_self
  | m :: m' :: ms =>
      cases hn
      exact wellFormed_mk (by simp) (by simpa using hns)

theorem bare_wellFormed {kind : Kind} {t : Token} (h : kind.fits [] = true) :
    (bare kind t).WellFormed :=
  wellFormed_mk h slotsAll_nil

theorem named_wellFormed {kind : Kind} {t : Token} (h : kind.layouts = [.exactly [.name]]) :
    (named kind t).WellFormed := by
  refine wellFormed_mk ?_ (by simp)
  rw [Kind.fits, h]
  rfl

theorem identifier_wellFormed (t : Token) : (identifier t).WellFormed := named_wellFormed rfl

theorem symbol_wellFormed (t : Token) : (symbol t).WellFormed := named_wellFormed rfl

theorem markedVariable_wellFormed (t : Token) : (markedVariable t).WellFormed := by
  unfold markedVariable
  split
  · exact named_wellFormed rfl
  · exact named_wellFormed rfl
  · exact named_wellFormed rfl
  · exact named_wellFormed rfl
  · refine wellFormed_mk ?_ ?_
    · cases ((baseValue? 10 t.value.toList).map Int.ofNat).filter (· ≤ maxInteger) <;> rfl
    · cases ((baseValue? 10 t.value.toList).map Int.ofNat).filter (· ≤ maxInteger) <;> simp
  · exact named_wellFormed rfl

theorem constant_wellFormed {scope : Option Node} {name : Token}
    (h : ∀ n ∈ scope, n.WellFormed) : (constant scope name).WellFormed :=
  wellFormed_mk (by simp) (by simpa using h)

theorem topConstant_wellFormed (colons name : Token) : (topConstant colons name).WellFormed := by
  apply constant_wellFormed
  rintro n ⟨⟩
  exact bare_wellFormed rfl

/-! ## §2. Numbers and strings. -/

theorem integer_wellFormed (t : Token) : (integer t).WellFormed := by
  unfold integer
  refine wellFormed_mk ?_ ?_ <;> cases integerValue? t.value.toList <;> simp

theorem float_wellFormed (t : Token) : (float t).WellFormed := by
  unfold float
  refine wellFormed_mk ?_ ?_ <;> cases Decimal.read? _ <;> simp

theorem rational_wellFormed (t : Token) : (rational t).WellFormed :=
  wellFormed_mk (by simp) (by simp)

theorem complex_wellFormed (t : Token) : (complex t).WellFormed :=
  wellFormed_mk (by simp) (by simp)

theorem character_wellFormed (t : Token) : (character t).WellFormed :=
  wellFormed_mk (by simp) (by simp)

/-- The statements of a part of a string are well formed. -/
def StringPart.WellFormed : StringPart → Prop
  | .plain _ => True
  | .interpolation _ body _ => ∀ n ∈ body, n.WellFormed

theorem ofPart_wellFormed {part : StringPart} (h : part.WellFormed) :
    (ofPart part).WellFormed := by
  cases part with
  | plain t => exact wellFormed_mk (by simp) (by simp)
  | interpolation opening body closing =>
      exact wellFormed_mk (by simp) (by simpa [StringPart.WellFormed] using h)

theorem map_ofPart_wellFormed {parts : List StringPart} (h : ∀ p ∈ parts, p.WellFormed) :
    ∀ n ∈ parts.map ofPart, n.WellFormed := by
  intro n hn
  obtain ⟨part, hpart, rfl⟩ := List.mem_map.mp hn
  exact ofPart_wellFormed (h part hpart)

section Strings

variable {opening closing : Token} {parts : List StringPart}

theorem string_wellFormed (h : ∀ p ∈ parts, p.WellFormed) :
    (string opening parts closing).WellFormed := by
  simp only [string]
  split
  · exact wellFormed_mk (by simp) (by simp)
  · exact wellFormed_mk (by simp) (by simpa using map_ofPart_wellFormed h)

theorem quotedSymbol_wellFormed (h : ∀ p ∈ parts, p.WellFormed) :
    (quotedSymbol opening parts closing).WellFormed := by
  simp only [quotedSymbol]
  split
  · exact wellFormed_mk (by simp) (by simp)
  · exact wellFormed_mk (by simp) (by simpa using map_ofPart_wellFormed h)

theorem commandString_wellFormed (h : ∀ p ∈ parts, p.WellFormed) :
    (commandString opening parts closing).WellFormed :=
  wellFormed_mk (by simp) (by simpa using map_ofPart_wellFormed h)

theorem concatenation_wellFormed {ns : List Node} (h : ∀ n ∈ ns, n.WellFormed) :
    (concatenation ns).WellFormed := by
  unfold concatenation
  split
  · exact h _ List.mem_cons_self
  · exact wellFormed_mk (by simp) (by simpa using h)

theorem options_wellFormed (t : Token) : (options t).WellFormed := by
  unfold options
  generalize t.value.toList.mergeSort (· ≤ ·) = cs
  have hfits : Layout.fitsTail (some .name) [] (cs.map fun c => .symbol (String.ofList [c]))
      = true := by
    induction cs with
    | nil => rfl
    | cons c cs ih => simpa using ih
  exact wellFormed_mk (by simpa using hfits) (by intro n hn; simp at hn)

theorem regexp_wellFormed {flags : Token} (h : ∀ p ∈ parts, p.WellFormed) :
    (regexp opening parts closing flags).WellFormed := by
  refine wellFormed_mk ?_ ?_
  · rw [slots_append]
    simpa using Layout.fitsTail_slots_append (fun _ _ => rfl) rfl
  · refine slotsAll_slots.mpr (List.forall_mem_append.mpr ⟨map_ofPart_wellFormed h, ?_⟩)
    exact List.forall_mem_singleton.mpr (options_wellFormed flags)

end Strings

/-! ## §3. Parameters. -/

/-- A parameter: a node of a kind that one parameter can be taken apart into, and so are its own
parts if it takes apart what it is given. -/
structure IsParameter (n : Node) : Prop where
  wellFormed : n.WellFormed
  declares : declarationKinds.contains n.kind = true
  parts : n.kind = .mlhs → Kind.procarg0.fits n.children = true

/-- A parameter list: a well-formed node of that kind. -/
structure IsParameterList (n : Node) : Prop where
  wellFormed : n.WellFormed
  kind_eq : n.kind = .args

theorem IsParameter.of_wellFormed {n : Node} (h : n.WellFormed)
    (hkind : (declarationKinds.erase .mlhs).contains n.kind = true) : n.IsParameter := by
  refine ⟨h, ?_, ?_⟩
  · rw [List.contains_iff_mem] at hkind ⊢
    exact List.mem_of_mem_erase hkind
  · intro hmlhs
    rw [hmlhs] at hkind
    exact absurd hkind (by decide)

theorem param_wellFormed {kind : Kind} {start : Token} {name : Option Token}
    {value : Option Node} (hvalue : ∀ n ∈ value, n.WellFormed)
    (hfits : kind.fits (name.toList.map (fun t => Child.symbol t.value) ++ slots value.toList)
      = true) : (param kind start name value).WellFormed := by
  apply wellFormed_mk hfits
  cases name <;> simpa using hvalue

theorem slots_isParameterList {ns : List Node} {span : Span} (h : ∀ n ∈ ns, n.WellFormed) :
    (Node.mk .args (slots ns) span).IsParameterList :=
  ⟨wellFormed_mk (by simp) (by simpa using h), rfl⟩

/-- Parameters between parentheses are a parameter that takes apart. -/
theorem parenTargets_isParameter {opening closing : Token} {first : Node} {rest : List Node}
    (h : ∀ n ∈ first :: rest, n.IsParameter) :
    (parenTargets opening (first :: rest) closing).IsParameter := by
  refine ⟨wellFormed_mk (by simp) (by simpa using fun n hn => (h n hn).wellFormed), rfl, ?_⟩
  intro _
  have htail : Layout.fitsTail (some (.nodeOf declarationKinds)) [] (slots rest ++ []) = true :=
    Layout.fitsTail_slots_append
      (fun n hn => (h n (List.mem_cons_of_mem _ hn)).declares) rfl
  rw [List.append_nil] at htail
  have hfirst := (h first List.mem_cons_self).declares
  simp only [Kind.fits, Kind.layouts, List.any_cons, List.any_nil, Bool.or_false, Layout.many,
    Layout.fits]
  show (Form.holds _ _ && Layout.fitsTail _ _ (slots rest)) = true
  rw [htail, Form.holds, hfirst]
  rfl

theorem takingApart_wellFormed {only : Node} (h : only.IsParameter) :
    (takingApart only).WellFormed := by
  unfold takingApart
  split
  next hkind =>
    refine wellFormed_mk (h.parts (by simpa using hkind)) fun n hn => ?_
    exact h.wellFormed.child hn
  next =>
    have hkind := h.declares
    exact wellFormed_mk (by simpa using hkind) (by simpa using h.wellFormed)

theorem blockParams_isParameterList {opening closing : Token} {params own : List Node}
    {trailing : Bool} (hparams : ∀ n ∈ params, n.IsParameter) (hown : ∀ n ∈ own, n.WellFormed) :
    (blockParams opening params trailing own closing).IsParameterList := by
  refine slots_isParameterList (List.forall_mem_append.mpr ⟨?_, hown⟩)
  split
  next only =>
    have honly := hparams only List.mem_cons_self
    split
    · exact List.forall_mem_singleton.mpr (takingApart_wellFormed honly)
    · exact List.forall_mem_singleton.mpr honly.wellFormed
  next => exact fun n hn => (hparams n hn).wellFormed

/-! ## §4. Definitions. -/

/-- The object of a definition, if there is one, is well formed. -/
def MethodHead.WellFormed (head : MethodHead) : Prop := ∀ n ∈ head.receiver, n.WellFormed

theorem methodReceiver_wellFormed (t : Token) : (methodReceiver t).WellFormed := by
  unfold methodReceiver
  split
  · exact bare_wellFormed rfl
  · exact constant_wellFormed (by simp)
  · exact identifier_wellFormed t

section Definitions

variable {kw closing : Token} {body : Option Node}

theorem methodDef_wellFormed {head : MethodHead} {params : Node} {stop : Span}
    (hhead : head.WellFormed) (hparams : params.IsParameterList)
    (hbody : ∀ n ∈ body, n.WellFormed) : (methodDef kw head params body stop).WellFormed := by
  unfold methodDef
  split
  next receiver hreceiver =>
    exact wellFormed_mk (by simp [hparams.kind_eq])
      (by simpa using ⟨hhead receiver hreceiver, hparams.wellFormed, hbody⟩)
  next =>
    exact wellFormed_mk (by simp [hparams.kind_eq])
      (by simpa using ⟨hparams.wellFormed, hbody⟩)

theorem classDef_wellFormed {name : Node} {parent : Option Node}
    (hname : name.WellFormed) (hkind : name.kind = .constant)
    (hparent : ∀ n ∈ parent, n.WellFormed) (hbody : ∀ n ∈ body, n.WellFormed) :
    (classDef kw name parent body closing).WellFormed :=
  wellFormed_mk (by simp [hkind]) (by simpa using ⟨hname, hparent, hbody⟩)

theorem singletonClass_wellFormed {object : Node} (hobject : object.WellFormed)
    (hbody : ∀ n ∈ body, n.WellFormed) : (singletonClass kw object body closing).WellFormed :=
  wellFormed_mk (by simp) (by simpa using ⟨hobject, hbody⟩)

theorem moduleDef_wellFormed {name : Node} (hname : name.WellFormed)
    (hkind : name.kind = .constant) (hbody : ∀ n ∈ body, n.WellFormed) :
    (moduleDef kw name body closing).WellFormed :=
  wellFormed_mk (by simp [hkind]) (by simpa using ⟨hname, hbody⟩)

theorem aliasDef_wellFormed {new old : Node} (hnew : new.WellFormed) (hold : old.WellFormed) :
    (aliasDef kw new old).WellFormed :=
  wellFormed_mk (by simp) (by simpa using ⟨hnew, hold⟩)

theorem undefNames_wellFormed {first : Node} {rest : List Node}
    (h : ∀ n ∈ first :: rest, n.WellFormed) : (undefNames kw (first :: rest)).WellFormed := by
  refine wellFormed_mk ?_ (slotsAll_slots.mpr h)
  show Kind.undefNames.fits (.node first :: slots rest) = true
  simp

end Definitions

end RubySyntax.Node
