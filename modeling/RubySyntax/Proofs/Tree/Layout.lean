/-
  RubySyntax.Proofs.Tree.Layout
  ─────────────────────────────
  **WHAT THE SLOTS OF A KIND HOLD.**

  Each kind of node promises what its slots hold.  The promise is a table, `Kind.layouts`: for
  each kind the layouts that its slots may have, and none for a kind that no program has.  A
  layout lists the forms of the first slots, the form of any number of slots after them, and the
  forms of the last slots.

  Main results:
    • `Node.WellFormed` — every node of a tree keeps the promise of its kind,
    • `wellFormed_mk` — a node is well formed if it keeps its promise and its slots are.
-/
import Mathlib.Data.List.Forall2
import RubySyntax.Proofs.Tree.Everywhere

namespace RubySyntax.Node

/-! ## §1. Forms of slots. -/

/-- What a slot may hold. -/
inductive Form where
  /-- A node. -/
  | node
  /-- A node of one of some kinds. -/
  | nodeOf (kinds : List Kind)
  /-- A node, or nothing. -/
  | part
  /-- A name. -/
  | name
  /-- A text. -/
  | text
  /-- A number, or its text. -/
  | number
  /-- How many numbered parameters a block has: one to nine. -/
  | count
  /-- A call that can take a block. -/
  | callee
deriving DecidableEq, Repr

/-- The kinds of the calls that can take a block. -/
def calleeKinds : List Kind := [.send, .csend, .superCall, .zsuper, .lambdaArrow]

/-- Whether the last slot of a node holds a block that is passed on. -/
def passesBlock (n : Node) : Bool :=
  (n.lastChild?.bind Child.node?).any fun last => last.kind == .blockPass

/-- Whether a slot is of a form. -/
def Form.holds : Form → Child → Bool
  | .node, .node _ => true
  | .nodeOf kinds, .node n => kinds.contains n.kind
  | .part, .node _ | .part, .absent => true
  | .name, .symbol _ => true
  | .text, .text _ => true
  | .number, .integer _ | .number, .float _ | .number, .text _ => true
  | .count, .integer value => 1 ≤ value && value ≤ 9
  | .callee, .node n => calleeKinds.contains n.kind && !n.passesBlock
  | _, _ => false

/-! ## §2. Layouts. -/

/-- The forms of the slots of a node. -/
structure Layout where
  /-- The forms of the first slots. -/
  front : List Form
  /-- The form of the slots in between, of which there may be any number. -/
  more : Option Form
  /-- The forms of the last slots. -/
  last : List Form
deriving DecidableEq, Repr

namespace Layout

/-- Slots of some forms, one after the other. -/
def exactly (forms : List Form) : Layout := ⟨forms, none, []⟩

/-- Slots of some forms, then any number of slots of a form, then slots of some forms. -/
def many (front : List Form) (each : Form) (last : List Form) : Layout := ⟨front, some each, last⟩

/-- Whether some slots are of some forms, one after the other. -/
def fitsExactly : List Form → List Child → Bool
  | [], [] => true
  | form :: forms, c :: rest => form.holds c && fitsExactly forms rest
  | _, _ => false

/-- Whether some slots are of the form in between and then of the last forms. -/
def fitsTail (more : Option Form) (last : List Form) : List Child → Bool
  | [] => fitsExactly last []
  | c :: rest =>
    fitsExactly last (c :: rest) || (more.any (·.holds c) && fitsTail more last rest)

/-- Whether some slots are of the first forms, and those after them as a tail has to be. -/
def fitsFront (more : Option Form) (last : List Form) : List Form → List Child → Bool
  | [], children => fitsTail more last children
  | form :: front, c :: rest => form.holds c && fitsFront more last front rest
  | _ :: _, [] => false

/-- The forms of a layout. -/
def forms (l : Layout) : List Form := l.front ++ l.more.toList ++ l.last

/-- Whether some slots have a layout. -/
def fits (l : Layout) (children : List Child) : Bool := fitsFront l.more l.last l.front children

end Layout

/-! ## §3. The table. -/

/-- The kinds of parameters that one parameter can be taken apart into. -/
def declarationKinds : List Kind :=
  [.arg, .optarg, .restarg, .kwarg, .kwoptarg, .kwrestarg, .kwnilarg, .blockarg, .forwardArg, .mlhs]

open Layout in
/-- The layouts that the slots of a kind may have. -/
def Kind.layouts : Kind → List Layout
  -- literals
  | .trueLit | .falseLit | .nilLit => [exactly []]
  | .int | .float => [exactly [.number]]
  | .complex | .rational | .str => [exactly [.text]]
  | .dstr | .xstr | .dsym => [many [] .node []]
  | .sym => [exactly [.name]]
  | .regexp => [many [] .node [.nodeOf [.regopt]]]
  | .regopt => [many [] .name []]
  | .array => [many [] .node []]
  | .splat => [exactly [], exactly [.node]]
  | .hash => [many [] .node []]
  | .pair => [exactly [.node, .node]]
  | .kwsplat => [exactly [.node]]
  | .irange | .erange => [exactly [.part, .part]]
  -- variables and references
  | .selfRef | .cbase => [exactly []]
  | .lvar | .ivar | .cvar | .gvar | .backRef => [exactly [.name]]
  | .constant => [exactly [.part, .name]]
  | .nthRef => [exactly [.number]]
  | .defined => [exactly [.node]]
  -- assignment
  | .lvasgn | .ivasgn | .cvasgn | .gvasgn => [exactly [.name], exactly [.name, .node]]
  | .casgn => [exactly [.part, .name], exactly [.part, .name, .node]]
  | .mlhs => [many [] .node []]
  | .masgn => [exactly [.nodeOf [.mlhs], .node]]
  | .opAsgn => [exactly [.node, .name, .node]]
  | .orAsgn | .andAsgn => [exactly [.node, .node]]
  | .rasgn | .mrasgn => []
  -- definitions
  | .moduleDef => [exactly [.nodeOf [.constant], .part]]
  | .classDef => [exactly [.nodeOf [.constant], .part, .part]]
  | .sclass => [exactly [.node, .part]]
  | .methodDef => [exactly [.name, .nodeOf [.args], .part]]
  | .defs => [exactly [.node, .name, .nodeOf [.args], .part]]
  | .undefNames => [many [.node] .node []]
  | .aliasDef => [exactly [.node, .node]]
  -- parameters
  | .args => [many [] .node []]
  | .arg | .shadowarg | .kwarg => [exactly [.name]]
  | .optarg | .kwoptarg => [exactly [.name, .node]]
  | .restarg | .blockarg | .kwrestarg => [exactly [], exactly [.name]]
  | .kwnilarg | .forwardArg | .forwardedArgs | .forwardedRestarg | .forwardedKwrestarg =>
    [exactly []]
  | .procarg0 => [many [.nodeOf declarationKinds] (.nodeOf declarationKinds) []]
  | .argExpr | .forwardArgs => []
  | .blockPass => [exactly [.part]]
  -- calls
  | .send | .csend => [many [.part, .name] .node []]
  | .superCall | .yieldCall => [many [] .node []]
  | .zsuper | .lambdaArrow => [exactly []]
  | .block => [exactly [.callee, .nodeOf [.args], .part]]
  | .numblock => [exactly [.callee, .count, .node]]
  | .index | .indexasgn => [many [.node] .node []]
  | .kwargs => [many [.node] .node []]
  -- logic and control flow
  | .andOp | .orOp => [exactly [.node, .node]]
  | .notOp => []
  | .ifElse => [exactly [.node, .part, .part]]
  | .whenClause => [many [.node] .node [.part]]
  | .caseWhen => [many [.part, .nodeOf [.whenClause]] (.nodeOf [.whenClause]) [.part]]
  | .whileLoop | .untilLoop | .whilePost | .untilPost => [exactly [.node, .part]]
  | .forLoop => [exactly [.node, .node, .part]]
  | .breakJump | .nextJump | .returnJump => [many [] .node []]
  | .redoJump | .retryJump => [exactly []]
  | .sequence | .kwbegin => [many [] .node []]
  | .rescue => [many [.part, .nodeOf [.resbody]] (.nodeOf [.resbody]) [.part]]
  | .resbody => [exactly [.part, .part, .part]]
  | .ensure => [exactly [.part, .part]]
  | .preexe | .postexe => [exactly [.part]]
  | .iflipflop | .eflipflop => [exactly [.part, .part]]
  | .matchCurrentLine => [exactly [.nodeOf [.regexp]]]
  | .matchWithLvasgn => [exactly [.nodeOf [.regexp], .node]]
  -- pattern matching
  | .caseMatch => [many [.node, .nodeOf [.inPattern]] (.nodeOf [.inPattern]) [.part]]
  | .inMatch | .matchPattern | .matchPatternP => [exactly [.node, .node]]
  | .inPattern => [exactly [.node, .part, .part]]
  | .matchVar => [exactly [.name]]
  | .pin => [exactly [.node]]
  | .matchAlt | .constPattern => [exactly [.node, .node]]
  | .matchAs => [exactly [.node, .nodeOf [.matchVar]]]
  | .matchRest => [exactly [], exactly [.nodeOf [.matchVar]]]
  | .arrayPattern | .arrayPatternWithTail | .hashPattern | .findPattern => [many [] .node []]
  | .ifGuard | .unlessGuard => [exactly [.node]]
  | .matchNilPattern | .emptyElse => [exactly []]
  | .matchWithTrailingComma => []
  -- keyword pseudo-variables
  | .fileKeyword | .lineKeyword | .encodingKeyword => [exactly []]

/-- Whether some slots keep the promise of a kind. -/
def Kind.fits (k : Kind) (children : List Child) : Bool := k.layouts.any (·.fits children)

/-! ## §4. Well-formed trees. -/

/-- The slots of a node are what its kind promises. -/
def Fits (n : Node) : Prop := n.kind.fits n.children = true

/-- The slots of every node of a tree are what its kind promises. -/
abbrev WellFormed (n : Node) : Prop := Everywhere Fits n

/-- The nodes in some slots are well formed. -/
abbrev SlotsWellFormed (children : List Child) : Prop := SlotsAll (Everywhere Fits) children

/-! ## §5. Slots that fit. -/

attribute [simp] Layout.exactly Layout.many Layout.fits Layout.fitsExactly Layout.fitsFront
  Layout.fitsTail Kind.layouts Kind.fits

section Holds

variable (n : Node) (t : String)

@[simp]
theorem node_holds : Form.node.holds (.node n) = true := rfl

@[simp]
theorem nodeOf_holds (kinds : List Kind) :
    (Form.nodeOf kinds).holds (.node n) = kinds.contains n.kind := rfl

@[simp]
theorem part_holds : Form.part.holds (.node n) = true := rfl

@[simp]
theorem part_holds_absent : Form.part.holds .absent = true := rfl

@[simp]
theorem part_holds_ofOption (o : Option Node) : Form.part.holds (.ofOption o) = true := by
  cases o <;> rfl

@[simp]
theorem name_holds : Form.name.holds (.symbol t) = true := rfl

@[simp]
theorem text_holds : Form.text.holds (.text t) = true := rfl

@[simp]
theorem number_holds : Form.number.holds (.text t) = true := rfl

@[simp]
theorem number_holds_integer (value : Int) : Form.number.holds (.integer value) = true := rfl

@[simp]
theorem number_holds_float (value : Float) : Form.number.holds (.float value) = true := rfl

@[simp]
theorem callee_holds : Form.callee.holds (.node n) =
    (calleeKinds.contains n.kind && !n.passesBlock) := rfl

end Holds

theorem Kind.fits_of_layout {k : Kind} {children : List Child} (l : Layout)
    (hl : l ∈ k.layouts) (h : l.fits children = true) : k.fits children = true :=
  List.any_eq_true.mpr ⟨l, hl, h⟩

theorem wellFormed_mk {kind : Kind} {children : List Child} {span : Span}
    (hfits : kind.fits children = true) (hslots : SlotsWellFormed children) :
    WellFormed (.mk kind children span) :=
  .mk hfits hslots

namespace Layout

theorem fitsTail_slots_append {form : Form} {last : List Form} {ns : List Node}
    {children : List Child} (hns : ∀ n ∈ ns, form.holds (.node n) = true)
    (h : fitsTail (some form) last children = true) :
    fitsTail (some form) last (slots ns ++ children) = true := by
  induction ns with
  | nil => exact h
  | cons n ns ih =>
      obtain ⟨hn, hns⟩ := List.forall_mem_cons.mp hns
      show fitsTail (some form) last (.node n :: (slots ns ++ children)) = true
      rw [fitsTail, ih hns, Option.any_some, hn]
      simp

/-- Any nodes fit where any number of nodes may stand. -/
@[simp]
theorem fitsTail_slots (ns : List Node) : fitsTail (some .node) [] (slots ns) = true := by
  have h : fitsTail (some .node) [] (slots ns ++ []) = true :=
    fitsTail_slots_append (fun _ _ => rfl) rfl
  rwa [List.append_nil] at h

theorem fitsTail_append_slots {children : List Child} (ns : List Node)
    (h : fitsTail (some .node) [] children = true) :
    fitsTail (some .node) [] (children ++ slots ns) = true := by
  induction children with
  | nil => exact fitsTail_slots ns
  | cons c rest ih =>
      simp only [fitsTail, fitsExactly, Bool.false_or, Bool.and_eq_true] at h
      rw [List.cons_append, fitsTail, h.1, ih h.2]
      simp

/-- Slots of the first forms, and slots that fit after them. -/
theorem fitsFront_append {more : Option Form} {last : List Form} {rest : List Child} :
    ∀ {front : List Form} {children : List Child},
      fitsFront none [] front children = true → fitsTail more last rest = true →
        fitsFront more last front (children ++ rest) = true
  | [], [], _, hrest => hrest
  | [], _ :: _, h, _ => by simp [fitsFront, fitsTail, fitsExactly] at h
  | form :: front, c :: children, h, hrest => by
      simp only [fitsFront, Bool.and_eq_true] at h
      rw [List.cons_append, fitsFront, h.1, fitsFront_append h.2 hrest]
      rfl
  | _ :: _, [], h, _ => by simp [fitsFront] at h

/-- Further nodes fit where any number of nodes may stand. -/
theorem fitsFront_append_slots (ns : List Node) :
    ∀ {front : List Form} {children : List Child},
      fitsFront (some .node) [] front children = true →
        fitsFront (some .node) [] front (children ++ slots ns) = true
  | [], _, h => fitsTail_append_slots ns h
  | form :: front, c :: children, h => by
      simp only [fitsFront, Bool.and_eq_true] at h
      rw [List.cons_append, fitsFront, h.1, fitsFront_append_slots ns h.2]
      rfl
  | _ :: _, [], h => by simp [fitsFront] at h

/-- One more slot of one more form. -/
theorem fitsFront_snoc {form : Form} {c : Child} (hc : form.holds c = true) :
    ∀ {front : List Form} {children : List Child},
      fitsFront none [] front children = true →
        fitsFront none [] (front ++ [form]) (children ++ [c]) = true
  | [], [], _ => by
      show (form.holds c && _) = true
      rw [hc]
      rfl
  | [], _ :: _, h => by simp [fitsFront, fitsTail, fitsExactly] at h
  | f :: front, d :: children, h => by
      simp only [fitsFront, Bool.and_eq_true] at h
      rw [List.cons_append, List.cons_append, fitsFront, h.1, fitsFront_snoc hc h.2]
      rfl
  | _ :: _, [], h => by simp [fitsFront] at h

/-! ## §6. Slots that are changed. -/

section Mono

variable {P : Form → Prop} {before after : List Child}

/-- Each slot is still of the forms that it was of, as far as they matter. -/
abbrev Keeps (P : Form → Prop) : List Child → List Child → Prop :=
  List.Forall₂ fun c d => ∀ form, P form → form.holds c = true → form.holds d = true

theorem fitsExactly_mono :
    ∀ {forms : List Form} {before after : List Child}, Keeps P before after →
      (∀ form ∈ forms, P form) → fitsExactly forms before = true → fitsExactly forms after = true
  | [], _, _, .nil, _, h => h
  | form :: forms, _, _, .cons hc hrest, hforms, h => by
      obtain ⟨hform, hforms⟩ := List.forall_mem_cons.mp hforms
      simp only [fitsExactly, Bool.and_eq_true] at h ⊢
      exact ⟨hc form hform h.1, fitsExactly_mono hrest hforms h.2⟩
  | [], _, _, .cons _ _, _, h => nomatch h
  | _ :: _, _, _, .nil, _, h => nomatch h

theorem fitsTail_mono {more : Option Form} {last : List Form} (hmore : ∀ form ∈ more, P form)
    (hlast : ∀ form ∈ last, P form) :
    ∀ {before after : List Child}, Keeps P before after →
      fitsTail more last before = true → fitsTail more last after = true
  | _, _, .nil, h => h
  | _, _, .cons hc hrest, h => by
      simp only [fitsTail, Bool.or_eq_true, Bool.and_eq_true, Option.any_eq_true] at h ⊢
      rcases h with h | ⟨⟨form, hform, hholds⟩, h⟩
      · exact .inl (fitsExactly_mono (.cons hc hrest) hlast h)
      · exact .inr ⟨⟨form, hform, hc form (hmore form hform) hholds⟩,
          fitsTail_mono hmore hlast hrest h⟩

theorem fitsFront_mono {more : Option Form} {last : List Form} (hmore : ∀ form ∈ more, P form)
    (hlast : ∀ form ∈ last, P form) :
    ∀ {front : List Form} {before after : List Child}, (∀ form ∈ front, P form) →
      Keeps P before after → fitsFront more last front before = true →
        fitsFront more last front after = true
  | [], _, _, _, hkeeps, h => fitsTail_mono hmore hlast hkeeps h
  | form :: front, _, _, hfront, .cons hc hrest, h => by
      obtain ⟨hform, hfront⟩ := List.forall_mem_cons.mp hfront
      simp only [fitsFront, Bool.and_eq_true] at h ⊢
      exact ⟨hc form hform h.1, fitsFront_mono hmore hlast hfront hrest h.2⟩
  | _ :: _, _, _, _, .nil, h => nomatch h

/-- Slots that are changed still have a layout, if they are still of its forms. -/
theorem fits_mono {l : Layout} (hl : ∀ form ∈ l.forms, P form) (hkeeps : Keeps P before after)
    (h : l.fits before = true) : l.fits after = true := by
  simp only [forms, List.forall_mem_append, Option.mem_toList] at hl
  exact fitsFront_mono hl.1.2 hl.2 hl.1.1 hkeeps h

end Mono

end Layout

end RubySyntax.Node
