/-
  RubySyntax.Proofs.Tree.Unplaced
  ───────────────────────────────
  **TREES WITHOUT THEIR PLACES.**

  A tree whose places are all forgotten has every node nowhere.  The functions that make nodes
  join the places of their parts, but never look at one: of parts without places they make the
  same node without places.  Each of them has one lemma that says so,

      f t.unplaced n.unplaced = (f t n).unplaced,

  which moves the forgetting outwards.

  Main results:
    • `Node.unplaced` — a tree with all its places forgotten,
    • `string_unplaced`, `methodDef_unplaced`, … — one lemma for each function that makes literals,
      names, definitions and parameters.
-/
import RubySyntax.Node.Build.Definition
import RubySyntax.Proofs.Tree.Everywhere

namespace RubySyntax

/-! ## §1. Forgetting places. -/

/-- A token that stands nowhere. -/
def Token.unplaced (t : Token) : Token := ⟨t.kind, t.value, .nowhere⟩

@[simp] theorem Token.kind_unplaced (t : Token) : t.unplaced.kind = t.kind := rfl

@[simp] theorem Token.value_unplaced (t : Token) : t.unplaced.value = t.value := rfl

@[simp] theorem Token.span_unplaced (t : Token) : t.unplaced.span = .nowhere := rfl

mutual

/-- A tree with all its places forgotten. -/
def Node.unplaced : Node → Node
  | .mk kind children _ => .mk kind (Node.unplacedSlots children) .nowhere

/-- Slots with all places in them forgotten. -/
def Node.unplacedSlots : List Child → List Child
  | [] => []
  | c :: rest => c.unplaced :: Node.unplacedSlots rest

/-- A slot with all places in it forgotten. -/
def Child.unplaced : Child → Child
  | .node n => .node n.unplaced
  | c => c

end

@[simp] theorem Span.join_nowhere : Span.nowhere.join .nowhere = .nowhere := rfl

@[simp] theorem Span.atEnd_nowhere : Span.nowhere.atEnd = .nowhere := rfl

namespace Child

@[simp] theorem unplaced_node (n : Node) : (Child.node n).unplaced = .node n.unplaced := rfl

@[simp] theorem unplaced_symbol (name : String) : (Child.symbol name).unplaced = .symbol name := rfl

@[simp] theorem unplaced_text (value : String) : (Child.text value).unplaced = .text value := rfl

@[simp] theorem unplaced_integer (value : Int) :
    (Child.integer value).unplaced = .integer value := rfl

@[simp] theorem unplaced_float (value : Float) : (Child.float value).unplaced = .float value := rfl

@[simp] theorem unplaced_absent : Child.absent.unplaced = .absent := rfl

@[simp] theorem node?_unplaced (c : Child) : c.unplaced.node? = c.node?.map Node.unplaced := by
  cases c <;> simp [node?]

@[simp] theorem text?_unplaced (c : Child) : c.unplaced.text? = c.text? := by
  cases c <;> simp [text?]

@[simp] theorem isAbsent_unplaced (c : Child) : c.unplaced.isAbsent = c.isAbsent := by
  cases c <;> simp [isAbsent]

@[simp] theorem ofOption_unplaced (n : Option Node) :
    ofOption (n.map Node.unplaced) = (ofOption n).unplaced := by
  cases n <;> simp [ofOption]

end Child

namespace Node

@[simp] theorem unplacedSlots_eq (children : List Child) :
    unplacedSlots children = children.map Child.unplaced := by
  induction children with
  | nil => rw [unplacedSlots, List.map_nil]
  | cons c rest ih => rw [unplacedSlots, ih, List.map_cons]

@[simp] theorem unplaced_mk (kind : Kind) (children : List Child) (span : Span) :
    (Node.mk kind children span).unplaced = .mk kind (children.map Child.unplaced) .nowhere := by
  rw [unplaced, unplacedSlots_eq]

@[simp] theorem kind_unplaced (n : Node) : n.unplaced.kind = n.kind := by
  cases n with
  | mk => rw [unplaced_mk, kind, kind]

@[simp] theorem children_unplaced (n : Node) :
    n.unplaced.children = n.children.map Child.unplaced := by
  cases n with
  | mk => rw [unplaced_mk, children, children]

@[simp] theorem span_unplaced (n : Node) : n.unplaced.span = .nowhere := by
  cases n with
  | mk => rw [unplaced_mk, span]

@[simp] theorem childNodes_unplaced (n : Node) :
    n.unplaced.childNodes = n.childNodes.map Node.unplaced := by
  simp only [childNodes, children_unplaced, List.filterMap_map, List.map_filterMap,
    Function.comp_def, Child.node?_unplaced]

@[simp] theorem child?_unplaced (n : Node) (i : Nat) :
    n.unplaced.child? i = (n.child? i).map Child.unplaced := by
  rw [child?, child?, children_unplaced, List.getElem?_map]

@[simp] theorem lastChild?_unplaced (n : Node) :
    n.unplaced.lastChild? = n.lastChild?.map Child.unplaced := by
  rw [lastChild?, lastChild?, children_unplaced, List.getLast?_map]

/-! ## §2. Joined places. -/

@[simp] theorem joinAll_unplaced (ns : List Node) :
    joinAll .nowhere (ns.map Node.unplaced) = .nowhere := by
  induction ns with
  | nil => rfl
  | cons n ns ih => simpa [joinAll] using ih

@[simp] theorem joinOption_unplaced (n : Option Node) :
    joinOption .nowhere (n.map Node.unplaced) = .nowhere := by
  cases n <;> simp [joinOption]

@[simp] theorem cover_unplaced (ns : List Node) : cover (ns.map Node.unplaced) = .nowhere := by
  cases ns with
  | nil => rfl
  | cons n ns => simpa [cover] using joinAll_unplaced (n :: ns)

@[simp] theorem slots_unplaced (ns : List Node) :
    slots (ns.map Node.unplaced) = (slots ns).map Child.unplaced := by
  simp only [slots, List.map_map, Function.comp_def, Child.unplaced_node]

/-! ## §3. Literals and names. -/

@[simp] theorem bare_unplaced (kind : Kind) (t : Token) :
    bare kind t.unplaced = (bare kind t).unplaced := by
  simp [bare]

@[simp] theorem named_unplaced (kind : Kind) (t : Token) :
    named kind t.unplaced = (named kind t).unplaced := by
  simp [named]

theorem ofStatements?_unplaced (ns : List Node) :
    ofStatements? (ns.map Node.unplaced) = (ofStatements? ns).map Node.unplaced := by
  match ns with
  | [] | [_] => rfl
  | first :: second :: rest =>
      have hcover := cover_unplaced (first :: second :: rest)
      simp only [List.map_cons] at hcover
      simp [ofStatements?, hcover]

theorem integer_unplaced (t : Token) : integer t.unplaced = (integer t).unplaced := by
  cases h : integerValue? t.value.toList <;> simp [integer, h]

theorem float_unplaced (t : Token) : float t.unplaced = (float t).unplaced := by
  cases h : Decimal.read? (String.ofList (t.value.toList.filter (· != '_'))) <;>
    simp [float, h]

theorem rational_unplaced (t : Token) : rational t.unplaced = (rational t).unplaced := by
  simp [rational]

theorem complex_unplaced (t : Token) : complex t.unplaced = (complex t).unplaced := by
  simp [complex]

@[simp] theorem identifier_unplaced (t : Token) :
    identifier t.unplaced = (identifier t).unplaced := by
  simp [identifier]

theorem markedVariable_unplaced (t : Token) :
    markedVariable t.unplaced = (markedVariable t).unplaced := by
  unfold markedVariable
  rw [Token.kind_unplaced]
  split
  case h_5 =>
    -- the number of a group may be too large for a slot, which keeps its text then
    cases h : ((baseValue? 10 t.value.toList).map Int.ofNat).filter (· ≤ maxInteger) <;> simp [h]
  all_goals exact named_unplaced _ t

@[simp] theorem constant_unplaced (scope : Option Node) (name : Token) :
    constant (scope.map Node.unplaced) name.unplaced = (constant scope name).unplaced := by
  simp [constant]

theorem topConstant_unplaced (colons name : Token) :
    topConstant colons.unplaced name.unplaced = (topConstant colons name).unplaced := by
  rw [topConstant, bare_unplaced]
  exact constant_unplaced (some _) name

/-- A part of a string with its places forgotten. -/
def StringPart.unplaced : StringPart → StringPart
  | .plain t => .plain t.unplaced
  | .interpolation opening body closing =>
    .interpolation opening.unplaced (body.map Node.unplaced) closing.unplaced

theorem ofPart_unplaced (p : StringPart) : ofPart p.unplaced = (ofPart p).unplaced := by
  cases p <;> simp [ofPart, StringPart.unplaced]

theorem ofParts_unplaced (parts : List StringPart) :
    (parts.map StringPart.unplaced).map ofPart = (parts.map ofPart).map Node.unplaced := by
  simp only [List.map_map, Function.comp_def, ofPart_unplaced]

/-- Whether parts are all plain, and what they say, is not a matter of places. -/
@[simp] theorem plainText?_unplaced (ns : List Node) :
    plainText? (ns.map Node.unplaced) = plainText? ns := by
  simp only [plainText?, List.all_map, List.filterMap_map, Function.comp_def, kind_unplaced,
    child?_unplaced, Option.bind_map, Child.text?_unplaced]

theorem string_unplaced (opening : Token) (parts : List StringPart) (closing : Token) :
    string opening.unplaced (parts.map StringPart.unplaced) closing.unplaced =
      (string opening parts closing).unplaced := by
  simp only [string, ofParts_unplaced, plainText?_unplaced, slots_unplaced]
  cases plainText? (parts.map ofPart) <;> simp

theorem concatenation_unplaced (ns : List Node) :
    concatenation (ns.map Node.unplaced) = (concatenation ns).unplaced := by
  match ns with
  | [] | [_] => simp [concatenation, cover]
  | first :: second :: rest =>
      have hcover := cover_unplaced (first :: second :: rest)
      simp only [List.map_cons] at hcover
      simp [concatenation, hcover]

theorem character_unplaced (t : Token) : character t.unplaced = (character t).unplaced := by
  simp [character]

theorem commandString_unplaced (opening : Token) (parts : List StringPart) (closing : Token) :
    commandString opening.unplaced (parts.map StringPart.unplaced) closing.unplaced =
      (commandString opening parts closing).unplaced := by
  simp only [commandString, ofParts_unplaced, slots_unplaced]
  simp

@[simp] theorem symbol_unplaced (t : Token) : symbol t.unplaced = (symbol t).unplaced := by
  simp [symbol]

theorem quotedSymbol_unplaced (opening : Token) (parts : List StringPart) (closing : Token) :
    quotedSymbol opening.unplaced (parts.map StringPart.unplaced) closing.unplaced =
      (quotedSymbol opening parts closing).unplaced := by
  simp only [quotedSymbol, ofParts_unplaced, plainText?_unplaced, slots_unplaced]
  cases plainText? (parts.map ofPart) <;> simp

theorem options_unplaced (t : Token) : options t.unplaced = (options t).unplaced := by
  simp [options]

theorem regexp_unplaced (opening : Token) (parts : List StringPart) (closing flags : Token) :
    regexp opening.unplaced (parts.map StringPart.unplaced) closing.unplaced flags.unplaced =
      (regexp opening parts closing flags).unplaced := by
  simp [regexp, slots, Function.comp_def, ofPart_unplaced, options_unplaced]

/-- Nor are the groups of a regular expression. -/
@[simp] theorem namedCaptures_unplaced (n : Node) :
    namedCaptures n.unplaced = namedCaptures n := by
  unfold namedCaptures
  rw [childNodes_unplaced, List.filter_map]
  simp only [Function.comp_def, kind_unplaced, plainText?_unplaced]

/-! ## §4. Definitions and parameters. -/

/-- What a definition is about, with its places forgotten. -/
def MethodHead.unplaced (head : MethodHead) : MethodHead :=
  ⟨head.receiver.map Node.unplaced, head.name.unplaced⟩

theorem methodDef_unplaced (kw : Token) (head : MethodHead) (params : Node) (body : Option Node)
    (stop : Span) :
    methodDef kw.unplaced head.unplaced params.unplaced (body.map Node.unplaced) .nowhere =
      (methodDef kw head params body stop).unplaced := by
  obtain ⟨receiver, name⟩ := head
  cases receiver <;> simp [methodDef, MethodHead.unplaced]

theorem methodReceiver_unplaced (t : Token) :
    methodReceiver t.unplaced = (methodReceiver t).unplaced := by
  unfold methodReceiver
  rw [Token.kind_unplaced]
  split
  · exact bare_unplaced _ t
  · exact constant_unplaced none t
  · exact identifier_unplaced t

theorem classDef_unplaced (kw : Token) (name : Node) (parent body : Option Node)
    (closing : Token) :
    classDef kw.unplaced name.unplaced (parent.map Node.unplaced) (body.map Node.unplaced)
      closing.unplaced = (classDef kw name parent body closing).unplaced := by
  simp [classDef]

theorem singletonClass_unplaced (kw : Token) (object : Node) (body : Option Node)
    (closing : Token) :
    singletonClass kw.unplaced object.unplaced (body.map Node.unplaced) closing.unplaced =
      (singletonClass kw object body closing).unplaced := by
  simp [singletonClass]

theorem moduleDef_unplaced (kw : Token) (name : Node) (body : Option Node) (closing : Token) :
    moduleDef kw.unplaced name.unplaced (body.map Node.unplaced) closing.unplaced =
      (moduleDef kw name body closing).unplaced := by
  simp [moduleDef]

theorem aliasDef_unplaced (kw : Token) (new old : Node) :
    aliasDef kw.unplaced new.unplaced old.unplaced = (aliasDef kw new old).unplaced := by
  simp [aliasDef]

theorem undefNames_unplaced (kw : Token) (names : List Node) :
    undefNames kw.unplaced (names.map Node.unplaced) = (undefNames kw names).unplaced := by
  simp [undefNames]

theorem param_unplaced (kind : Kind) (start : Token) (name : Option Token)
    (value : Option Node) :
    param kind start.unplaced (name.map Token.unplaced) (value.map Node.unplaced) =
      (param kind start name value).unplaced := by
  cases name <;> cases value <;> simp [param, slots, joinOption]

theorem noKeywords_unplaced (star nil_ : Token) :
    noKeywords star.unplaced nil_.unplaced = (noKeywords star nil_).unplaced := by
  simp [noKeywords]

theorem parenParams_unplaced (opening : Token) (params : List Node) (closing : Token) :
    parenParams opening.unplaced (params.map Node.unplaced) closing.unplaced =
      (parenParams opening params closing).unplaced := by
  simp [parenParams]

theorem bareParams_unplaced (params : List Node) :
    bareParams (params.map Node.unplaced) = (bareParams params).unplaced := by
  simp [bareParams]

theorem noParams_unplaced (after : Token) : noParams after.unplaced = (noParams after).unplaced := by
  simp [noParams]

theorem takingApart_unplaced (only : Node) :
    takingApart only.unplaced = (takingApart only).unplaced := by
  by_cases h : only.kind = .mlhs <;> simp [takingApart, h]

theorem blockParams_unplaced (opening : Token) (params : List Node) (trailingComma : Bool)
    (own : List Node) (closing : Token) :
    blockParams opening.unplaced (params.map Node.unplaced) trailingComma (own.map Node.unplaced)
      closing.unplaced = (blockParams opening params trailingComma own closing).unplaced := by
  unfold blockParams
  match params with
  | [] | _ :: _ :: _ => simp
  | [only] =>
      simp only [List.map_cons, List.map_nil, List.isEmpty_map, kind_unplaced]
      split <;> simp [takingApart_unplaced]

end Node

end RubySyntax
