/-
  RubySyntax.Node
  ───────────────
  **SYNTAX TREES.**

  A node has a kind, child slots and a span.  Slots are positional: a part of the syntax that is
  missing leaves an explicit empty slot, so that each slot of a kind keeps its meaning.  A slot
  holds a node, a name, a text, a number, or nothing.
-/
import RubySyntax.Span
import RubySyntax.Node.Kind

namespace RubySyntax

mutual

/-- An element of a syntax tree. -/
inductive Node where
  | mk (kind : Node.Kind) (children : List Child) (span : Span)

/-- What a slot of a node holds. -/
inductive Child where
  /-- A node. -/
  | node (n : Node)
  /-- A name: of a variable, a method, a symbol. -/
  | symbol (name : String)
  /-- A text; also a number that has no other form. -/
  | text (value : String)
  /-- A whole number. -/
  | integer (value : Int)
  /-- A floating-point number. -/
  | float (value : Float)
  /-- Nothing. -/
  | absent

end

namespace Child

/-- The node in a slot. -/
def node? : Child → Option Node
  | .node n => some n
  | _ => none

/-- The name in a slot. -/
def symbol? : Child → Option String
  | .symbol name => some name
  | _ => none

/-- The text in a slot. -/
def text? : Child → Option String
  | .text value => some value
  | _ => none

/-- Whether a slot is empty. -/
def isAbsent : Child → Bool
  | .absent => true
  | _ => false

/-- A slot for a part that may be missing. -/
def ofOption : Option Node → Child
  | some n => .node n
  | none => .absent

end Child

namespace Node

instance : Inhabited Node := ⟨.mk .nilLit [] .nowhere⟩

/-! ## §1. Parts. -/

/-- The kind. -/
def kind : Node → Kind
  | .mk kind _ _ => kind

/-- The slots. -/
def children : Node → List Child
  | .mk _ children _ => children

/-- The place in the source. -/
def span : Node → Span
  | .mk _ _ span => span

/-- The slot at an index. -/
def child? (n : Node) (i : Nat) : Option Child := n.children[i]?

/-- The node in the slot at an index. -/
def childNode? (n : Node) (i : Nat) : Option Node := (n.child? i).bind Child.node?

/-- The name in the slot at an index. -/
def symbol? (n : Node) (i : Nat) : Option String := (n.child? i).bind Child.symbol?

/-- The slots that hold nodes, in order. -/
def childNodes (n : Node) : List Node := n.children.filterMap Child.node?

/-- The last slot. -/
def lastChild? (n : Node) : Option Child := n.children.getLast?

/-- The line on which the node begins. -/
def firstLine (n : Node) : Nat := n.span.line

/-- The text of the node. -/
def source (n : Node) (text : String) : String := n.span.source text

/-! ## §2. Size and order. -/

mutual

/-- The number of nodes of a tree. -/
def size : Node → Nat
  | .mk _ children _ => 1 + childrenSize children

/-- The number of nodes below some slots. -/
def childrenSize : List Child → Nat
  | [] => 0
  | c :: rest => childSize c + childrenSize rest

/-- The number of nodes in a slot. -/
def childSize : Child → Nat
  | .node n => n.size
  | _ => 0

end

/-- A slot of a tree, and how deep it lies. -/
structure Row where
  depth : Nat
  slot : Child

mutual

/-- The slots of a tree, each before those of the node in it. -/
def rows (depth : Nat) : Node → List Row
  | .mk kind children span =>
    ⟨depth, .node (.mk kind children span)⟩ :: childrenRows (depth + 1) children

/-- The slots below some slots. -/
def childrenRows (depth : Nat) : List Child → List Row
  | [] => []
  | c :: rest => childRows depth c ++ childrenRows depth rest

/-- The slots in a slot. -/
def childRows (depth : Nat) : Child → List Row
  | .node n => n.rows depth
  | c => [⟨depth, c⟩]

end

/-- The nodes of a tree, each before the nodes below it. -/
def preorder (n : Node) : List Node := (n.rows 0).filterMap fun row => row.slot.node?

end Node

end RubySyntax
