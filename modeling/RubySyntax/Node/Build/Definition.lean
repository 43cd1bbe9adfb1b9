/-
  RubySyntax.Node.Build.Definition
  ────────────────────────────────
  **DEFINITIONS AND PARAMETERS.**

  Methods, classes, modules, and the lists of their parameters.  A parameter list that is not
  written is an empty one without width.  The only plain parameter of a block takes apart what
  the block is given, and is marked for it.
-/
import RubySyntax.Node.Build.Literal

namespace RubySyntax.Node

/-! ## §1. Definitions. -/

/-- What a definition is about: a method by its name, perhaps of one object. -/
structure MethodHead where
  receiver : Option Node
  name : Token

/-- The definition of a method. -/
def methodDef (kw : Token) (head : MethodHead) (params : Node) (body : Option Node) (stop : Span) :
    Node :=
  let rest : List Child := [.symbol head.name.value, .node params, .ofOption body]
  match head.receiver with
  | some receiver => .mk .defs (.node receiver :: rest) (kw.span.join stop)
  | none => .mk .methodDef rest (kw.span.join stop)

/-- The object whose method is defined. -/
def methodReceiver (t : Token) : Node :=
  match t.kind with
  | .kSELF => bare .selfRef t
  | .tCONSTANT => constant none t
  | _ => identifier t

/-- The definition of a class. -/
def classDef (kw : Token) (name : Node) (parent body : Option Node) (closing : Token) : Node :=
  .mk .classDef [.node name, .ofOption parent, .ofOption body] (kw.span.join closing.span)

/-- The definition of the class of one object. -/
def singletonClass (kw : Token) (object : Node) (body : Option Node) (closing : Token) : Node :=
  .mk .sclass [.node object, .ofOption body] (kw.span.join closing.span)

/-- The definition of a module. -/
def moduleDef (kw : Token) (name : Node) (body : Option Node) (closing : Token) : Node :=
  .mk .moduleDef [.node name, .ofOption body] (kw.span.join closing.span)

/-- A second name for a method or a variable. -/
def aliasDef (kw : Token) (new old : Node) : Node :=
  .mk .aliasDef [.node new, .node old] (kw.span.join old.span)

/-- Methods that are removed. -/
def undefNames (kw : Token) (names : List Node) : Node :=
  .mk .undefNames (slots names) (joinAll kw.span names)

/-! ## §2. Parameters. -/

/-- A parameter that begins at a token, with a name and a default if it has them. -/
def param (kind : Kind) (start : Token) (name : Option Token) (value : Option Node) : Node :=
  let nameSlot := name.toList.map fun t => Child.symbol t.value
  let span := match name with
    | some name => start.span.join name.span
    | none => start.span
  .mk kind (nameSlot ++ slots value.toList) (joinOption span value)

/-- The mark that a method takes no keyword arguments. -/
def noKeywords (star nil_ : Token) : Node := .mk .kwnilarg [] (star.span.join nil_.span)

/-- A parameter list between parentheses. -/
def parenParams (opening : Token) (params : List Node) (closing : Token) : Node :=
  .mk .args (slots params) (opening.span.join closing.span)

/-- A parameter list without parentheses. -/
def bareParams (params : List Node) : Node := .mk .args (slots params) (cover params)

/-- A parameter list that is not written, after a name. -/
def noParams (after : Token) : Node := .mk .args [] after.span.atEnd

/-- A parameter that takes apart what it is given. -/
def takingApart (only : Node) : Node :=
  .mk .procarg0 (if only.kind == .mlhs then only.children else [.node only]) only.span

/-- The parameters of a block between bars, and the names that are its own. -/
def blockParams (opening : Token) (params : List Node) (trailingComma : Bool) (own : List Node)
    (closing : Token) : Node :=
  let params := match params with
    | [only] =>
      if own.isEmpty && !trailingComma && (only.kind == .arg || only.kind == .mlhs) then
        [takingApart only]
      else [only]
    | params => params
  .mk .args (slots (params ++ own)) (opening.span.join closing.span)

end RubySyntax.Node
