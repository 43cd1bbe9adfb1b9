/-
  RubySyntax.Node.Warning
  ───────────────────────
  **WARNINGS ABOUT A TREE.**

  Two things are valid but probably not meant: a condition that assigns a literal, where a
  comparison was meant, and a hash in which a literal key stands twice.  Both are found at every
  node that a traversal reaches, a node before what is below it.
-/
import RubySyntax.Node.Walk
import RubySyntax.Node.Sexp
import RubySyntax.Diagnostic

namespace RubySyntax.Node

/-- What is wrong. -/
inductive Doubt where
  /-- A condition assigns a literal. -/
  | literalCondition
  /-- A key of a hash stands twice. -/
  | duplicateKey
deriving DecidableEq, Repr

/-- The report. -/
def Doubt.message : Doubt → String
  | .literalCondition => "found `= literal' in conditional, should be =="
  | .duplicateKey => "duplicated key in hash literal"

/-- The warning at a place. -/
def Doubt.at (d : Doubt) (span : Span) : Diagnostic := ⟨.warning, d.message, span⟩

/-! ## §1. Conditions. -/

/-- Whether a node is a literal without parts to evaluate. -/
def isLiteral (n : Node) : Bool :=
  match n.kind with
  | .int | .float | .rational | .complex | .str | .sym | .nilLit | .trueLit | .falseLit => true
  | _ => false

/-- Whether a node assigns a variable or a constant. -/
def isAssignment (n : Node) : Bool :=
  match n.kind with
  | .lvasgn | .ivasgn | .cvasgn | .gvasgn | .casgn => true
  | _ => false

/-- A node out of the sequences that hold nothing else. -/
def unwrap : Node → Node
  | .mk .sequence [.node inner] _ => unwrap inner
  | n => n

/-- The warning about a condition. -/
def conditionWarnings (n : Node) : List Diagnostic :=
  match (n.childNode? 0).map unwrap with
  | some cond =>
    if cond.isAssignment && (cond.lastChild?.bind Child.node?).any isLiteral then
      [Doubt.literalCondition.at cond.span]
    else []
  | none => []

/-! ## §2. Keys. -/

/-- The literal key of a pair. -/
def literalKey? (pair : Node) : Option Node :=
  if pair.kind == .pair then (pair.childNode? 0).filter isLiteral else none

/-- The literal keys of a hash. -/
def literalKeys (n : Node) : List Node := n.childNodes.filterMap literalKey?

/-- The keys whose text is among those seen before. -/
def repeatedKeys (seen : List String) : List Node → List Node
  | [] => []
  | k :: rest =>
    let text := k.sexp
    if seen.contains text then k :: repeatedKeys seen rest else repeatedKeys (text :: seen) rest

/-- The warnings about the keys of a hash. -/
def keyWarnings (n : Node) : List Diagnostic :=
  (repeatedKeys [] n.literalKeys).map fun k => Doubt.duplicateKey.at k.span

/-! ## §3. Trees. -/

/-- The warnings about a node that is visited by a method. -/
def warningsAt (method : Kind) (n : Node) : List Diagnostic :=
  match method with
  | .ifElse | .whileLoop | .untilLoop | .whilePost | .untilPost => n.conditionWarnings
  | .hash | .kwargs => n.keyWarnings
  | _ => []

/-- The visitor that collects warnings, latest first. -/
def doubter : Visitor (List Diagnostic) where
  visit method n found := (warningsAt method n).reverse ++ found
  descends _ _ := true

/-- The warnings about a tree, in the order of the traversal. -/
def warnings (n : Node) : List Diagnostic := (walk doubter n []).reverse

end RubySyntax.Node
