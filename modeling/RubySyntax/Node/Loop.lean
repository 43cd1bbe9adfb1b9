/-
  RubySyntax.Node.Loop
  ────────────────────
  **LOOPS.**

  Five kinds of nodes are loops: `while` and `until` with their condition before or after the
  body, and `for`.  `hasDo` looks at the source between the header and the body of a loop, where
  the word `do` may stand.
-/
import RubySyntax.Node
import RubySyntax.Text.Letters

namespace RubySyntax.Node

/-- The keywords of loops. -/
inductive LoopKeyword where
  | whileTrue | untilTrue | forEach
deriving DecidableEq, Repr

namespace LoopKeyword

/-- The spelling of a keyword. -/
def spelling : LoopKeyword → String
  | .whileTrue => "while"
  | .untilTrue => "until"
  | .forEach => "for"

/-- The keyword for the opposite condition. -/
def inverse? : LoopKeyword → Option LoopKeyword
  | .whileTrue => some .untilTrue
  | .untilTrue => some .whileTrue
  | .forEach => none

end LoopKeyword

/-- The keyword of a loop. -/
def loopKeyword? (n : Node) : Option LoopKeyword :=
  match n.kind with
  | .whileLoop | .whilePost => some .whileTrue
  | .untilLoop | .untilPost => some .untilTrue
  | .forLoop => some .forEach
  | _ => none

/-- The keyword for the opposite condition. -/
def inverseKeyword? (n : Node) : Option LoopKeyword := n.loopKeyword?.bind (·.inverse?)

/-- Whether the node is a loop. -/
def isLoop (n : Node) : Bool := n.loopKeyword?.isSome

/-- Whether the body runs before the condition is looked at. -/
def isPostCondition (n : Node) : Bool := n.kind == .whilePost || n.kind == .untilPost

/-- The slot of a loop's header, after which `do` may stand. -/
def headerSlot? (n : Node) : Option Nat :=
  match n.kind with
  | .whileLoop | .untilLoop => some 0
  | .forLoop => some 1
  | _ => none

/-- Whether a text begins with the word `do`, blanks before it aside. -/
def beginsWithDo (gap : List Char) : Bool :=
  match gap.dropWhile Text.isBlank with
  | 'd' :: 'o' :: c :: _ => !(Text.isAlphanumeric c || c == '_')
  | ['d', 'o'] => true
  | _ => false

/-- Whether the word `do` separates the header of a loop from its body.  A body that begins
before the header ends is a modified statement and has none. -/
def hasDo (n : Node) (text : String) : Bool :=
  match n.headerSlot?.bind n.childNode? with
  | none => false
  | some header =>
    let gap (stop : Nat) := Text.slice text.toList header.span.stop stop
    match n.lastChild?.bind Child.node? with
    | some body =>
      header.span.stop ≤ body.span.start && beginsWithDo (gap body.span.start)
    | none => beginsWithDo (gap n.span.stop)

end RubySyntax.Node
