/-
  RubySyntax.Node.Build.Literal
  ─────────────────────────────
  **LITERALS, NAMES AND STRINGS.**

  Each function makes the node of one construct from its tokens and parts; the span of the node
  covers all of them.  A whole number too large for 64 bits keeps its text.  A string whose
  parts are all plain is one text; with an interpolation it keeps its parts.
-/
import RubySyntax.Node
import RubySyntax.Token
import RubySyntax.Text.Letters
import RubySyntax.Decimal.Reading

namespace RubySyntax.Node

/-! ## §1. Spans of several parts. -/

/-- A span enlarged to cover some nodes. -/
def joinAll (s : Span) (ns : List Node) : Span := ns.foldl (fun s n => s.join n.span) s

/-- A span enlarged to cover a node that may be missing. -/
def joinOption (s : Span) (n : Option Node) : Span :=
  match n with
  | some n => s.join n.span
  | none => s

/-- The span of some nodes; of none it is nowhere. -/
def cover : List Node → Span
  | [] => .nowhere
  | n :: ns => joinAll n.span (n :: ns)

/-- Nodes as slots. -/
def slots (ns : List Node) : List Child := ns.map Child.node

/-- A node without slots at a token. -/
def bare (kind : Kind) (t : Token) : Node := .mk kind [] t.span

/-- A node at a token whose only slot is the value of the token as a name. -/
def named (kind : Kind) (t : Token) : Node := .mk kind [.symbol t.value] t.span

/-- The statements of a body: none, the only one, or a sequence. -/
def ofStatements? : List Node → Option Node
  | [] => none
  | [n] => some n
  | ns => some (.mk .sequence (slots ns) (cover ns))

/-! ## §2. Numbers. -/

/-- The greatest whole number that a slot holds. -/
def maxInteger : Int := Int.pow 2 63 - 1

/-- The value of a digit in any base up to sixteen, if it is one. -/
def digitValue? (base : Nat) (c : Char) : Option Nat :=
  let value :=
    if Text.isDigit c then c.toNat - '0'.toNat
    else if Text.isHexDigit c then (Text.lowerCase c).toNat - 'a'.toNat + 10
    else base
  if value < base then some value else none

/-- The value of a run of digits in a base, if there are some and all are digits. -/
def baseValue? (base : Nat) (digits : List Char) : Option Nat :=
  if digits.isEmpty then none
  else digits.foldlM (fun n c => (digitValue? base c).map (n * base + ·)) 0

/-- The base that the beginning of a number names, and the digits after that mark. -/
def splitBase : List Char → Nat × List Char
  | '0' :: 'x' :: digits => (16, digits)
  | '0' :: 'b' :: digits => (2, digits)
  | '0' :: 'o' :: digits => (8, digits)
  | '0' :: 'd' :: digits => (10, digits)
  | '0' :: c :: digits => (8, c :: digits)
  | digits => (10, digits)

/-- The value of a whole number, if it has one whose magnitude fits a slot. -/
def integerValue? (text : List Char) : Option Int :=
  let (negative, digits) := Decimal.splitSign text
  let (base, digits) := splitBase ((digits.filter (· != '_')).map Text.lowerCase)
  (baseValue? base digits).bind fun n =>
    let n : Int := n
    if maxInteger < n then none else some (if negative then -n else n)

/-- A whole number. -/
def integer (t : Token) : Node :=
  .mk .int [((integerValue? t.value.toList).map Child.integer).getD (.text t.value)] t.span

/-- A floating-point number. -/
def float (t : Token) : Node :=
  let text := String.ofList (t.value.toList.filter (· != '_'))
  .mk .float [((Decimal.read? text).map Child.float).getD (.text t.value)] t.span

/-- A text without one character at its end. -/
def dropMark (mark : Char) (text : String) : String :=
  match text.toList.reverse with
  | c :: rest => if c == mark then String.ofList rest.reverse else text
  | [] => text

/-- A rational number; it keeps its text without the letter `r`. -/
def rational (t : Token) : Node := .mk .rational [.text (dropMark 'r' t.value)] t.span

/-- An imaginary number; it keeps its text without the letter `i`. -/
def complex (t : Token) : Node := .mk .complex [.text (dropMark 'i' t.value)] t.span

/-! ## §3. Names. -/

/-- A bare name, taken for a variable until its scope is known. -/
def identifier (t : Token) : Node := named .lvar t

/-- A variable with a mark before its name. -/
def markedVariable (t : Token) : Node :=
  match t.kind with
  | .tIVAR => named .ivar t
  | .tCVAR => named .cvar t
  | .tGVAR => named .gvar t
  | .tBACK_REF => named .backRef t
  | .tNTH_REF =>
    let number := ((baseValue? 10 t.value.toList).map Int.ofNat).filter (· ≤ maxInteger)
    .mk .nthRef [(number.map Child.integer).getD (.text t.value)] t.span
  | _ => named .lvar t

/-- A constant in a scope. -/
def constant (scope : Option Node) (name : Token) : Node :=
  .mk .constant [.ofOption scope, .symbol name.value] (joinOption name.span scope)

/-- A constant of the outermost scope. -/
def topConstant (colons name : Token) : Node := constant (some (bare .cbase colons)) name

/-! ## §4. Strings. -/

/-- A part of a string. -/
inductive StringPart where
  /-- Plain content. -/
  | plain (t : Token)
  /-- The statements of an interpolation between its marks. -/
  | interpolation (opening : Token) (body : List Node) (closing : Token)

/-- The node of a part of a string. -/
def ofPart : StringPart → Node
  | .plain t => .mk .str [.text t.value] t.span
  | .interpolation opening body closing =>
    .mk .sequence (slots body) (opening.span.join closing.span)

/-- The text of parts that are all plain. -/
def plainText? (parts : List Node) : Option String :=
  if parts.all fun n => n.kind == .str then
    some (String.join (parts.filterMap fun n => (n.child? 0).bind Child.text?))
  else none

/-- A string between quotes. -/
def string (opening : Token) (parts : List StringPart) (closing : Token) : Node :=
  let nodes := parts.map ofPart
  let span := opening.span.join closing.span
  match plainText? nodes with
  | some text => .mk .str [.text text] span
  | none => .mk .dstr (slots nodes) span

/-- Strings side by side. -/
def concatenation : List Node → Node
  | [n] => n
  | ns => .mk .dstr (slots ns) (cover ns)

/-- A character. -/
def character (t : Token) : Node := .mk .str [.text t.value] t.span

/-- A command between backquotes. -/
def commandString (opening : Token) (parts : List StringPart) (closing : Token) : Node :=
  .mk .xstr (slots (parts.map ofPart)) (opening.span.join closing.span)

/-- A symbol; also the key of a label. -/
def symbol (t : Token) : Node := named .sym t

/-- A symbol between quotes. -/
def quotedSymbol (opening : Token) (parts : List StringPart) (closing : Token) : Node :=
  let nodes := parts.map ofPart
  let span := opening.span.join closing.span
  match plainText? nodes with
  | some text => .mk .sym [.symbol text] span
  | none => .mk .dsym (slots nodes) span

/-! ## §5. Regular expressions. -/

/-- The options of a regular expression, in the order of the alphabet. -/
def options (t : Token) : Node :=
  .mk .regopt ((t.value.toList.mergeSort (· ≤ ·)).map fun c => .symbol (String.ofList [c])) t.span

/-- A regular expression and its options. -/
def regexp (opening : Token) (parts : List StringPart) (closing flags : Token) : Node :=
  .mk .regexp (slots (parts.map ofPart ++ [options flags]))
    ((opening.span.join flags.span).join closing.span)

/-- The name of the group that opens at the beginning of a text. -/
def captureName? : List Char → Option String
  | '(' :: '?' :: '<' :: rest =>
    let isName (c : Char) := Text.isAlphanumeric c || c == '_'
    let name := rest.takeWhile isName
    if !name.isEmpty && (rest.drop name.length).head? == some '>' then some (String.ofList name)
    else none
  | _ => none

/-- The names of the groups that open in a text, in order. -/
def captureNames : List Char → List String
  | [] => []
  | c :: rest =>
    match captureName? (c :: rest) with
    | some name => name :: captureNames rest
    | none => captureNames rest

/-- The names of the groups of a regular expression without interpolations, each once. -/
def namedCaptures (n : Node) : List String :=
  match plainText? (n.childNodes.filter fun part => part.kind != .regopt) with
  | some text => (captureNames text.toList).eraseDups
  | none => []

end RubySyntax.Node
