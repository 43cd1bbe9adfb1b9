/-
  RubySyntax.Node.Build.Control
  ─────────────────────────────
  **CONDITIONS, LOOPS AND BODIES.**

  In a condition a regular expression matches the current line and a range switches on and off;
  that meaning reaches through logical operators and parentheses.  A modified statement becomes
  the same node as the statement that begins with the keyword.
-/
import RubySyntax.Node.Build.Assignment

namespace RubySyntax.Node

/-! ## §1. Conditions. -/

mutual

/-- An expression as a condition. -/
def condition : Node → Node
  | .mk kind children span =>
    match kind with
    | .regexp => .mk .matchCurrentLine [.node (.mk .regexp children span)] span
    | .irange => .mk .iflipflop (conditionSlots children) span
    | .erange => .mk .eflipflop (conditionSlots children) span
    | .andOp => .mk .andOp (conditionSlots children) span
    | .orOp => .mk .orOp (conditionSlots children) span
    | .sequence =>
      if children.length == 1 then .mk .sequence (conditionSlots children) span
      else .mk .sequence children span
    | kind => .mk kind children span

/-- Slots whose nodes are conditions. -/
def conditionSlots : List Child → List Child
  | [] => []
  | c :: rest => conditionSlot c :: conditionSlots rest

/-- A slot whose node is a condition. -/
def conditionSlot : Child → Child
  | .node n => .node (condition n)
  | c => c

end

/-- A conditional that begins with a keyword and ends somewhere. -/
def conditional (kw : Token) (cond : Node) (yes no : Option Node) (stop : Span) : Node :=
  .mk .ifElse [.node (condition cond), .ofOption yes, .ofOption no] (kw.span.join stop)

/-- A further condition of a conditional; it ends with its last part. -/
def elseIf (kw : Token) (cond : Node) (yes no : Option Node) : Node :=
  conditional kw cond yes no (joinOption (joinOption cond.span yes) no)

/-- A conditional operator. -/
def ternary (cond yes no : Node) : Node :=
  .mk .ifElse [.node (condition cond), .node yes, .node no] (cond.span.join no.span)

/-! ## §2. Modified statements. -/

/-- A statement with a modifier after it: a keyword and a value. -/
def modified (body : Node) (kw : Token) (value : Node) : Node :=
  let span := body.span.join value.span
  let repeated (plain post : Kind) :=
    let kind := if body.kind == .kwbegin then post else plain
    Node.mk kind [.node (condition value), .node body] span
  match kw.kind with
  | .kIF_MOD => .mk .ifElse [.node (condition value), .node body, .absent] span
  | .kUNLESS_MOD => .mk .ifElse [.node (condition value), .absent, .node body] span
  | .kWHILE_MOD => repeated .whileLoop .whilePost
  | .kUNTIL_MOD => repeated .untilLoop .untilPost
  | _ => rescueModifier body kw value

/-! ## §3. Loops. -/

/-- A loop with a condition before its body. -/
def conditionLoop (kw : Token) (cond : Node) (body : Option Node) (closing : Token) : Node :=
  let kind := if kw.kind == .kUNTIL then .untilLoop else .whileLoop
  .mk kind [.node (condition cond), .ofOption body] (kw.span.join closing.span)

/-- A loop over the elements of a collection. -/
def forLoop (kw : Token) (var elements : Node) (body : Option Node) (closing : Token) : Node :=
  .mk .forLoop [.node var, .node elements, .ofOption body] (kw.span.join closing.span)

/-! ## §4. Branches. -/

/-- The `else` of a branching statement: the keyword and the body. -/
abbrev ElseClause := Token × Option Node

/-- A branch for some values. -/
def whenClause (kw : Token) (values : List Node) (body : Option Node) : Node :=
  .mk .whenClause (slots values ++ [.ofOption body]) (joinOption (joinAll kw.span values) body)

/-- A choice between branches by a value, or by their conditions. -/
def caseWhen (kw : Token) (subject : Option Node) (clauses : List Node)
    (otherwise : Option ElseClause) (closing : Token) : Node :=
  .mk .caseWhen (.ofOption subject :: slots clauses ++ [.ofOption (otherwise.bind (·.2))])
    (kw.span.join closing.span)

/-- A choice between branches by patterns.  An `else` without a body is kept. -/
def caseMatch (kw : Token) (subject : Node) (clauses : List Node) (otherwise : Option ElseClause)
    (closing : Token) : Node :=
  let last : Child := match otherwise with
    | none => .absent
    | some (keyword, none) => .node (bare .emptyElse keyword)
    | some (_, some body) => .node body
  .mk .caseMatch (.node subject :: slots clauses ++ [last]) (kw.span.join closing.span)

/-- A branch for a pattern, perhaps with a further condition. -/
def inPattern (kw : Token) (pattern : Node) (guard body : Option Node) : Node :=
  .mk .inPattern [.node pattern, .ofOption guard, .ofOption body]
    (joinOption (joinOption (kw.span.join pattern.span) guard) body)

/-- A further condition of a pattern. -/
def guard (kw : Token) (cond : Node) : Node :=
  let kind := if kw.kind == .kUNLESS_MOD then .unlessGuard else .ifGuard
  .mk kind [.node cond] (kw.span.join cond.span)

/-! ## §5. Bodies. -/

/-- A branch for some classes of failures. -/
def rescueClause (kw : Token) (classes : Option (List Node)) (var body : Option Node) : Node :=
  let classes := classes.map bareArray
  .mk .resbody [.ofOption classes, .ofOption var, .ofOption body]
    (joinOption (joinOption (joinOption kw.span classes) var) body)

/-- The statements of a body with its branches for failures and for success.  Without a branch for
failures, what is done after success follows the statements. -/
def rescued? (statements rescues : List Node) (otherwise : Option (List Node)) : Option Node :=
  let body := ofStatements? statements
  match rescues with
  | [] =>
    match otherwise with
    | some more => ofStatements? (body.toList ++ more)
    | none => body
  | first :: _ =>
    let otherwise := otherwise.bind ofStatements?
    let start := ((statements.head?.map Node.span).getD first.span)
    some (Node.mk .rescue (.ofOption body :: slots rescues ++ [.ofOption otherwise])
      (joinOption (joinAll start rescues) otherwise))

/-- A body, perhaps with what is done at its end in any case. -/
def ensured? (body : Option Node) (ensure : Option (Token × List Node)) : Option Node :=
  match ensure with
  | none => body
  | some (kw, last) =>
    let last := ofStatements? last
    let start := (body.map Node.span).getD kw.span
    some (Node.mk .ensure [.ofOption body, .ofOption last] (joinOption (start.join kw.span) last))

/-- The statements of a body with its branches for failures, for success, and for the end.
Without any of them the statements stay as they are. -/
def bodyStatements (statements rescues : List Node) (otherwise : Option (List Node))
    (ensure : Option (Token × List Node)) : List Node :=
  if rescues.isEmpty && otherwise.isNone && ensure.isNone then statements
  else (ensured? (rescued? statements rescues otherwise) ensure).toList

/-- Statements between `begin` and `end`. -/
def keywordBegin (kw : Token) (statements : List Node) (closing : Token) : Node :=
  .mk .kwbegin (slots statements) (kw.span.join closing.span)

/-- Statements between parentheses. -/
def parenthesized (opening : Token) (statements : List Node) (closing : Token) : Node :=
  .mk .sequence (slots statements) (opening.span.join closing.span)

/-- Statements to run before or after all others. -/
def beforeOrAfter (kw : Token) (statements : List Node) (closing : Token) : Node :=
  let kind := if kw.kind == .klBEGIN then .preexe else .postexe
  .mk kind [.ofOption (ofStatements? statements)] (kw.span.join closing.span)

end RubySyntax.Node
