/-
  RubySyntax.Source.Directive
  ───────────────────────────
  **RULES SWITCHED OFF BY COMMENTS.**

  A comment may hold a directive: `# rubocop:disable A, B/C` or `# rubocop:enable A, B/C`.  A
  `disable` alone on its line switches its rules off from that line up to the next `enable` that
  names the rule or `all`, that line included, or to the last line.  A `disable` after code
  switches them off on its own line.  Rules are off on ranges of lines, for each rule in the
  order of their first lines.
-/
import RubySyntax.Comment

namespace RubySyntax.Source

/-! ## §1. Directives. -/

/-- A directive and where it stands. -/
structure Directive where
  /-- Whether it switches rules on again. -/
  enables : Bool
  rules : List String
  line : Nat
  /-- Whether nothing comes before it on its line. -/
  alone : Bool
deriving DecidableEq, Repr

/-- The name that stands for every rule. -/
def allRules : String := "all"

/-- What follows a word at the beginning of a text. -/
def afterWord? (word : String) (cs : List Char) : Option (List Char) :=
  if word.toList.isPrefixOf cs then some (cs.drop word.toList.length) else none

/-- A text without the white space at its beginning. -/
def skipBlanks (cs : List Char) : List Char := cs.dropWhile Text.isBlank

/-- A character of a rule's name. -/
def isRuleChar (c : Char) : Bool := Text.isWordChar c || c == '/'

/-- The names of rules, between commas and white space, as far as they go: more names after the
first, if `most` allows. -/
def moreNames : (most : Nat) → List Char → List String
  | 0, _ => []
  | most + 1, cs =>
    match skipBlanks cs with
    | ',' :: rest =>
      let rest := skipBlanks rest
      let name := rest.takeWhile isRuleChar
      if name.isEmpty then []
      else String.ofList name :: moreNames most (rest.dropWhile isRuleChar)
    | _ => []

/-- The names of rules at the beginning of a text, at least one. -/
def ruleNames? (cs : List Char) : Option (List String) :=
  let name := cs.takeWhile isRuleChar
  if name.isEmpty then none
  else some (String.ofList name :: moreNames cs.length (cs.dropWhile isRuleChar))

/-- Whether a text goes on with no character of a word. -/
def atWordEnd (cs : List Char) : Bool := !(cs.head?.any Text.isWordChar)

/-- The word of a directive: whether it switches rules on, and what follows. -/
def directiveWord? (cs : List Char) : Option (Bool × List Char) :=
  ((afterWord? "disable" cs).map (false, ·)).or ((afterWord? "enable" cs).map (true, ·))

/-- A directive that begins with the number sign before a text: whether it switches rules on, and
their names. -/
def directiveBody? (cs : List Char) : Option (Bool × List String) := do
  let cs ← afterWord? "rubocop" (skipBlanks cs)
  let cs ← afterWord? ":" (skipBlanks cs)
  let (enables, cs) ← directiveWord? (skipBlanks cs)
  if atWordEnd cs then
    let rules ← ruleNames? (skipBlanks cs)
    return (enables, rules)
  else none

/-- The first directive in a text. -/
def findDirective? : List Char → Option (Bool × List String)
  | [] => none
  | c :: rest => (if c == '#' then directiveBody? rest else none).or (findDirective? rest)

/-- Whether nothing but white space comes before a column of a line; a line or a column that is not
there has nothing before it. -/
def nothingBefore (lines : List String) (line column : Nat) : Bool :=
  if line == 0 then true
  else
    match (lines[line - 1]?).bind fun text => Text.takeBytes? text.toList column with
    | some before => before.all Text.isBlank
    | none => true

/-- The directive in a comment. -/
def Directive.ofComment? (lines : List String) (c : Comment) : Option Directive :=
  (findDirective? c.text.toList).map fun (enables, rules) =>
    ⟨enables, rules, c.line, nothingBefore lines c.line c.span.column⟩

/-- The directives in some comments. -/
def Directive.ofComments (lines : List String) (comments : List Comment) : List Directive :=
  comments.filterMap (Directive.ofComment? lines)

/-! ## §2. Ranges of lines. -/

/-- The lines from a first to a last one, both included. -/
structure LineRange where
  first : Nat
  last : Nat
deriving DecidableEq, Repr

/-- For each rule the ranges on which it is off. -/
abbrev RuleRanges := List (String × List LineRange)

/-- Whether a directive switches a rule on again. -/
def Directive.closes (d : Directive) (rule : String) : Bool :=
  d.enables && (d.rules.contains rule || d.rules.contains allRules)

/-- Whether a directive switches a rule off until it is switched on again. -/
def Directive.opens (d : Directive) (rule : String) : Bool :=
  !d.enables && d.alone && d.rules.contains rule

/-- The range of a directive that switches a rule off on one line, as often as it names it. -/
def Directive.lineRanges (d : Directive) (rule : String) : List LineRange :=
  if !d.enables && !d.alone then List.replicate (d.rules.count rule) ⟨d.line, d.line⟩ else []

/-- The ranges on which a rule is off, as directives end them, when it is off since a line or is
on. -/
def rangesFrom (lastLine : Nat) (rule : String) : (since? : Option Nat) → List Directive →
    List LineRange
  | none, [] => []
  | some since, [] => [⟨since, max lastLine since⟩]
  | none, d :: ds =>
    if d.opens rule then rangesFrom lastLine rule (some d.line) ds
    else d.lineRanges rule ++ rangesFrom lastLine rule none ds
  | some since, d :: ds =>
    if d.closes rule then ⟨since, d.line⟩ :: rangesFrom lastLine rule none ds
    else d.lineRanges rule ++ rangesFrom lastLine rule (some since) ds

/-- The ranges on which a rule is off, by their first lines; equal ones keep their order. -/
def rangesOf (lastLine : Nat) (ds : List Directive) (rule : String) : List LineRange :=
  (rangesFrom lastLine rule none ds).mergeSort fun a b => a.first ≤ b.first

/-- The rules that some directive switches off, each once, in order. -/
def disabledRules (ds : List Directive) : List String :=
  ((ds.filter (!·.enables)).flatMap (·.rules)).eraseDups.mergeSort fun a b => a ≤ b

/-- The rules that comments switch off, and on which of the lines. -/
def disabledRangesOf (comments : List Comment) (lines : List String) : RuleRanges :=
  let ds := Directive.ofComments lines comments
  (disabledRules ds).map fun rule => (rule, rangesOf (max lines.length 1) ds rule)

end RubySyntax.Source
