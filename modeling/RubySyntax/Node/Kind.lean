/-
  RubySyntax.Node.Kind
  ────────────────────
  **KINDS OF NODES.**

  Every node of a syntax tree has one of these kinds, and a kind is known by its tag.  The name
  of the visitor method for a kind is its tag after `on_`, except where the tag is no plain word.
-/

namespace RubySyntax.Node

/-- The kind of a node. -/
inductive Kind where
  -- literals
  | trueLit | falseLit | nilLit | int | float | complex | rational | str | dstr | xstr | sym
  | dsym | regexp | regopt | array | splat | hash | pair | kwsplat | irange | erange
  -- variables and references
  | selfRef | lvar | ivar | cvar | gvar | constant | cbase | nthRef | backRef | defined
  -- assignment
  | lvasgn | ivasgn | cvasgn | gvasgn | casgn | mlhs | masgn | rasgn | mrasgn | opAsgn | orAsgn
  | andAsgn
  -- definitions
  | moduleDef | classDef | sclass | methodDef | defs | undefNames | aliasDef
  -- parameters
  | args | arg | optarg | restarg | blockarg | shadowarg | kwarg | kwoptarg | kwrestarg
  | kwnilarg | procarg0 | argExpr | forwardArgs | forwardedArgs | forwardArg | forwardedRestarg
  | forwardedKwrestarg | blockPass
  -- calls
  | send | csend | superCall | zsuper | yieldCall | block | numblock | lambdaArrow | index
  | indexasgn | kwargs
  -- logic and control flow
  | andOp | orOp | notOp | ifElse | whenClause | caseWhen | whileLoop | untilLoop | whilePost
  | untilPost | forLoop | breakJump | nextJump | redoJump | returnJump | sequence | kwbegin
  | rescue | resbody | ensure | retryJump | preexe | postexe | iflipflop | eflipflop
  | matchCurrentLine | matchWithLvasgn
  -- pattern matching
  | caseMatch | inMatch | inPattern | matchVar | pin | matchAlt | matchAs | matchRest
  | arrayPattern | arrayPatternWithTail | hashPattern | constPattern | findPattern | ifGuard
  | unlessGuard | matchNilPattern | matchWithTrailingComma | emptyElse | matchPattern
  | matchPatternP
  -- keyword pseudo-variables
  | fileKeyword | lineKeyword | encodingKeyword
deriving DecidableEq, Repr, Inhabited

namespace Kind

/-- Every kind, in the order of its number. -/
def all : List Kind := [
  .trueLit, .falseLit, .nilLit, .int, .float, .complex, .rational, .str, .dstr, .xstr, .sym,
  .dsym, .regexp, .regopt, .array, .splat, .hash, .pair, .kwsplat, .irange, .erange,
  .selfRef, .lvar, .ivar, .cvar, .gvar, .constant, .cbase, .nthRef, .backRef, .defined,
  .lvasgn, .ivasgn, .cvasgn, .gvasgn, .casgn, .mlhs, .masgn, .rasgn, .mrasgn, .opAsgn, .orAsgn,
  .andAsgn,
  .moduleDef, .classDef, .sclass, .methodDef, .defs, .undefNames, .aliasDef,
  .args, .arg, .optarg, .restarg, .blockarg, .shadowarg, .kwarg, .kwoptarg, .kwrestarg, .kwnilarg,
  .procarg0, .argExpr, .forwardArgs, .forwardedArgs, .forwardArg, .forwardedRestarg,
  .forwardedKwrestarg, .blockPass,
  .send, .csend, .superCall, .zsuper, .yieldCall, .block, .numblock, .lambdaArrow, .index,
  .indexasgn, .kwargs,
  .andOp, .orOp, .notOp, .ifElse, .whenClause, .caseWhen, .whileLoop, .untilLoop, .whilePost,
  .untilPost, .forLoop, .breakJump, .nextJump, .redoJump, .returnJump, .sequence, .kwbegin,
  .rescue, .resbody, .ensure, .retryJump, .preexe, .postexe, .iflipflop, .eflipflop,
  .matchCurrentLine, .matchWithLvasgn,
  .caseMatch, .inMatch, .inPattern, .matchVar, .pin, .matchAlt, .matchAs, .matchRest,
  .arrayPattern, .arrayPatternWithTail, .hashPattern, .constPattern, .findPattern, .ifGuard,
  .unlessGuard, .matchNilPattern, .matchWithTrailingComma, .emptyElse, .matchPattern,
  .matchPatternP,
  .fileKeyword, .lineKeyword, .encodingKeyword]

/-- The tag of a kind. -/
def tag : Kind → String
  | .trueLit => "true"
  | .falseLit => "false"
  | .nilLit => "nil"
  | .int => "int"
  | .float => "float"
  | .complex => "complex"
  | .rational => "rational"
  | .str => "str"
  | .dstr => "dstr"
  | .xstr => "xstr"
  | .sym => "sym"
  | .dsym => "dsym"
  | .regexp => "regexp"
  | .regopt => "regopt"
  | .array => "array"
  | .splat => "splat"
  | .hash => "hash"
  | .pair => "pair"
  | .kwsplat => "kwsplat"
  | .irange => "irange"
  | .erange => "erange"
  | .selfRef => "self"
  | .lvar => "lvar"
  | .ivar => "ivar"
  | .cvar => "cvar"
  | .gvar => "gvar"
  | .constant => "const"
  | .cbase => "cbase"
  | .nthRef => "nth_ref"
  | .backRef => "back_ref"
  | .defined => "defined?"
  | .lvasgn => "lvasgn"
  | .ivasgn => "ivasgn"
  | .cvasgn => "cvasgn"
  | .gvasgn => "gvasgn"
  | .casgn => "casgn"
  | .mlhs => "mlhs"
  | .masgn => "masgn"
  | .rasgn => "rasgn"
  | .mrasgn => "mrasgn"
  | .opAsgn => "op_asgn"
  | .orAsgn => "or_asgn"
  | .andAsgn => "and_asgn"
  | .moduleDef => "module"
  | .classDef => "class"
  | .sclass => "sclass"
  | .methodDef => "def"
  | .defs => "defs"
  | .undefNames => "undef"
  | .aliasDef => "alias"
  | .args => "args"
  | .arg => "arg"
  | .optarg => "optarg"
  | .restarg => "restarg"
  | .blockarg => "blockarg"
  | .shadowarg => "shadowarg"
  | .kwarg => "kwarg"
  | .kwoptarg => "kwoptarg"
  | .kwrestarg => "kwrestarg"
  | .kwnilarg => "kwnilarg"
  | .procarg0 => "procarg0"
  | .argExpr => "arg_expr"
  | .forwardArgs => "forward_args"
  | .forwardedArgs => "forwarded_args"
  | .forwardArg => "forward_arg"
  | .forwardedRestarg => "forwarded_restarg"
  | .forwardedKwrestarg => "forwarded_kwrestarg"
  | .blockPass => "block_pass"
  | .send => "send"
  | .csend => "csend"
  | .superCall => "super"
  | .zsuper => "zsuper"
  | .yieldCall => "yield"
  | .block => "block"
  | .numblock => "numblock"
  | .lambdaArrow => "lambda"
  | .index => "index"
  | .indexasgn => "indexasgn"
  | .kwargs => "kwargs"
  | .andOp => "and"
  | .orOp => "or"
  | .notOp => "not"
  | .ifElse => "if"
  | .whenClause => "when"
  | .caseWhen => "case"
  | .whileLoop => "while"
  | .untilLoop => "until"
  | .whilePost => "while_post"
  | .untilPost => "until_post"
  | .forLoop => "for"
  | .breakJump => "break"
  | .nextJump => "next"
  | .redoJump => "redo"
  | .returnJump => "return"
  | .sequence => "begin"
  | .kwbegin => "kwbegin"
  | .rescue => "rescue"
  | .resbody => "resbody"
  | .ensure => "ensure"
  | .retryJump => "retry"
  | .preexe => "preexe"
  | .postexe => "postexe"
  | .iflipflop => "iflipflop"
  | .eflipflop => "eflipflop"
  | .matchCurrentLine => "match_current_line"
  | .matchWithLvasgn => "match_with_lvasgn"
  | .caseMatch => "case_match"
  | .inMatch => "in_match"
  | .inPattern => "in_pattern"
  | .matchVar => "match_var"
  | .pin => "pin"
  | .matchAlt => "match_alt"
  | .matchAs => "match_as"
  | .matchRest => "match_rest"
  | .arrayPattern => "array_pattern"
  | .arrayPatternWithTail => "array_pattern_with_tail"
  | .hashPattern => "hash_pattern"
  | .constPattern => "const_pattern"
  | .findPattern => "find_pattern"
  | .ifGuard => "if_guard"
  | .unlessGuard => "unless_guard"
  | .matchNilPattern => "match_nil_pattern"
  | .matchWithTrailingComma => "match_with_trailing_comma"
  | .emptyElse => "empty_else"
  | .matchPattern => "match_pattern"
  | .matchPatternP => "match_pattern_p"
  | .fileKeyword => "__FILE__"
  | .lineKeyword => "__LINE__"
  | .encodingKeyword => "__ENCODING__"

/-- The kind of a tag. -/
def ofTag? (name : String) : Option Kind := all.find? fun k => k.tag == name

/-- The place of a kind in `all`. -/
def ordinal (k : Kind) : Nat := all.idxOf k

/-- The name of the visitor method for nodes of a kind. -/
def method : Kind → String
  | .defined => "on_defined"
  | .fileKeyword => "on_file_keyword"
  | .lineKeyword => "on_line_keyword"
  | .encodingKeyword => "on_encoding_keyword"
  | kind => "on_" ++ kind.tag

end Kind

end RubySyntax.Node
