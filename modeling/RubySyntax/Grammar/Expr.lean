/-
  RubySyntax.Grammar.Expr
  ───────────────────────
  **PARSING EXPRESSIONS.**

  A parsing expression reads tokens from a position on and gives a value and a later position,
  or fails.  Choice is ordered: the second alternative is tried only where the first fails.
  Repetition is greedy and never gives back.  An expression is data: it can be read by
  `Expr.run`, and looked at by a proof.

  Every failed test leaves a trace, the index just after the last token that it looked at.  The
  greatest of these indices is where a faulty program stops making sense.
-/
import RubySyntax.Token
import RubySyntax.Version

namespace RubySyntax.Grammar

/-! ## §1. Expressions. -/

/-- An expression whose value has a given type, over the symbols of a grammar. -/
inductive Expr (Symbol : Type) (Result : Symbol → Type) : Type → Type 1 where
  /-- A token of one of some kinds. -/
  | token (kinds : List Token.Kind) : Expr Symbol Result Token
  /-- Nothing; it succeeds with a value. -/
  | done {α : Type} (value : α) : Expr Symbol Result α
  /-- One expression after another; the first value is applied to the second. -/
  | seq {α β : Type} (f : Expr Symbol Result (α → β)) (x : Expr Symbol Result α) :
      Expr Symbol Result β
  /-- An expression whose value is changed. -/
  | map {α β : Type} (f : α → β) (x : Expr Symbol Result α) : Expr Symbol Result β
  /-- An expression whose value is made into another one, in a version of the language, or
  refused. -/
  | check {α β : Type} (f : Version → α → Option β) (x : Expr Symbol Result α) :
      Expr Symbol Result β
  /-- An expression that versions before a given one refuse after reading it. -/
  | since {α : Type} (v : Version) (x : Expr Symbol Result α) : Expr Symbol Result α
  /-- The first of two expressions that does not fail. -/
  | orElse {α : Type} (a b : Expr Symbol Result α) : Expr Symbol Result α
  /-- An expression as often as it does not fail. -/
  | star {α : Type} (x : Expr Symbol Result α) : Expr Symbol Result (List α)
  /-- Nothing, before a token of one of some kinds. -/
  | next (kinds : List Token.Kind) : Expr Symbol Result Unit
  /-- Nothing, unless before a token of one of some kinds. -/
  | notNext (kinds : List Token.Kind) : Expr Symbol Result Unit
  /-- Nothing, after the last token. -/
  | finish : Expr Symbol Result Unit
  /-- The expression of a symbol. -/
  | call (s : Symbol) : Expr Symbol Result (Result s)

namespace Expr

variable {Symbol : Type} {Result : Symbol → Type}

instance : Functor (Expr Symbol Result) where
  map := .map

instance : Applicative (Expr Symbol Result) where
  pure := .done
  seq f x := .seq f (x ())
  seqLeft x y := .seq (.map (fun a _ => a) x) (y ())
  seqRight x y := .seq (.map (fun _ b => b) x) (y ())

instance {α : Type} : OrElse (Expr Symbol Result α) where
  orElse a b := .orElse a (b ())

/-! ## §2. Derived expressions. -/

/-- A token of one kind. -/
def tok (kind : Token.Kind) : Expr Symbol Result Token := .token [kind]

/-- An expression or nothing. -/
def opt {α : Type} (x : Expr Symbol Result α) : Expr Symbol Result (Option α) :=
  .orElse (.map some x) (.done none)

/-- An expression once or more often. -/
def plus {α : Type} (x : Expr Symbol Result α) : Expr Symbol Result (List α) :=
  (· :: ·) <$> x <*> .star x

/-- An expression once or more often, with another one in between. -/
def sepBy1 {α β : Type} (x : Expr Symbol Result α) (sep : Expr Symbol Result β) :
    Expr Symbol Result (List α) :=
  (· :: ·) <$> x <*> .star (sep *> x)

/-- An expression any number of times, with another one in between. -/
def sepBy {α β : Type} (x : Expr Symbol Result α) (sep : Expr Symbol Result β) :
    Expr Symbol Result (List α) :=
  .orElse (sepBy1 x sep) (.done [])

/-- Whether an expression is there. -/
def present {α : Type} (x : Expr Symbol Result α) : Expr Symbol Result Bool :=
  Option.isSome <$> opt x

/-- The first of some expressions that does not fail, with one to fall back on. -/
def firstOf {α : Type} (xs : List (Expr Symbol Result α)) (last : Expr Symbol Result α) :
    Expr Symbol Result α :=
  xs.foldr .orElse last

/-- An expression whose value may be refused in every version alike. -/
def filterMap {α β : Type} (f : α → Option β) (x : Expr Symbol Result α) : Expr Symbol Result β :=
  .check (fun _ => f) x

end Expr

/-! ## §3. Reading tokens. -/

/-- The outcome of reading: a value and the position after it, or a failure; and a trace. -/
abbrev Outcome (σ α : Type) := Option (α × Nat) × σ

/-- What reading depends on: the tokens, the version, how a failed test leaves its trace, and how
the symbols are read. -/
structure Reader (Symbol : Type) (Result : Symbol → Type) (σ : Type) where
  tokens : Array Token
  version : Version
  record : Nat → σ → σ
  call : (s : Symbol) → Nat → σ → Outcome σ (Result s)

namespace Reader

variable {Symbol : Type} {Result : Symbol → Type} {σ : Type}

/-- A failure that leaves an index as its trace. -/
def fail {α : Type} (r : Reader Symbol Result σ) (i : Nat) (trace : σ) : Outcome σ α :=
  (none, r.record i trace)

/-- Whether the token at a position is of one of some kinds. -/
def sees (r : Reader Symbol Result σ) (kinds : List Token.Kind) (i : Nat) : Bool :=
  (r.tokens[i]?).any fun t => kinds.contains t.kind

/-- The token at a position, if it is of one of some kinds. -/
def token (r : Reader Symbol Result σ) (kinds : List Token.Kind) (i : Nat) (trace : σ) :
    Outcome σ Token :=
  match r.tokens[i]? with
  | some t => if kinds.contains t.kind then (some (t, i + 1), trace) else r.fail (i + 1) trace
  | none => r.fail i trace

end Reader

/-- The values of an expression read again and again, `most` times at the most: the values so
far, latest first, grow until the expression fails. -/
def repeated {σ α : Type} (read : Nat → σ → Outcome σ α) :
    (most i : Nat) → List α → σ → Outcome σ (List α)
  | 0, i, values, trace => (some (values.reverse, i), trace)
  | most + 1, i, values, trace =>
    match read i trace with
    | (some (value, j), trace) => repeated read most j (value :: values) trace
    | (none, trace) => (some (values.reverse, i), trace)

/-- Read an expression from a position on.  A repetition ends at the latest when it has been
tried once for each token left and once after them. -/
def Expr.run {Symbol : Type} {Result : Symbol → Type} {σ : Type} (r : Reader Symbol Result σ) :
    {α : Type} → Expr Symbol Result α → Nat → σ → Outcome σ α
  | _, .token kinds, i, trace => r.token kinds i trace
  | _, .done value, i, trace => (some (value, i), trace)
  | _, .seq f x, i, trace =>
    match f.run r i trace with
    | (some (g, j), trace) =>
      match x.run r j trace with
      | (some (value, k), trace) => (some (g value, k), trace)
      | (none, trace) => (none, trace)
    | (none, trace) => (none, trace)
  | _, .map f x, i, trace =>
    match x.run r i trace with
    | (some (value, j), trace) => (some (f value, j), trace)
    | (none, trace) => (none, trace)
  | _, .check f x, i, trace =>
    match x.run r i trace with
    | (some (value, j), trace) =>
      match f r.version value with
      | some value => (some (value, j), trace)
      | none => r.fail j trace
    | (none, trace) => (none, trace)
  | _, .since v x, i, trace =>
    match x.run r i trace with
    | (some (value, j), trace) =>
      if r.version.atLeast v then (some (value, j), trace) else r.fail j trace
    | (none, trace) => (none, trace)
  | _, .orElse a b, i, trace =>
    match a.run r i trace with
    | (some found, trace) => (some found, trace)
    | (none, trace) => b.run r i trace
  | _, .star x, i, trace => repeated (x.run r) (r.tokens.size - i + 1) i [] trace
  | _, .next kinds, i, trace => (if r.sees kinds i then some ((), i) else none, trace)
  | _, .notNext kinds, i, trace => (if r.sees kinds i then none else some ((), i), trace)
  | _, .finish, i, trace => (if i < r.tokens.size then none else some ((), i), trace)
  | _, .call s, i, trace => r.call s i trace

end RubySyntax.Grammar
