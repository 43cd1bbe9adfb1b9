/-
  RubySyntax.Grammar.Matcher
  ──────────────────────────
  **READING TOKENS BY A GRAMMAR.**

  A grammar gives each symbol an expression, its rule.  `Rules.parse` reads a list of tokens by
  an expression and tells where a faulty list stops making sense: the greatest index that any
  failed test has left.

  Some symbols are tried again and again at one position, so what they gave is kept.  That
  changes nothing but the time: a value that is looked up is the one that would be read again,
  and its traces have been left before.
-/
import RubySyntax.Grammar.Expr

namespace RubySyntax.Grammar

/-- The rules of a grammar. -/
structure Rules where
  Symbol : Type
  /-- The type of the value of a symbol. -/
  Result : Symbol → Type
  /-- The expression of a symbol. -/
  rule : (s : Symbol) → Expr Symbol Result (Result s)
  /-- Whether what the symbol gave at a position is kept. -/
  keeps : Symbol → Bool
  /-- More than the greatest number of symbols that call each other before a token is read. -/
  depth : Nat

namespace Rules

/-! ## §1. Reading without keeping anything. -/

/-- Read a symbol; calls may nest `fuel` deep.  The trace is the greatest index so far. -/
def readSymbol (g : Rules) (tokens : Array Token) (version : Version) :
    (fuel : Nat) → (s : g.Symbol) → Nat → Nat → Outcome Nat (g.Result s)
  | 0, _, _, farthest => (none, farthest)
  | fuel + 1, s, i, farthest =>
    (g.rule s).run ⟨tokens, version, max, g.readSymbol tokens version fuel⟩ i farthest

/-! ## §2. Reading with what was kept. -/

/-- What a symbol gave. -/
structure Given (g : Rules) where
  symbol : g.Symbol
  /-- The value and the position after it, if there was one. -/
  found? : Option (g.Result symbol × Nat)

/-- What a symbol gave, among what some symbols gave. -/
def Given.find? {g : Rules} [DecidableEq g.Symbol] (s : g.Symbol) :
    List (Given g) → Option (Option (g.Result s × Nat))
  | [] => none
  | given :: rest =>
    if h : given.symbol = s then some (h ▸ given.found?) else Given.find? s rest

/-- The greatest index so far, and what symbols gave at each position. -/
structure Memo (g : Rules) where
  farthest : Nat
  kept : Array (List (Given g))

/-- Before any reading of some tokens. -/
def Memo.start (g : Rules) (tokens : Array Token) : Memo g :=
  ⟨0, Array.replicate (tokens.size + 1) []⟩

/-- A failed test has left an index. -/
def Memo.record {g : Rules} (i : Nat) (m : Memo g) : Memo g :=
  { m with farthest := max i m.farthest }

/-- A symbol gave something at a position. -/
def Memo.keep {g : Rules} (m : Memo g) (s : g.Symbol) (i : Nat)
    (found? : Option (g.Result s × Nat)) : Memo g :=
  { m with kept := m.kept.modify i (⟨s, found?⟩ :: ·) }

/-- What a symbol gave at a position before. -/
def Memo.find? {g : Rules} [DecidableEq g.Symbol] (m : Memo g) (s : g.Symbol) (i : Nat) :
    Option (Option (g.Result s × Nat)) :=
  (m.kept[i]?).bind (Given.find? s)

variable (g : Rules) [DecidableEq g.Symbol]

/-- Read a symbol; calls may nest `fuel` deep.  What a symbol gave before is not read again. -/
def readKept (tokens : Array Token) (version : Version) :
    (fuel : Nat) → (s : g.Symbol) → Nat → Memo g → Outcome (Memo g) (g.Result s)
  | 0, _, _, memo => (none, memo)
  | fuel + 1, s, i, memo =>
    let read := (g.rule s).run ⟨tokens, version, Memo.record, readKept tokens version fuel⟩ i
    if g.keeps s then
      match memo.find? s i with
      | some given => (given, memo)
      | none =>
        let (given, memo) := read memo
        (given, memo.keep s i given)
    else read memo

/-! ## §3. Reading a whole list of tokens. -/

/-- How deep calls may nest for some tokens: `depth` calls for each token, and for the end. -/
def fuel (tokens : Array Token) : Nat := g.depth * (tokens.size + 1)

/-- The value of an expression read from the first token on, or the index at which the tokens stop
making sense. -/
def parse {α : Type} (e : Expr g.Symbol g.Result α) (tokens : Array Token)
    (version : Version) : Except Nat α :=
  let read := g.readKept tokens version (g.fuel tokens)
  match e.run ⟨tokens, version, Memo.record, read⟩ 0 (Memo.start g tokens) with
  | (some (value, _), _) => .ok value
  | (none, memo) => .error memo.farthest

end Rules

end RubySyntax.Grammar
