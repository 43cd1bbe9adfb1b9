/-
  RubySyntax.Proofs.Block
  ───────────────────────
  **WHICH CALL A BLOCK BELONGS TO.**

  Names behind each other are calls in each other, each with the next one as its argument.  A block
  between `do` and `end` belongs to the outermost of them, one between braces to the innermost:

      f g h do end      f(g(h)) do end
      f g h { }         f(g(h { }))

  A command is read without a block, and only the outermost one may be followed by `do`.  A brace
  is read as a part of the name before it, which then can take no arguments.

  Main results:
    • `gives_nest` — names before an argument are nested calls,
    • `readProgram_doBlock`, `readProgram_braceBlock` — where the grammar puts the block,
    • `Program.read_blocks` — what becomes of any names and an empty block, in every version.
-/
import RubySyntax.Proofs.Grammar.Giving
import RubySyntax.Proofs.Program
import RubySyntax.Proofs.Token.Name
import RubySyntax.Proofs.Tree.Unplaced
import RubySyntax.Proofs.Tree.Warning
import RubySyntax.Proofs.Tree.Resolve

namespace RubySyntax.Grammar

open Token

/-! ## §1. Names. -/

/-- Calls in each other: each name has the call of the next one as its argument, the last name a
node. -/
def nest (names : List Token) (n : Node) : Node :=
  names.foldr (fun x n => .mk .send [.absent, .symbol x.value, .node n] (x.span.join n.span)) n

section Names

variable {tokens : Array Token} {version : Version} {i j k : Nat} {x : Token} {rest : List Token}
  {c : Node.Chain} {n : Node}

/-- What comes behind a name or a block between braces: the next name, a block, or nothing. -/
def behindCall : List (Option Kind) := [some .tIDENTIFIER, some .kDO, none]

theorem fails_behindCall (hnext : tokens[j]?.map (·.kind) ∈ behindCall) {kinds : List Kind}
    (h : ∀ next ∈ behindCall, leavesOut next kinds = true) :
    Fails tokens version (.token kinds : Rule Token) j :=
  fails_of_leavesOut rfl (h _ hnext)

theorem stopsAt_behindCall (hnext : tokens[j]?.map (·.kind) ∈ behindCall) : StopsAt tokens j := by
  have hall : ∀ next ∈ behindCall, leavesOut next kindsBehind = true := by decide
  exact hall _ hnext

theorem kind_of_name (ht : tokens[i]? = some x) (hx : x.kind = .tIDENTIFIER) :
    tokens[i]?.map (·.kind) = some .tIDENTIFIER := by
  rw [ht, Option.map_some, hx]

/-- A name is an atom. -/
theorem gives_atom_name (ht : tokens[i]? = some x) (hx : x.kind = .tIDENTIFIER)
    (hnext : tokens[i + 1]?.map (·.kind) ∈ some .tLCURLY :: behindCall) :
    Gives tokens version (.call Symbol.atom) i (.opened (Node.identifier x)) (i + 1) := by
  have hkind := kind_of_name ht hx
  have hparens : ∀ next ∈ some .tLCURLY :: behindCall, parenArguments.refusesFirst next = true := by
    decide
  have hname : Gives tokens version (.token [.tIDENTIFIER, .tFID, .tCONSTANT]) i x (i + 1) :=
    gives_token ht (by rw [hx]; decide)
  -- it is no call of a function, which would go on with a parenthesis
  refine gives_call (gives_firstOf_of_refuses hkind 7 rfl (gives_orElse_second ?_
    (gives_orElse_first (gives_map (gives_token ht (List.mem_singleton.mpr hx))))))
  exact fails_seq_second (gives_map hname) (fails_of_refusesFirst rfl (hparens _ hnext))

/-- A name without a block between braces is a primary expression. -/
theorem gives_primary_name (ht : tokens[i]? = some x) (hx : x.kind = .tIDENTIFIER)
    (hnext : tokens[i + 1]?.map (·.kind) ∈ behindCall) :
    Gives tokens version primary i (.opened (Node.identifier x)) (i + 1) := by
  have hsuffix : ∀ next ∈ behindCall,
      (.call Symbol.suffix : Rule Node.Suffix).refusesFirst next = true := by decide
  exact gives_call (gives_check
    (gives_seq (gives_map (gives_atom_name ht hx (List.mem_cons_of_mem _ hnext)))
      (gives_star_nil (fails_of_refusesFirst rfl (hsuffix _ hnext)))) rfl)

theorem gives_argument_of_primary (ht : tokens[i]? = some x) (hx : x.kind = .tIDENTIFIER)
    (hc : Gives tokens version primary i c j) (hstop : StopsAt tokens j) :
    Gives tokens version argument i c.node j := by
  have hunary : ∀ u ∈ unaryLevels, leavesOut (some .tIDENTIFIER) u.kinds = true := by decide
  refine gives_argument ht (by rw [hx]; decide) hstop (gives_operation (fun u hu => ?_) hstop
    (gives_operand_of_primary hc hstop))
  exact fails_of_leavesOut (kind_of_name ht hx) (hunary u hu)

/-- A name with an argument is a command. -/
theorem gives_command (ht : tokens[i]? = some x) (hx : x.kind = .tIDENTIFIER)
    (hnext : tokens[i + 1]?.map (·.kind) = some .tIDENTIFIER)
    (hn : Gives tokens version (.call Symbol.callArgument) (i + 1) (.positional n) j)
    (hend : tokens[j]?.map (·.kind) ∈ behindCall) :
    Gives tokens version (.call Symbol.command) i (nest [x] n) j := by
  have hcomma : Fails tokens version comma j := fails_behindCall hend (by decide)
  have harguments : Gives tokens version commandArguments (i + 1) [.positional n] j :=
    gives_seq (gives_map hn) (gives_star_nil (fails_seq (fails_map hcomma)))
  have hprimary : Gives tokens version primary i (.opened (Node.identifier x)) (i + 1) :=
    gives_primary_name ht hx (by rw [hnext]; decide)
  exact gives_call (gives_orElse_second (fails_of_refusesFirst (kind_of_name ht hx) rfl)
    (gives_check (gives_seq (gives_map (gives_check hprimary rfl)) harguments) rfl))

/-- A primary expression that takes no argument is no command. -/
theorem fails_command (ht : tokens[i]? = some x) (hx : x.kind = .tIDENTIFIER)
    (hc : Gives tokens version primary i c j)
    (h : c.isOpen = false ∨ Fails tokens version commandArguments j) :
    Fails tokens version (.call Symbol.command) i := by
  refine fails_call (fails_orElse (fails_of_refusesFirst (kind_of_name ht hx) rfl)
    (fails_check ?_))
  cases hopen : c.isOpen with
  | false => exact fails_seq (fails_map (fails_check_refused hc (by simp [hopen])))
  | true =>
      obtain h | h := h
      · rw [hopen] at h
        cases h
      · exact fails_seq_second (gives_map (gives_check hc (if_pos hopen))) h

/-- What begins with a name is the argument of a command as a command, or else as itself. -/
theorem gives_callArgument (ht : tokens[i]? = some x) (hx : x.kind = .tIDENTIFIER)
    (hc : Gives tokens version primary i c j) (hend : tokens[j]?.map (·.kind) ∈ behindCall)
    (h : Gives tokens version (.call Symbol.command) i n k ∨
      Fails tokens version (.call Symbol.command) i ∧ c.node = n ∧ j = k) :
    Gives tokens version (.call Symbol.callArgument) i (.positional n) k := by
  have hname := kind_of_name ht hx
  have hargument := gives_argument_of_primary ht hx hc (stopsAt_behindCall hend)
  have harrow : Fails tokens version (Expr.tok .tASSOC) j := fails_behindCall hend (by decide)
  refine gives_call (gives_firstOf_of_refuses hname 9 rfl (gives_orElse_second ?_ ?_))
  · exact fails_seq (fails_seq_second (gives_map (gives_map hargument)) harrow)
  · obtain h | ⟨h, rfl, rfl⟩ := h
    · exact gives_orElse_first (gives_map h)
    · exact gives_orElse_second (fails_map h) (gives_map hargument)

/-- The first of some names. -/
theorem kind_first {names : List Token} (hnames : ∀ t ∈ names, t.kind = .tIDENTIFIER)
    (hx : x.kind = .tIDENTIFIER) (h : Remain tokens i (names ++ x :: rest)) :
    tokens[i]?.map (·.kind) = some .tIDENTIFIER := by
  rw [h.kind]
  cases names with
  | nil => exact congrArg some hx
  | cons y names => exact congrArg some (hnames y List.mem_cons_self)

/-- **Names before an argument are nested calls**, and these are an argument. -/
theorem gives_nest {names : List Token} (hnames : ∀ t ∈ names, t.kind = .tIDENTIFIER)
    (hx : x.kind = .tIDENTIFIER) (hend : tokens[j]?.map (·.kind) ∈ behindCall)
    (h : Remain tokens i (names ++ x :: rest))
    (hn : Gives tokens version (.call Symbol.callArgument) (i + names.length) (.positional n) j) :
    Gives tokens version (.call Symbol.callArgument) i (.positional (nest names n)) j ∧
      (names ≠ [] → Gives tokens version (.call Symbol.command) i (nest names n) j) := by
  induction names generalizing i with
  | nil => exact ⟨hn, fun hne => absurd rfl hne⟩
  | cons y names ih =>
      obtain ⟨hy, hnames⟩ := List.forall_mem_cons.mp hnames
      have hnext := kind_first hnames hx h.tail
      rw [List.length_cons, Nat.add_comm names.length, ← Nat.add_assoc] at hn
      have hcommand := gives_command h.head hy hnext (ih hnames h.tail hn).1 hend
      have hbehind : tokens[i + 1]?.map (·.kind) ∈ behindCall := by
        rw [hnext]
        decide
      exact ⟨gives_callArgument h.head hy (gives_primary_name h.head hy hbehind) hbehind
        (.inl hcommand), fun _ => hcommand⟩

/-! ## §2. Blocks. -/

/-- Before the end of a block there are no statements. -/
theorem gives_statements_nil (hnext : tokens[i]?.map (·.kind) ∈ [some .kEND, some .tRCURLY]) :
    Gives tokens version statements i [] i := by
  have hterm : ∀ next ∈ [some Kind.kEND, some .tRCURLY], term.refusesFirst next = true := by decide
  have hstatement : ∀ next ∈ [some Kind.kEND, some .tRCURLY],
      (.call Symbol.statement : Rule Node).refusesFirst next = true := by decide +kernel
  have hterms : Gives tokens version optTerms i [] i :=
    gives_star_nil (fails_of_refusesFirst rfl (hterm _ hnext))
  exact gives_call (gives_seq (gives_map (gives_seq (gives_map hterms)
    (gives_orElse_second (fails_seq (fails_map (fails_of_refusesFirst rfl (hstatement _ hnext))))
      gives_done))) hterms)

/-- The words `do` and `end` are a block. -/
theorem gives_doBlock {opening closing : Token} (h : Remain tokens i (opening :: closing :: rest))
    (hopening : opening.kind = .kDO) (hclosing : closing.kind = .kEND) :
    Gives tokens version doBlock i ⟨opening, none, none, closing⟩ (i + 2) := by
  have hend : tokens[i + 1]?.map (·.kind) = some .kEND := by
    rw [h.tail.kind, ← hclosing]
    rfl
  have hbody : Gives tokens version body (i + 1) (Node.bodyStatements [] [] none none) (i + 1) :=
    gives_call (gives_seq (gives_seq (gives_seq (gives_map
      (gives_statements_nil (by rw [hend]; decide)))
      (gives_star_nil (fails_of_refusesFirst hend rfl)))
      (gives_opt_none (fails_of_refusesFirst hend rfl)))
      (gives_opt_none (fails_of_refusesFirst hend rfl)))
  exact gives_seq (gives_seq (gives_seq (gives_map
    (gives_token h.head (List.mem_singleton.mpr hopening)))
    (gives_opt_none (fails_of_refusesFirst hend rfl))) (gives_map hbody))
    (gives_token h.tail.head (List.mem_singleton.mpr hclosing))

/-- So are two braces. -/
theorem gives_braceBlock {opening closing : Token} (h : Remain tokens i (opening :: closing :: rest))
    (hopening : opening.kind = .tLCURLY) (hclosing : closing.kind = .tRCURLY) :
    Gives tokens version braceBlock i ⟨opening, none, none, closing⟩ (i + 2) := by
  have hend : tokens[i + 1]?.map (·.kind) = some .tRCURLY := by
    rw [h.tail.kind, ← hclosing]
    rfl
  exact gives_seq (gives_seq (gives_seq (gives_map
    (gives_token h.head (List.mem_singleton.mpr hopening)))
    (gives_opt_none (fails_of_refusesFirst hend rfl)))
    (gives_map (gives_statements_nil (by rw [hend]; decide))))
    (gives_token h.tail.head (List.mem_singleton.mpr hclosing))

/-- A name with a block between braces that ends the tokens is a primary expression. -/
theorem gives_primary_braces {opening closing : Token}
    (h : Remain tokens i [x, opening, closing]) (hx : x.kind = .tIDENTIFIER)
    (hopening : opening.kind = .tLCURLY) (hclosing : closing.kind = .tRCURLY) :
    Gives tokens version primary i
      (.closed (Node.withBlock version (Node.nameCall x) ⟨opening, none, none, closing⟩))
      tokens.size := by
  have hnext : tokens[i + 1]?.map (·.kind) = some .tLCURLY := by
    rw [h.tail.kind, ← hopening]
    rfl
  have hsuffix : Gives tokens version (.call Symbol.suffix) (i + 1)
      (.block ⟨opening, none, none, closing⟩) tokens.size :=
    h.tail.tail.size ▸ gives_call (gives_firstOf_of_refuses hnext 5 rfl
      (gives_map (gives_braceBlock h.tail hopening hclosing)))
  exact gives_call (gives_check (gives_seq
    (gives_map (gives_atom_name h.head hx (by rw [hnext]; decide)))
    (gives_star_cons hsuffix (gives_star_nil (fails_at_end rfl)))) rfl)

/-- What begins with a name is a statement as a command, or else as an argument. -/
theorem gives_statement_of_name (ht : tokens[0]? = some x) (hx : x.kind = .tIDENTIFIER)
    (hc : Gives tokens version primary 0 c j) (hend : tokens[j]?.map (·.kind) ∈ behindCall)
    (h : Gives tokens version commandCall 0 n tokens.size ∨
      Fails tokens version commandCall 0 ∧ c.node = n ∧ j = tokens.size) :
    Gives tokens version (.call Symbol.statement) 0 n tokens.size := by
  have hargument := gives_argument_of_primary ht hx hc (stopsAt_behindCall hend)
  have hcomma : Fails tokens version comma j := fails_behindCall hend (by decide)
  have hlead : x.kind ∉ kindsAbove := by
    rw [hx]
    decide
  -- neither targets nor a target and an equals sign
  have hparens : Fails tokens version parenTargets 0 := fails_of_leads ht hlead [] nofun rfl
  have hsplat : Fails tokens version splatTarget 0 := fails_of_leads ht hlead [] nofun rfl
  have hitem : Fails tokens version ((fun first rest => Node.targets (first :: rest)) <$>
      .call Symbol.targetItem <* comma) 0 := by
    cases htarget : Node.target? c.node with
    | none =>
        exact fails_seq (fails_map (fails_map (fails_call (fails_orElse hparens
          (fails_orElse hsplat (fails_check_refused hc htarget))))))
    | some t =>
        exact fails_seq_second (gives_map (gives_map (gives_call (gives_orElse_second hparens
          (gives_orElse_second hsplat (gives_check hc htarget)))))) hcomma
  have htargets : Fails tokens version multipleAssignment 0 :=
    fails_seq (fails_seq (fails_map (fails_map (fails_orElse
      (fails_seq (fails_map (fails_seq hitem)))
      (fails_orElse (fails_map hsplat) (fails_map hparens))))))
  have hvalues : Fails tokens version severalValues 0 :=
    fails_check (fails_seq (fails_seq_second (gives_map (gives_map hc))
      (fails_behindCall hend (by decide))))
  refine gives_statement_of_atom ht hlead htargets hvalues (gives_call (gives_orElse_second
    (fails_oneLineMatch hargument (fails_behindCall hend (by decide))) (gives_orElse_second
      (fails_oneLineMatch hargument (fails_behindCall hend (by decide))) ?_)))
  obtain h | ⟨h, rfl, rfl⟩ := h
  · exact gives_orElse_first h
  · exact gives_orElse_second h hargument

end Names

/-! ## §3. Names and a block. -/

/-- Names as calls in each other. -/
def calls (names : List Token) (x : Token) : Node :=
  if names.isEmpty then Node.nameCall x else nest names (Node.identifier x)

/-- Names in each other take a block. -/
theorem attachBlock?_nest (v : Version) (names : List Token) (x : Token) (parts : Node.BlockParts) :
    Node.attachBlock? v (nest names (Node.identifier x)) parts =
      some (Node.withBlock v (calls names x) parts) := by
  cases names with
  | nil => rfl
  | cons y names => cases names <;> rfl

section Programs

variable (version : Version) {names : List Token} {x opening closing : Token}

/-- **Before `do` and `end` the names are one command**, and it takes the block. -/
theorem readProgram_doBlock (hnames : ∀ t ∈ names, t.kind = .tIDENTIFIER)
    (hx : x.kind = .tIDENTIFIER) (hopening : opening.kind = .kDO) (hclosing : closing.kind = .kEND) :
    readProgram (names ++ [x, opening, closing]) version =
      .ok (some (Node.withBlock version (calls names x) ⟨opening, none, none, closing⟩)) := by
  have h : Remain (names ++ [x, opening, closing]).toArray 0 (names ++ [x, opening, closing]) := rfl
  generalize hmore : (names ++ [x, opening, closing]).toArray = tokens at h
  have hlast := h.append
  have hnext : tokens[0 + names.length + 1]?.map (·.kind) = some .kDO := by
    rw [hlast.tail.kind, ← hopening]
    rfl
  have hend : tokens[0 + names.length + 1]?.map (·.kind) ∈ behindCall := by
    rw [hnext]
    decide
  have hprimary : Gives tokens version primary (0 + names.length) (.opened (Node.identifier x))
      (0 + names.length + 1) := gives_primary_name hlast.head hx hend
  -- `do` begins no argument, so the last name is called without any
  have hcommand := fails_command hlast.head hx hprimary (.inr (fails_of_refusesFirst hnext rfl))
  obtain ⟨-, hnest⟩ := gives_nest hnames hx hend h
    (gives_callArgument hlast.head hx hprimary hend (.inr ⟨hcommand, rfl, rfl⟩))
  have hblock : Gives tokens version doBlock (0 + names.length + 1)
      ⟨opening, none, none, closing⟩ tokens.size :=
    hlast.tail.tail.size ▸ gives_doBlock hlast.tail hopening hclosing
  -- a lone name is no command, so there the block stands behind an argument
  cases names with
  | nil =>
      have hargument := gives_argument_of_primary hlast.head hx hprimary (stopsAt_behindCall hend)
      have hcall : Gives tokens version commandCall 0 (Node.withBlock version (calls [] x)
          ⟨opening, none, none, closing⟩) tokens.size :=
        gives_call (gives_orElse_second (fails_check (fails_seq (fails_map hcommand)))
          (gives_check (gives_seq (gives_map hargument) hblock) rfl))
      subst hmore
      exact readProgram_of_statement hlast.head (by rw [hx]; decide)
        (gives_statement_of_name hlast.head hx hprimary hend (.inl hcall))
  | cons y names =>
      obtain ⟨hy, hnames⟩ := List.forall_mem_cons.mp hnames
      have hsecond : tokens[0 + 1]?.map (·.kind) ∈ behindCall := by
        rw [kind_first hnames hx h.tail]
        decide
      have hcall : Gives tokens version commandCall 0 (Node.withBlock version (calls (y :: names) x)
          ⟨opening, none, none, closing⟩) tokens.size :=
        gives_call (gives_orElse_first (gives_check (gives_seq
          (gives_map (hnest (List.cons_ne_nil _ _))) (gives_opt_some hblock))
          (attachBlock?_nest version (y :: names) x _)))
      subst hmore
      exact readProgram_of_statement h.head (by rw [hy]; decide) (gives_statement_of_name h.head hy
        (gives_primary_name h.head hy hsecond) hsecond (.inl hcall))

/-- **Before two braces only the last name takes the block**, and it is the argument of the others. -/
theorem readProgram_braceBlock (hnames : ∀ t ∈ names, t.kind = .tIDENTIFIER)
    (hx : x.kind = .tIDENTIFIER) (hopening : opening.kind = .tLCURLY)
    (hclosing : closing.kind = .tRCURLY) :
    readProgram (names ++ [x, opening, closing]) version = .ok (some
      (nest names (Node.withBlock version (Node.nameCall x) ⟨opening, none, none, closing⟩))) := by
  have h : Remain (names ++ [x, opening, closing]).toArray 0 (names ++ [x, opening, closing]) := rfl
  generalize hmore : (names ++ [x, opening, closing]).toArray = tokens at h
  have hlast := h.append
  have hprimary : Gives tokens version primary (0 + names.length)
      (.closed (Node.withBlock version (Node.nameCall x) ⟨opening, none, none, closing⟩))
      tokens.size := gives_primary_braces hlast hx hopening hclosing
  have hend : tokens[tokens.size]?.map (·.kind) ∈ behindCall := by
    rw [Array.getElem?_eq_none (Nat.le_refl _)]
    decide
  -- the braces belong to the last name, and behind them no argument can follow
  have hcommand := fails_command hlast.head hx hprimary (.inl rfl)
  obtain ⟨-, hnest⟩ := gives_nest hnames hx hend h
    (gives_callArgument hlast.head hx hprimary hend (.inr ⟨hcommand, rfl, rfl⟩))
  -- no block is left over for the whole call
  have hnone : Fails tokens version doBlock tokens.size := fails_at_end rfl
  cases names with
  | nil =>
      have hargument := gives_argument_of_primary hlast.head hx hprimary (stopsAt_behindCall hend)
      have hcall : Fails tokens version commandCall 0 :=
        fails_call (fails_orElse (fails_check (fails_seq (fails_map hcommand)))
          (fails_check (fails_seq_second (gives_map hargument) hnone)))
      subst hmore
      exact readProgram_of_statement hlast.head (by rw [hx]; decide)
        (gives_statement_of_name hlast.head hx hprimary hend (.inr ⟨hcall, rfl, rfl⟩))
  | cons y names =>
      obtain ⟨hy, hnames⟩ := List.forall_mem_cons.mp hnames
      have hsecond : tokens[0 + 1]?.map (·.kind) ∈ behindCall := by
        rw [kind_first hnames hx h.tail]
        decide
      have hcall := gives_call (s := .commandCall) (gives_orElse_first (gives_check (gives_seq
          (gives_map (hnest (List.cons_ne_nil _ _))) (gives_opt_none hnone)) rfl))
      subst hmore
      exact readProgram_of_statement h.head (by rw [hy]; decide) (gives_statement_of_name h.head hy
        (gives_primary_name h.head hy hsecond) hsecond (.inl hcall))

end Programs
end RubySyntax.Grammar

namespace RubySyntax.Node

open Token Grammar

/-! ## §4. Trees. -/

/-- A call without a receiver, nowhere. -/
def callOf (name : String) (arguments : List Node) : Node :=
  .mk .send (.absent :: .symbol name :: slots arguments) .nowhere

/-- Calls in each other, nowhere: each name has the call of the next one as its argument, the last
name a node. -/
def nestedCalls (names : List String) (innermost : Node) : Node :=
  names.foldr (fun name argument => callOf name [argument]) innermost

/-- A call with an empty block, nowhere. -/
def withEmptyBlock (callee : Node) : Node :=
  .mk .block [.node callee, .node (.mk .args [] .nowhere), .absent] .nowhere

section Trees

variable {version : Version} {n m : Node} {names : List Token} {x opening closing : Token}

theorem nameCall_eq (x : Token) : nameCall x = .mk .send [.absent, .symbol x.value] x.span := rfl

theorem withBlock_eq (n : Node) : withBlock version n ⟨opening, none, none, closing⟩ =
    .mk .block [.node n, .node (.mk .args [] opening.span.atEnd), .absent]
      (n.span.join closing.span) := by
  simp [withBlock, Child.ofOption]

theorem unplaced_nest :
    (nest names n).unplaced = nestedCalls (names.map (·.value)) n.unplaced := by
  induction names with
  | nil => rfl
  | cons y names ih =>
      show Node.unplaced (.mk .send [.absent, .symbol y.value, .node (nest names n)] _) = _
      simp [ih, nestedCalls, callOf, slots]

theorem unplaced_withBlock (n : Node) :
    (withBlock version n ⟨opening, none, none, closing⟩).unplaced = withEmptyBlock n.unplaced := by
  simp [withBlock_eq, withEmptyBlock]

theorem unplaced_nameCall (x : Token) : (nameCall x).unplaced = callOf x.value [] := by
  simp [nameCall_eq, callOf, slots]

/-- Names that are not bound are calls. -/
theorem resolveIn_nest (h : resolveIn [] n = (m, [])) :
    resolveIn [] (nest names n) = (nest names m, []) := by
  induction names with
  | nil => exact h
  | cons y names ih =>
      have hspan : (nest names m).span = (nest names n).span := by
        rw [← span_resolveIn [] (nest names n), ih]
      have hcall : resolveIn [] (nest (y :: names) n) =
          (.mk .send [.absent, .symbol y.value, .node (resolveIn [] (nest names n)).1]
            (y.span.join (nest names n).span), (resolveIn [] (nest names n)).2) := rfl
      rw [hcall, ih, ← hspan]
      rfl

theorem resolveIn_nameCall (x : Token) : resolveIn [] (nameCall x) = (nameCall x, []) := rfl

theorem resolveIn_identifier (x : Token) : resolveIn [] (identifier x) = (nameCall x, []) := rfl

theorem resolveIn_calls (names : List Token) (x : Token) :
    resolveIn [] (calls names x) = (nest names (nameCall x), []) := by
  cases names with
  | nil => exact resolveIn_nameCall x
  | cons y names => exact resolveIn_nest (resolveIn_identifier x)

theorem resolveIn_withBlock (h : resolveIn [] n = (m, [])) :
    resolveIn [] (withBlock version n ⟨opening, none, none, closing⟩) =
      (withBlock version m ⟨opening, none, none, closing⟩, []) := by
  have hspan : m.span = n.span := by rw [← span_resolveIn [] n, h]
  have hblock : ∀ params span,
      resolveIn [] (.mk .block [.node n, .node (.mk .args [] params), .absent] span) =
        (.mk .block [.node (resolveIn [] n).1, .node (.mk .args [] params), .absent] span,
          (resolveIn [] n).2) := fun _ _ => rfl
  rw [withBlock_eq, withBlock_eq, hblock, h, hspan]

/-- Nothing is doubtful about any node of a tree. -/
def Undoubted (n : Node) : Prop := Everywhere (fun m => ∀ method, warningsAt method m = []) n

/-- A tree about which nothing is doubtful has no warnings. -/
theorem warnings_of_undoubted (h : n.Undoubted) : n.warnings = [] := by
  have hvisit : Everywhere (fun m => ∀ method (found : List Diagnostic), found = [] →
      doubter.visit method m found = []) n := by
    refine h.imp fun m hm method found hfound => ?_
    show (warningsAt method m).reverse ++ found = []
    rw [hm method, hfound]
    rfl
  rw [warnings, walk, walkAs_induction hvisit n.kind [] rfl]
  rfl

/-- Neither a condition nor a key is doubtful where the first node in a slot is no assignment, and
none is a pair. -/
theorem warningsAt_eq_nil (hcondition : ∀ m, n.childNode? 0 = some m → m.kind = .send)
    (hkeys : ∀ m ∈ n.childNodes, m.kind ≠ .pair) (method : Kind) : warningsAt method n = [] := by
  have hconditions : n.conditionWarnings = [] := by
    unfold conditionWarnings
    cases hchild : n.childNode? 0 with
    | none => rfl
    | some m =>
        obtain ⟨kind, children, span⟩ := m
        obtain rfl : kind = .send := hcondition _ hchild
        rfl
  have hnone : n.literalKeys = [] := by
    rw [literalKeys, List.filterMap_eq_nil_iff]
    intro m hm
    rw [literalKey?, if_neg (by simpa using hkeys m hm)]
  have hpairs : n.keyWarnings = [] := by
    rw [keyWarnings, hnone]
    rfl
  cases method <;> first | rfl | exact hconditions | exact hpairs

theorem undoubted_nameCall (x : Token) : (nameCall x).Undoubted := by
  rw [nameCall_eq]
  refine .mk (warningsAt_eq_nil nofun ?_) ?_ <;> simp [childNodes, children, Child.node?]

theorem undoubted_of_no_slots (kind : Kind) (span : Span) : (Node.mk kind [] span).Undoubted := by
  refine .mk (warningsAt_eq_nil (fun m hm => ?_) fun m hm => ?_) fun m hm => ?_
  · cases hm
  · exact absurd hm List.not_mem_nil
  · exact absurd hm List.not_mem_nil

theorem kind_nest {P : Kind → Prop} (hn : P n.kind) (hsend : P .send) : P (nest names n).kind := by
  cases names with
  | nil => exact hn
  | cons y names => exact hsend

theorem undoubted_nest (h : n.Undoubted) (hkind : n.kind ≠ .pair) : (nest names n).Undoubted := by
  induction names with
  | nil => exact h
  | cons y names ih =>
      have hnodes : (nest (y :: names) n).childNodes = [nest names n] := rfl
      refine .mk (warningsAt_eq_nil nofun ?_) fun m hm => ?_
      · show ∀ m ∈ (nest (y :: names) n).childNodes, m.kind ≠ .pair
        rw [hnodes]
        exact List.forall_mem_singleton.mpr (kind_nest (P := (· ≠ .pair)) hkind nofun)
      · obtain rfl : m = nest names n := by simpa [← nest.eq_def] using hm
        exact ih

theorem undoubted_withBlock (h : n.Undoubted) (hkind : n.kind = .send) :
    (withBlock version n ⟨opening, none, none, closing⟩).Undoubted := by
  rw [withBlock_eq]
  refine .mk (warningsAt_eq_nil ?_ ?_) ?_
  · simpa [childNode?, child?, children, Child.node?] using hkind
  · have hpair : n.kind ≠ .pair := by
      rw [hkind]
      decide
    have hparams : (Node.mk .args [] opening.span.atEnd).kind ≠ .pair := fun h => by cases h
    simpa [childNodes, children, Child.node?] using ⟨hpair, hparams⟩
  · intro m hm
    obtain rfl | rfl : m = n ∨ m = .mk .args [] opening.span.atEnd := by simpa using hm
    · exact h
    · exact undoubted_of_no_slots _ _

end Trees

end RubySyntax.Node

namespace RubySyntax.Program

open Token Grammar Node

/-! ## §5. Programs. -/

/-- Tokens of names and a block, taken apart. -/
theorem exists_tokens {tokens : List Token} {names : List PlainName} {last : PlainName}
    {opening closing : Token.Kind × String}
    (h : tokens.map (fun t => (t.kind, t.value)) =
      nameTokens names ++ [(.tIDENTIFIER, last.text), opening, closing]) :
    ∃ xs x o c, tokens = xs ++ [x, o, c] ∧ (∀ t ∈ xs, t.kind = .tIDENTIFIER) ∧
      xs.map (·.value) = names.map (·.text) ∧ x.kind = .tIDENTIFIER ∧ x.value = last.text ∧
        o.kind = opening.1 ∧ c.kind = closing.1 := by
  obtain ⟨xs, ys, rfl, hxs, hys⟩ := List.map_eq_append_iff.mp h
  obtain ⟨x, ys, rfl, hx, hys⟩ := List.map_eq_cons_iff.mp hys
  obtain ⟨o, ys, rfl, ho, hys⟩ := List.map_eq_cons_iff.mp hys
  obtain ⟨c, ys, rfl, hc, hys⟩ := List.map_eq_cons_iff.mp hys
  obtain rfl := List.map_eq_nil_iff.mp hys
  have hkinds : xs.map (·.kind) = names.map fun _ => .tIDENTIFIER := by
    simpa [nameTokens, Function.comp_def] using congrArg (List.map Prod.fst) hxs
  have hvalues : xs.map (·.value) = names.map (·.text) := by
    simpa [nameTokens, Function.comp_def] using congrArg (List.map Prod.snd) hxs
  refine ⟨xs, x, o, c, rfl, fun t ht => ?_, hvalues, congrArg Prod.fst hx, congrArg Prod.snd hx,
    congrArg Prod.fst ho, congrArg Prod.fst hc⟩
  have hmem : t.kind ∈ xs.map (·.kind) := List.mem_map_of_mem ht
  rw [hkinds] at hmem
  obtain ⟨-, -, hkind⟩ := List.mem_map.mp hmem
  exact hkind.symm

/-- A program without warnings is read without a report. -/
theorem read_of_undoubted {version : Version} {text : String} {lexed : Lexed} {root n : Node}
    (hlex : lex text = (.ok lexed, [])) (hroot : readProgram lexed.tokens version = .ok (some root))
    (hresolve : resolveIn [] root = (n, [])) (hundoubted : n.Undoubted) :
    ∃ p, read version text = (.ok p, []) ∧ p.tree = n := by
  have htree : (some root).getD empty = root := rfl
  have hread := read_of_readProgram hlex hroot
  rw [htree, resolve, hresolve, warnings_of_undoubted hundoubted] at hread
  refine ⟨⟨n, lexed.comments, lexed.tokens⟩, hread.trans ?_, rfl⟩
  simp [Diagnostic.sortByStart]

/-- **A block between `do` and `end` belongs to the whole command, one between braces to the last
name.** -/
theorem read_blocks (version : Version) (names : List PlainName) (last : PlainName) :
    (∃ p, read version (String.ofList (joinNames names last ++ " do end".toList)) = (.ok p, []) ∧
      p.tree.unplaced = withEmptyBlock (nestedCalls (names.map (·.text)) (callOf last.text []))) ∧
    ∃ p, read version (String.ofList (joinNames names last ++ " \x7b \x7d".toList)) = (.ok p, []) ∧
      p.tree.unplaced =
        nestedCalls (names.map (·.text)) (withEmptyBlock (callOf last.text [])) := by
  obtain ⟨⟨lexed, hlex, htokens⟩, lexed', hlex', htokens'⟩ := lex_names names last
  constructor
  · -- between words: a block of the outermost call
    obtain ⟨xs, x, o, c, hsplit, hxs, hvalues, hx, hvalue, ho, hc⟩ := exists_tokens htokens
    have hroot := readProgram_doBlock version hxs hx ho hc
    rw [← hsplit] at hroot
    obtain ⟨p, hp, htree⟩ := read_of_undoubted hlex hroot (resolveIn_withBlock (resolveIn_calls xs x))
      (undoubted_withBlock (undoubted_nest (undoubted_nameCall x) nofun)
        (kind_nest (P := (· = .send)) rfl rfl))
    refine ⟨p, hp, ?_⟩
    rw [htree, unplaced_withBlock, unplaced_nest, unplaced_nameCall, hvalues, hvalue]
  · -- between braces: a block of the innermost one
    obtain ⟨xs, x, o, c, hsplit, hxs, hvalues, hx, hvalue, ho, hc⟩ := exists_tokens htokens'
    have hroot := readProgram_braceBlock version hxs hx ho hc
    rw [← hsplit] at hroot
    obtain ⟨p, hp, htree⟩ := read_of_undoubted hlex' hroot
      (resolveIn_nest (resolveIn_withBlock (resolveIn_nameCall x)))
      (undoubted_nest (undoubted_withBlock (undoubted_nameCall x) rfl) (by simp [withBlock, Node.kind]))
    refine ⟨p, hp, ?_⟩
    rw [htree, unplaced_nest, unplaced_withBlock, unplaced_nameCall, hvalues, hvalue]

end RubySyntax.Program
