/-
  RubySyntax.Proofs.Grammar.Giving
  ────────────────────────────────
  **FROM WHAT AN OPERATION GIVES TO A WHOLE PROGRAM.**

  To say that a text is read, one has to say for each ordered choice which alternatives fail.
  Most of them fail at their first token, and whether an expression refuses a first token is read
  off the expression.  So a program that consists of one operation is read through all the rules
  above an operation at once: each of them falls back on the next one.

  Main results:
    • `fails_of_refuses` — an expression fails where it refuses the first token,
    • `gives_climb` — an operand without operators is an operation of any level,
    • `readProgram_of_operation` — a program that is one operation is read as that operation.
-/
import RubySyntax.Proofs.Grammar.Derivation

namespace RubySyntax.Grammar

open Token

/-! ## §1. Giving and failing. -/

section Giving

variable (tokens : Array Token) (version : Version)

/-- An expression finds a value between two positions, whatever its trace. -/
def Gives {α : Type} (e : Rule α) (i : Nat) (v : α) (j : Nat) : Prop :=
  ∃ t, e.Finds (language.derived tokens version) i (some (v, j)) t

/-- An expression finds nothing from a position on, whatever its trace. -/
def Fails {α : Type} (e : Rule α) (i : Nat) : Prop :=
  ∃ t, e.Finds (language.derived tokens version) i none t

end Giving

section Combinators

variable {tokens : Array Token} {version : Version} {α β : Type} {i j k : Nat}

theorem gives_call {s : Symbol} {v : s.Result} (h : Gives tokens version (rule s) i v j) :
    Gives tokens version (.call s) i v j := by
  obtain ⟨t, h⟩ := h
  exact ⟨t, Rules.upholds_derived language tokens version s i _ t h⟩

theorem fails_call {s : Symbol} (h : Fails tokens version (rule s) i) :
    Fails tokens version (.call s) i := by
  obtain ⟨t, h⟩ := h
  exact ⟨t, Rules.upholds_derived language tokens version s i none t h⟩

theorem gives_token {kinds : List Kind} {t : Token} (ht : tokens[i]? = some t)
    (hkind : t.kind ∈ kinds) : Gives tokens version (.token kinds) i t (i + 1) :=
  ⟨.none, .here ht hkind⟩

theorem gives_map {f : α → β} {x : Rule α} {v : α} (h : Gives tokens version x i v j) :
    Gives tokens version (.map f x) i (f v) j := by
  obtain ⟨t, h⟩ := h
  exact ⟨t, .finds h⟩

theorem fails_map {f : α → β} {x : Rule α} (h : Fails tokens version x i) :
    Fails tokens version (.map f x) i := by
  obtain ⟨t, h⟩ := h
  exact ⟨t, .fails h⟩

theorem gives_seq {f : Rule (α → β)} {x : Rule α} {g : α → β} {v : α}
    (hf : Gives tokens version f i g k) (hx : Gives tokens version x k v j) :
    Gives tokens version (.seq f x) i (g v) j := by
  obtain ⟨t, hf⟩ := hf
  obtain ⟨u, hx⟩ := hx
  exact ⟨t ++ u, .both hf hx⟩

theorem fails_seq {f : Rule (α → β)} {x : Rule α} (h : Fails tokens version f i) :
    Fails tokens version (.seq f x) i := by
  obtain ⟨t, h⟩ := h
  exact ⟨t, .first h⟩

theorem fails_seq_second {f : Rule (α → β)} {x : Rule α} {g : α → β}
    (hf : Gives tokens version f i g k) (hx : Fails tokens version x k) :
    Fails tokens version (.seq f x) i := by
  obtain ⟨t, hf⟩ := hf
  obtain ⟨u, hx⟩ := hx
  exact ⟨t ++ u, .second hf hx⟩

theorem gives_check {f : Version → α → Option β} {x : Rule α} {v : α} {w : β}
    (h : Gives tokens version x i v j) (hf : f version v = some w) :
    Gives tokens version (.check f x) i w j := by
  obtain ⟨t, h⟩ := h
  exact ⟨t, .finds h hf⟩

theorem fails_check {f : Version → α → Option β} {x : Rule α} (h : Fails tokens version x i) :
    Fails tokens version (.check f x) i := by
  obtain ⟨t, h⟩ := h
  exact ⟨t, .fails h⟩

theorem fails_check_refused {f : Version → α → Option β} {x : Rule α} {v : α}
    (h : Gives tokens version x i v j) (hf : f version v = none) :
    Fails tokens version (.check f x) i := by
  obtain ⟨t, h⟩ := h
  exact ⟨t ++ Trace.test j, .refuses h hf⟩

theorem fails_since {v₀ : Version} {x : Rule α} (h : Fails tokens version x i) :
    Fails tokens version (.since v₀ x) i := by
  obtain ⟨t, h⟩ := h
  exact ⟨t, .fails h⟩

theorem gives_orElse_first {a b : Rule α} {v : α} (h : Gives tokens version a i v j) :
    Gives tokens version (.orElse a b) i v j := by
  obtain ⟨t, h⟩ := h
  exact ⟨t, .first h⟩

theorem gives_orElse_second {a b : Rule α} {v : α} (ha : Fails tokens version a i)
    (hb : Gives tokens version b i v j) : Gives tokens version (.orElse a b) i v j := by
  obtain ⟨t, ha⟩ := ha
  obtain ⟨u, hb⟩ := hb
  exact ⟨t ++ u, .second ha hb⟩

theorem fails_orElse {a b : Rule α} (ha : Fails tokens version a i)
    (hb : Fails tokens version b i) : Fails tokens version (.orElse a b) i := by
  obtain ⟨t, ha⟩ := ha
  obtain ⟨u, hb⟩ := hb
  exact ⟨t ++ u, .second ha hb⟩

theorem gives_done {v : α} : Gives tokens version (.done v) i v i := ⟨.none, rfl, rfl⟩

theorem gives_opt_some {x : Rule α} {v : α} (h : Gives tokens version x i v j) :
    Gives tokens version (Expr.opt x) i (some v) j :=
  gives_orElse_first (gives_map h)

theorem gives_opt_none {x : Rule α} (h : Fails tokens version x i) :
    Gives tokens version (Expr.opt x) i none i :=
  gives_orElse_second (fails_map h) gives_done

theorem gives_star_nil {x : Rule α} (h : Fails tokens version x i) :
    Gives tokens version (.star x) i [] i := by
  obtain ⟨t, h⟩ := h
  exact ⟨t, [], i, rfl, .stop h⟩

theorem gives_star_cons {x : Rule α} {v : α} {vs : List α} (hx : Gives tokens version x i v k)
    (h : Gives tokens version (.star x) k vs j) :
    Gives tokens version (.star x) i (v :: vs) j := by
  obtain ⟨t, hx⟩ := hx
  obtain ⟨u, as, l, heq, h⟩ := h
  cases heq
  exact ⟨t ++ u, v :: vs, j, rfl, .more hx h⟩

theorem gives_finish (h : tokens.size ≤ i) : Gives tokens version .finish i () i :=
  ⟨.none, .holds h⟩

end Combinators

/-! ## §2. Refusing a first token. -/

/-- Whether an expression fails at its first token, where it is known of some sets of kinds and of
some symbols that they do. -/
def Expr.refuses (absent : List Kind → Bool) (called : Symbol → Bool) : {α : Type} → Rule α → Bool
  | _, .token kinds => absent kinds
  | _, .seq f _ => f.refuses absent called
  | _, .map _ x | _, .check _ x | _, .since _ x => x.refuses absent called
  | _, .orElse a b => a.refuses absent called && b.refuses absent called
  | _, .call s => called s
  | _, _ => false

/-- Whether a set of kinds leaves out that of the first token; `none` is the end of the tokens. -/
def leavesOut (first : Option Kind) (kinds : List Kind) : Bool :=
  first.all fun kind => !kinds.contains kind

/-- Whether a symbol fails at a first token, as far as rules that call each other `fuel` deep can
tell. -/
def Symbol.refuses (first : Option Kind) : (fuel : Nat) → Symbol → Bool
  | 0, _ => false
  | fuel + 1, s => (rule s).refuses (leavesOut first) (Symbol.refuses first fuel)

/-- Whether an expression fails at a first token, as far as all rules can tell. -/
def Expr.refusesFirst {α : Type} (first : Option Kind) (e : Rule α) : Bool :=
  e.refuses (leavesOut first) (Symbol.refuses first Symbol.depth)

section Refusing

variable {tokens : Array Token} {version : Version} {α : Type} {i : Nat} {first : Option Kind}

/-- An expression fails where it refuses the first token, if what is known is so. -/
theorem fails_of_refuses {absent : List Kind → Bool} {called : Symbol → Bool}
    (habsent : ∀ kinds, absent kinds = true → Fails tokens version (.token kinds : Rule Token) i)
    (hcalled : ∀ s, called s = true → Fails tokens version (.call s) i) {e : Rule α}
    (h : e.refuses absent called = true) : Fails tokens version e i := by
  induction e with
  | token kinds => exact habsent kinds h
  | seq f x ihf _ => exact fails_seq (ihf h)
  | map f x ih => exact fails_map (ih h)
  | check f x ih => exact fails_check (ih h)
  | since v x ih => exact fails_since (ih h)
  | orElse a b iha ihb =>
      simp only [Expr.refuses, Bool.and_eq_true] at h
      exact fails_orElse (iha h.1) (ihb h.2)
  | call s => exact hcalled s h
  | _ => cases h

theorem fails_of_leavesOut (hfirst : tokens[i]?.map (·.kind) = first) {kinds : List Kind}
    (h : leavesOut first kinds = true) : Fails tokens version (.token kinds : Rule Token) i := by
  cases htok : tokens[i]? with
  | none => exact ⟨_, .past htok⟩
  | some tok =>
      rw [htok] at hfirst
      subst hfirst
      refine ⟨_, .other htok fun hmem => ?_⟩
      simp [leavesOut, hmem] at h

/-- A symbol fails where its rules refuse the first token. -/
theorem fails_of_symbol_refuses (hfirst : tokens[i]?.map (·.kind) = first) :
    ∀ (fuel : Nat) (s : Symbol), s.refuses first fuel = true → Fails tokens version (.call s) i := by
  intro fuel
  induction fuel with
  | zero => intro s h; cases h
  | succ fuel ih =>
      intro s h
      exact fails_call (fails_of_refuses (fun _ => fails_of_leavesOut hfirst) ih h)

/-- **An expression fails where it refuses the first token.** -/
theorem fails_of_refusesFirst {e : Rule α} (hfirst : tokens[i]?.map (·.kind) = first)
    (h : e.refusesFirst first = true) : Fails tokens version e i :=
  fails_of_refuses (fun _ => fails_of_leavesOut hfirst) (fails_of_symbol_refuses hfirst _) h

/-- Alternatives that refuse the first token are passed over. -/
theorem gives_firstOf_of_refuses {j : Nat} {last : Rule α} {v : α}
    (hfirst : tokens[i]?.map (·.kind) = first) (m : Nat) {es : List (Rule α)}
    (hes : (es.take m).all (·.refusesFirst first) = true)
    (h : Gives tokens version (Expr.firstOf (es.drop m) last) i v j) :
    Gives tokens version (Expr.firstOf es last) i v j := by
  induction m generalizing es with
  | zero => exact h
  | succ m ih =>
      cases es with
      | nil => exact h
      | cons e es =>
          rw [List.take_succ_cons, List.all_cons, Bool.and_eq_true] at hes
          exact gives_orElse_second (fails_of_refusesFirst hfirst hes.1) (ih hes.2 h)

/-- At the end of the tokens an expression fails that reads a token first. -/
theorem fails_at_end {e : Rule α} (h : e.refusesFirst none = true) :
    Fails tokens version e tokens.size :=
  fails_of_refusesFirst (by rw [Array.getElem?_eq_none (Nat.le_refl _)]; rfl) h

end Refusing

/-! ## §3. What is left of the tokens. -/

section Remain

variable {tokens : Array Token} {i : Nat} {t : Token} {rest : List Token}

/-- From a position on there are some tokens, and no others. -/
def Remain (tokens : Array Token) (i : Nat) (rest : List Token) : Prop :=
  tokens.toList.drop i = rest

theorem Remain.head (h : Remain tokens i (t :: rest)) : tokens[i]? = some t := by
  have := congrArg List.head? h
  rwa [List.head?_drop, Array.getElem?_toList] at this

theorem Remain.tail (h : Remain tokens i (t :: rest)) : Remain tokens (i + 1) rest := by
  rw [Remain, ← List.drop_drop, h]
  rfl

theorem Remain.append {before after : List Token} (h : Remain tokens i (before ++ after)) :
    Remain tokens (i + before.length) after := by
  rw [Remain, ← List.drop_drop, h, List.drop_left]

theorem Remain.kind (h : Remain tokens i rest) :
    tokens[i]?.map (·.kind) = rest.head?.map (·.kind) := by
  rw [← h, List.head?_drop, Array.getElem?_toList]

/-- Behind the last token the tokens end. -/
theorem Remain.size (h : Remain tokens i [t]) : i + 1 = tokens.size := by
  have hlt : i < tokens.size := (Array.getElem?_eq_some_iff.mp h.head).1
  have hnil : tokens.toList.drop (i + 1) = [] := h.tail
  rw [List.drop_eq_nil_iff, Array.length_toList] at hnil
  omega

end Remain

/-! ## §4. Operations. -/

section Operations

variable {tokens : Array Token} {version : Version} {i j : Nat} {n : Node}

theorem fails_foldl_orElse {α : Type} {es : List (Rule α)} {e : Rule α}
    (he : Fails tokens version e i) (hes : ∀ e ∈ es, Fails tokens version e i) :
    Fails tokens version (es.foldl Expr.orElse e) i := by
  induction es generalizing e with
  | nil => exact he
  | cons e' es ih =>
      refine ih (fails_orElse he (hes e' List.mem_cons_self)) fun e h => ?_
      exact hes e (List.mem_cons_of_mem _ h)

theorem gives_firstOf_last {α : Type} {es : List (Rule α)} {last : Rule α} {v : α}
    (hes : ∀ e ∈ es, Fails tokens version e i) (h : Gives tokens version last i v j) :
    Gives tokens version (Expr.firstOf es last) i v j := by
  induction es with
  | nil => exact h
  | cons e es ih =>
      exact gives_orElse_second (hes e List.mem_cons_self)
        (ih fun e h => hes e (List.mem_cons_of_mem _ h))

/-- **An operand without operators is an operation of any level.** -/
theorem gives_climb {unary : List UnaryLevel} {binary : List BinaryLevel} {atom : Rule Node}
    {operand : Nat → Rule Node} {level : Nat}
    (hfirst : Gives tokens version (Expr.firstOf (unary.map (·.head operand)) atom) i n j)
    (hbinary : ∀ b ∈ binary, Fails tokens version (.token b.kinds : Rule Token) j) :
    Gives tokens version (climb unary binary atom operand level) i n j := by
  have htails : ∀ e ∈ (binary.filter (level ≤ ·.level)).map (·.tail operand),
      Fails tokens version e j := by
    intro e he
    obtain ⟨b, hb, rfl⟩ := List.mem_map.mp he
    exact fails_seq (fails_map (hbinary b (List.mem_filter.mp hb).1))
  simp only [climb]
  split
  next => exact hfirst
  next tail tails heq =>
    rw [heq] at htails
    have hnone := fails_foldl_orElse (htails tail List.mem_cons_self)
      fun e he => htails e (List.mem_cons_of_mem _ he)
    exact gives_seq (gives_map hfirst) (gives_star_nil hnone)

/-- At the end of the tokens there are no operators. -/
theorem binary_fails_at_end (binary : List BinaryLevel) :
    ∀ b ∈ binary, Fails tokens version (.token b.kinds : Rule Token) tokens.size :=
  fun _ _ => fails_at_end rfl

/-- What goes on behind an operand: an assignment, a conditional, a range, an operator. -/
def kindsBehind : List Kind :=
  [.tEQL, .tOP_ASGN, .tEH] ++ rangePoints ++ binaryLevels.flatMap (·.kinds)

/-- Nothing goes on behind an operand. -/
def StopsAt (tokens : Array Token) (j : Nat) : Prop :=
  leavesOut (tokens[j]?.map (·.kind)) kindsBehind = true

theorem stopsAt_size : StopsAt tokens tokens.size := by
  rw [StopsAt, Array.getElem?_eq_none (Nat.le_refl _)]
  rfl

theorem StopsAt.fails (h : StopsAt tokens j) (kinds : List Kind)
    (hkinds : ∀ kind ∈ kinds, kind ∈ kindsBehind) :
    Fails tokens version (.token kinds : Rule Token) j := by
  refine fails_of_leavesOut rfl ?_
  rw [StopsAt] at h
  generalize tokens[j]?.map (·.kind) = first at h
  cases first with
  | none => rfl
  | some kind =>
      have hnot : kind ∉ kindsBehind := by simpa [leavesOut] using h
      simpa [leavesOut] using fun hmem => hnot (hkinds kind hmem)

theorem StopsAt.fails_binary (h : StopsAt tokens j) :
    ∀ b ∈ binaryLevels, Fails tokens version (.token b.kinds : Rule Token) j :=
  fun b hb => h.fails b.kinds fun _ hkind =>
    List.mem_append_right _ (List.mem_flatMap.mpr ⟨b, hb, hkind⟩)

/-- A primary expression is an operand, if nothing goes on behind it. -/
theorem gives_operand_of_primary {c : Node.Chain} (hc : Gives tokens version primary i c j)
    (hend : StopsAt tokens j) : Gives tokens version (.call Symbol.operand) i c.node j := by
  refine gives_call (gives_orElse_second ?_ (gives_orElse_second ?_ (gives_map hc)))
  · exact fails_check (fails_seq (fails_seq_second (gives_map (gives_map hc))
      (hend.fails [.tEQL] (by decide))))
  · exact fails_check (fails_seq (fails_seq_second (gives_map hc)
      (hend.fails [.tOP_ASGN] (by decide))))

/-- A literal that ends the tokens is a primary expression and an operand. -/
theorem gives_of_literal (hn : Gives tokens version (.call Symbol.literal) i n tokens.size) :
    Gives tokens version primary i (.closed n) tokens.size ∧
      Gives tokens version (.call Symbol.operand) i n tokens.size := by
  have hatom : Gives tokens version (.call Symbol.atom) i (.closed n) tokens.size :=
    gives_call (gives_orElse_first (gives_map hn))
  have hprimary : Gives tokens version primary i (.closed n) tokens.size :=
    gives_call (gives_check (gives_seq (gives_map hatom) (gives_star_nil (fails_at_end rfl))) rfl)
  exact ⟨hprimary, gives_operand_of_primary hprimary stopsAt_size⟩

/-- An operand is an operation of any level, if no operator stands before it and nothing goes on
behind it. -/
theorem gives_operation {level : Nat}
    (hunary : ∀ u ∈ unaryLevels, Fails tokens version (.token u.kinds : Rule Token) i)
    (hend : StopsAt tokens j) (hn : Gives tokens version (.call Symbol.operand) i n j) :
    Gives tokens version (.call (Symbol.operation level)) i n j := by
  refine gives_call <| show Gives tokens version (operationRule level) i n j from
    gives_climb (gives_firstOf_last (fun e he => ?_) hn) hend.fails_binary
  obtain ⟨u, hu, rfl⟩ := List.mem_map.mp he
  exact fails_seq (fails_map (hunary u hu))

end Operations

/-! ## §5. A program that is one operation. -/

section Program

variable {tokens : Array Token} {version : Version} {n : Node} {t : Token}

/-- The kinds that the rules above an operation read first, commands and targets apart. -/
def kindsAbove : List Kind :=
  [.tNL, .tSEMI, .kALIAS, .kUNDEF, .klBEGIN, .klEND, .kNOT, .kDEFINED] ++ parens ++ stars ++
    openPoints ++ jumps

/-- The primary expression at the beginning, if there is one, neither names a command nor is a
target. -/
def Inert (tokens : Array Token) (version : Version) : Prop :=
  Fails tokens version primary 0 ∨ ∃ c j, Gives tokens version primary 0 c j ∧
    c.isOpen = false ∧ Node.target? c.node = none ∧ Fails tokens version (Expr.tok .tEQL) j

/-- An expression fails at a kind that is not among those above an operation, if it reads one of
those first, or calls what fails. -/
theorem fails_of_leads {i : Nat} (ht : tokens[i]? = some t) (hlead : t.kind ∉ kindsAbove)
    {α : Type} {e : Rule α} (called : List Symbol)
    (hcalled : ∀ s ∈ called, Fails tokens version (.call s) i)
    (h : e.refuses (·.all kindsAbove.contains) called.contains = true) :
    Fails tokens version e i := by
  refine fails_of_refuses (fun kinds hkinds => ⟨_, .other ht fun hmem => hlead ?_⟩)
    (fun s hs => hcalled s (List.contains_iff_mem.mp hs)) h
  exact List.contains_iff_mem.mp (List.all_eq_true.mp hkinds _ hmem)

theorem Inert.fails_target (h : Inert tokens version) :
    Fails tokens version (primaryTarget Node.target?) 0 := by
  obtain h | ⟨c, j, h, -, htarget, -⟩ := h
  · exact fails_check h
  · exact fails_check_refused h htarget

theorem Inert.fails_severalValues (h : Inert tokens version) :
    Fails tokens version severalValues 0 := by
  refine fails_check (fails_seq ?_)
  obtain h | ⟨c, j, h, -, -, heql⟩ := h
  · exact fails_seq (fails_map (fails_map h))
  · exact fails_seq_second (gives_map (gives_map h)) heql

theorem Inert.fails_command (h : Inert tokens version) (ht : tokens[0]? = some t)
    (hlead : t.kind ∉ kindsAbove) : Fails tokens version (.call Symbol.command) 0 := by
  have hname : Fails tokens version
      (Expr.filterMap (fun c => if c.isOpen then some c else none) primary : Rule Node.Chain) 0 := by
    obtain h | ⟨c, j, h, hopen, -⟩ := h
    · exact fails_check h
    · exact fails_check_refused h (by rw [if_neg (by rw [hopen]; decide)])
  refine fails_call (fails_orElse ?_ ?_)
  · exact fails_of_leads ht hlead [] nofun rfl
  · exact fails_check (fails_seq (fails_map hname))

theorem Inert.fails_targets (h : Inert tokens version) (ht : tokens[0]? = some t)
    (hlead : t.kind ∉ kindsAbove) : Fails tokens version targets 0 := by
  have hparens : Fails tokens version parenTargets 0 := fails_of_leads ht hlead [] nofun rfl
  have hsplat : Fails tokens version splatTarget 0 := fails_of_leads ht hlead [] nofun rfl
  have hitem : Fails tokens version (.call Symbol.targetItem) 0 :=
    fails_call (fails_orElse hparens (fails_orElse hsplat h.fails_target))
  exact fails_of_leads ht hlead [.targetItem] (List.forall_mem_singleton.mpr hitem) rfl

/-- An operation is an argument, if nothing goes on behind it. -/
theorem gives_argument {i j : Nat} (ht : tokens[i]? = some t) (hlead : t.kind ∉ kindsAbove)
    (hend : StopsAt tokens j) (hn : Gives tokens version operation i n j) :
    Gives tokens version argument i n j := by
  have hpoints : Fails tokens version (.token rangePoints : Rule Token) j :=
    hend.fails _ (by decide)
  have hrange : Gives tokens version (.call Symbol.range) i n j := by
    refine gives_call (gives_orElse_second ?_ (gives_orElse_second ?_ (gives_orElse_second ?_ hn)))
    · exact fails_seq (fails_seq_second (gives_map hn) hpoints)
    · exact fails_since (fails_seq_second (gives_map hn) hpoints)
    · exact fails_of_leads ht hlead [] nofun rfl
  have hmark : Fails tokens version (Expr.tok .tEH) j := hend.fails [.tEH] (by decide)
  have hternary : Gives tokens version (.call Symbol.ternary) i n j := by
    refine gives_call (gives_orElse_second ?_ hrange)
    -- the conditional operator lacks its question mark, and all behind that
    exact fails_seq (fails_seq (fails_map (fails_seq (fails_map (fails_seq (fails_map
      (fails_seq (fails_seq (fails_map (fails_seq_second (gives_map (gives_map hrange))
        hmark))))))))))
  exact gives_call (gives_orElse_second (fails_of_leads ht hlead [] nofun rfl) hternary)

/-- An argument is no match with a pattern, if no arrow and no `in` stands behind it. -/
theorem fails_oneLineMatch {i j : Nat} {op : Kind} {feature : Version.Feature}
    (hn : Gives tokens version argument i n j) (hop : Fails tokens version (Expr.tok op) j) :
    Fails tokens version (oneLineMatch op feature) i :=
  fails_since (fails_check (fails_seq (fails_seq_second (gives_map hn) hop)))

/-- An expression between logical words that is all is a statement, if it is no assignment. -/
theorem gives_statement_of_atom (ht : tokens[0]? = some t) (hlead : t.kind ∉ kindsAbove)
    (htargets : Fails tokens version multipleAssignment 0)
    (hvalues : Fails tokens version severalValues 0)
    (hn : Gives tokens version (.call Symbol.expressionAtom) 0 n tokens.size) :
    Gives tokens version (.call Symbol.statement) 0 n tokens.size := by
  have hexpression : Gives tokens version expression 0 n tokens.size :=
    gives_call <| show Gives tokens version (expressionRule 0) 0 n tokens.size from
      gives_climb (gives_orElse_second (fails_of_leads ht hlead [] nofun rfl) hn)
        (binary_fails_at_end _)
  have hplain : Gives tokens version plainStatement 0 n tokens.size := by
    refine gives_orElse_second (fails_of_leads ht hlead [] nofun rfl)
      (gives_orElse_second (fails_of_leads ht hlead [] nofun rfl)
        (gives_orElse_second (fails_of_leads ht hlead [] nofun rfl)
          (gives_orElse_second (fails_of_leads ht hlead [] nofun rfl) ?_)))
    exact gives_orElse_second htargets (gives_orElse_second hvalues hexpression)
  exact gives_call (gives_seq (gives_map hplain) (gives_star_nil (fails_at_end rfl)))

/-- An operation that is neither a command nor a target is a statement. -/
theorem gives_statement (h : Inert tokens version) (ht : tokens[0]? = some t)
    (hlead : t.kind ∉ kindsAbove) (hn : Gives tokens version operation 0 n tokens.size) :
    Gives tokens version (.call Symbol.statement) 0 n tokens.size := by
  have hargument := gives_argument ht hlead stopsAt_size hn
  have hcommand := h.fails_command ht hlead
  have hcommandCall : Fails tokens version commandCall 0 := by
    refine fails_call (fails_orElse ?_ ?_)
    · exact fails_check (fails_seq (fails_map hcommand))
    · exact fails_check (fails_seq_second (gives_map hargument) (fails_at_end rfl))
  have hatom : Gives tokens version (.call Symbol.expressionAtom) 0 n tokens.size :=
    gives_call (gives_orElse_second (fails_oneLineMatch hargument (fails_at_end rfl))
      (gives_orElse_second (fails_oneLineMatch hargument (fails_at_end rfl))
        (gives_orElse_second hcommandCall hargument)))
  have hmultiple : Fails tokens version multipleAssignment 0 :=
    fails_seq (fails_seq (fails_map (fails_map (h.fails_targets ht hlead))))
  exact gives_statement_of_atom ht hlead hmultiple h.fails_severalValues hatom

/-- A program that is one statement is read as that statement. -/
theorem readProgram_of_statement {tokens : List Token} (ht : tokens.toArray[0]? = some t)
    (hlead : t.kind ∉ kindsAbove)
    (hn : Gives tokens.toArray version (.call Symbol.statement) 0 n tokens.toArray.size) :
    readProgram tokens version = .ok (some n) := by
  have hmore : Fails tokens.toArray version (terms *> .call Symbol.statement)
      tokens.toArray.size := fails_at_end rfl
  have hlist : Gives tokens.toArray version (Expr.sepBy (.call Symbol.statement) terms) 0 [n]
      tokens.toArray.size :=
    gives_orElse_first (gives_seq (gives_map hn) (gives_star_nil hmore))
  have hstatements : Gives tokens.toArray version statements 0 [n] tokens.toArray.size :=
    gives_call (gives_seq (gives_map (gives_seq (gives_map
      (gives_star_nil (fails_of_leads ht hlead [] nofun rfl))) hlist))
      (gives_star_nil (fails_at_end rfl)))
  obtain ⟨_, hprogram⟩ : Gives tokens.toArray version program 0 (some n) tokens.toArray.size :=
    gives_seq (gives_map (gives_map hstatements)) (gives_finish (Nat.le_refl _))
  exact readProgram_eq_of_finds hprogram

/-- **A program that is one operation is read as that operation.** -/
theorem readProgram_of_operation {tokens : List Token}
    (h : Inert tokens.toArray version) (ht : tokens.toArray[0]? = some t)
    (hlead : t.kind ∉ kindsAbove)
    (hn : Gives tokens.toArray version operation 0 n tokens.toArray.size) :
    readProgram tokens version = .ok (some n) :=
  readProgram_of_statement ht hlead (gives_statement h ht hlead hn)

end Program

end RubySyntax.Grammar
