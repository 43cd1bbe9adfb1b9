/-
  RubySyntax.Proofs.Tree.Depth
  ────────────────────────────
  **THE DEPTH OF A TREE.**

  The scan counts the brackets and blocks that are open, and gives up where they are more than
  `maxNesting`.  What it counts is not the depth of the tree.  An operator before its operand
  opens nothing, and neither does an operator that groups to the right or what follows a value;
  each of them is one more level of the tree.

      !!…!1    n marks, nothing open, a tree of depth n + 1

  Main results:
    • `depth_resolve` — resolving names keeps the depth of a tree,
    • `Negating.step` — a step through marks of negation opens nothing,
    • `gives_negated` — so many marks before a number are so many levels,
    • `Program.depth_unbounded` — the nesting of what is read is bounded, and its depth is not.
-/
import RubySyntax.Proofs.Grammar.Giving
import RubySyntax.Proofs.Program
import RubySyntax.Proofs.Token.Reach
import RubySyntax.Proofs.Tree.Resolve

namespace RubySyntax.Node

/-! ## §1. Depth. -/

mutual

/-- The number of nodes on the longest way down. -/
def depth : Node → Nat
  | .mk _ children _ => 1 + childrenDepth children

/-- The greatest depth of the nodes in some slots. -/
def childrenDepth : List Child → Nat
  | [] => 0
  | c :: rest => max (childDepth c) (childrenDepth rest)

/-- The depth of the node in a slot. -/
def childDepth : Child → Nat
  | .node n => n.depth
  | _ => 0

end

/-- **Resolving names keeps the depth of a tree.** -/
theorem depth_resolveIn (n : Node) : ∀ names, (resolveIn names n).1.depth = n.depth := by
  induction n using ind with
  | mk kind children span ih =>
      intro names
      rcases resolveIn_mk names kind children span with ⟨rfl, h | h⟩ | ⟨-, slots, hslots, h⟩
      · rw [h]
      · simp [h, depth, childrenDepth, childDepth]
      · rw [h, depth, depth]
        congr 1
        clear h
        induction hslots with
        | nil => rfl
        | @cons c d before after hc _ ihrest =>
            have hdepth : childDepth d = childDepth c := by
              cases hc with
              | node names n => exact ih n List.mem_cons_self names
              | other => rfl
            rw [childrenDepth, childrenDepth, hdepth,
              ihrest fun n hn => ih n (List.mem_cons_of_mem _ hn)]

theorem depth_resolve (n : Node) : n.resolve.depth = n.depth := depth_resolveIn n []

theorem depth_unary (op : Token) (operand : Node) (method : String) :
    (unary op operand method).depth = operand.depth + 1 := by
  simp [unary, depth, childrenDepth, childDepth, Nat.add_comm]

theorem depth_integer (t : Token) : (integer t).depth = 1 := by
  rw [integer]
  cases integerValue? t.value.toList <;> rfl

end RubySyntax.Node

namespace RubySyntax.Token

open Lexer

/-! ## §2. The nesting of a scan. -/

section Nesting

variable {text : String} {lexed : Lexed}

/-- A text that is split into tokens is never nested too deeply. -/
theorem nesting_le_of_lex (h : (lex text).1 = .ok lexed) {s : State}
    (hs : Reachable text.toList s) : s.nesting ≤ maxNesting := by
  have hrun : ∀ {s : State}, Reachable text.toList s →
      s.nesting ≤ maxNesting ∧ ∃ n e, Ends n s e ∧ e = (State.start text.toList).run := by
    intro s hs
    induction hs with
    | start =>
        obtain ⟨n, -, hends⟩ := (.start : Reachable text.toList _).ends
        exact ⟨Nat.zero_le _, n, _, hends, rfl⟩
    | step hs hstep ih =>
        obtain ⟨-, n, e, hends, he⟩ := ih
        cases hends with
        | stop hstop => exact absurd hstep (hstop _)
        | deep hstep' _ =>
            -- a scan that is nested too deeply fails
            rw [lex, ← he] at h
            cases h
        | next hstep' hflat hends =>
            cases hstep.symm.trans hstep'
            exact ⟨hflat, _, _, hends, he⟩
  exact (hrun hs).1

end Nesting

/-! ## §3. Marks of negation. -/

/-- So many marks before a number. -/
def negated (n : Nat) : List Char := List.replicate n '!' ++ ['1']

/-- The kinds of the tokens of so many marks before a number. -/
def negatedKinds (n : Nat) : List Kind := List.replicate n .tBANG ++ [.tINTEGER]

/-- A state within so many marks before a number, or behind them, in which nothing is open. -/
structure Negating (n : Nat) (s : State) : Prop where
  modes : s.modes = []
  brackets : s.brackets = []
  blocks : s.blocks = 0
  rest : (∃ k, s.rest = negated k ∧ s.expect = .value ∧
      (s.tokens.map (·.kind)).reverse ++ negatedKinds k = negatedKinds n) ∨
    s.rest = [] ∧ (s.tokens.map (·.kind)).reverse = negatedKinds n

theorem negating_start (n : Nat) : Negating n (State.start (negated n)) :=
  ⟨rfl, rfl, rfl, .inl ⟨n, rfl, rfl, rfl⟩⟩

theorem Negating.nesting {n : Nat} {s : State} (h : Negating n s) : s.nesting = 0 := by
  rw [State.nesting, State.depth, h.brackets, h.blocks]
  rfl

/-- Code that begins no document, no end marker and no blank is a token. -/
theorem step_eq_token {s : State} {c : Char} {rest : List Char} (hrest : s.rest = c :: rest)
    (hmodes : s.modes = []) (hline : c ≠ '_' ∧ c ≠ '=') (hblank : State.blankLength? s.rest = none) :
    s.step = .next (s.token c) := by
  have hmarker : s.atEndMarker = false := by
    simp [State.atEndMarker, State.sees, hrest, List.isPrefixOf, hline.1.symm]
  have hdocument : s.atDocument = false := by
    simp [State.atDocument, State.sees, hrest, List.isPrefixOf, hline.2.symm]
  rw [hrest] at hblank
  simp [State.step, State.stepCode, hmodes, hmarker, hdocument, hrest, hblank]

/-- A step at a mark is an operator. -/
theorem step_bang {s : State} {k : Nat} (hrest : s.rest = negated (k + 1)) (hmodes : s.modes = [])
    (hexpect : s.expect = .value) : s.step = .next (s.operator .tBANG 1) := by
  have hcons : s.rest = '!' :: negated k := hrest
  rw [step_eq_token hcons hmodes (by decide) (by rw [hcons]; rfl)]
  have hfind : findSpelling plainPunctuation s.rest = some ("!", some .tBANG) := by
    rw [hcons]
    cases k <;> rfl
  have hpunctuation : s.punctuation '!' = s.operator .tBANG 1 := by
    rw [State.punctuation, hfind]
    rfl
  rw [← hpunctuation, State.token, hexpect]
  rfl

/-- A step at the number is a number. -/
theorem step_one {s : State} (hrest : s.rest = negated 0) (hmodes : s.modes = []) :
    s.step = .next (s.number 0 false) := by
  rw [step_eq_token hrest hmodes (by decide) (by rw [hrest]; rfl)]
  rfl

theorem number_one {s : State} (hrest : s.rest = negated 0) :
    s.number 0 false = { s.emit .tINTEGER 1 ['1'] with expect := .operator } := by
  rw [State.number, hrest]
  rfl

/-- **A step through marks of negation opens nothing.** -/
theorem Negating.step {n : Nat} {s s' : State} (h : Negating n s) (hs : s.step = .next s') :
    Negating n s' := by
  obtain ⟨hmodes, hbrackets, hblocks, ⟨k, hrest, hexpect, hkinds⟩ | ⟨hrest, hkinds⟩⟩ := h
  · -- a mark is left to read, or only the number
    cases k with
    | zero =>
        cases (step_one hrest hmodes).symm.trans hs
        refine ⟨hmodes, hbrackets, ?_, .inr ⟨?_, ?_⟩⟩
        · rw [number_one hrest]
          exact hblocks
        · rw [number_one hrest]
          show s.rest.drop 1 = []
          rw [hrest]
          rfl
        · rw [number_one hrest, ← hkinds]
          exact List.reverse_cons
    | succ k =>
        cases (step_bang hrest hmodes hexpect).symm.trans hs
        refine ⟨hmodes, hbrackets, hblocks, .inl ⟨k, ?_, rfl, ?_⟩⟩
        · show s.rest.drop 1 = _
          rw [hrest]
          rfl
        · rw [← hkinds, negatedKinds, negatedKinds, List.replicate_succ, List.cons_append]
          show (Kind.tBANG :: s.tokens.map (·.kind)).reverse ++ _ = _
          rw [List.reverse_cons, List.append_assoc]
          rfl
  · rw [step_of_rest_eq_nil hrest hmodes] at hs
    cases hs

/-- The states of a scan of marks and a number. -/
theorem Negating.of_reachable {n : Nat} {s : State} (h : Reachable (negated n) s) :
    Negating n s := by
  induction h with
  | start => exact negating_start n
  | step _ hs ih => exact ih.step hs

/-- The scan of marks and a number ends behind the number. -/
theorem Negating.ends {n steps : Nat} {s : State} {e : Step} (hends : Ends steps s e)
    (h : Negating n s) : ∃ s', e = .finish s' ∧ Negating n s' ∧ s'.rest = [] := by
  induction hends with
  | @stop s hstop =>
      obtain ⟨k, hrest, hexpect, -⟩ | ⟨hrest, -⟩ := h.rest
      · cases k with
        | zero => exact absurd (step_one hrest h.modes) (hstop _)
        | succ k => exact absurd (step_bang hrest h.modes hexpect) (hstop _)
      · exact ⟨s, step_of_rest_eq_nil hrest h.modes, h, hrest⟩
  | deep hs hdeep =>
      have := (h.step hs).nesting
      rw [State.nesting] at this
      omega
  | next hs _ _ ih => exact ih (h.step hs)

/-- Marks and a number are so many tokens. -/
theorem lex_negated (n : Nat) : ∃ lexed, (lex (String.ofList (negated n))).1 = .ok lexed ∧
    lexed.tokens.map (·.kind) = negatedKinds n := by
  obtain ⟨steps, -, hends⟩ := (.start : Reachable (negated n) _).ends
  obtain ⟨s, hrun, hs, hrest⟩ := Negating.ends hends (negating_start n)
  rw [hrun, ← String.toList_ofList (l := negated n)] at hends
  have hlex := lex_of_ends hends hs.modes
  refine ⟨_, congrArg Prod.fst hlex, ?_⟩
  obtain ⟨k, hk, -⟩ | ⟨-, hkinds⟩ := hs.rest
  · rw [hrest] at hk
    cases k <;> cases hk
  · rw [List.map_reverse, hkinds]

end RubySyntax.Token

namespace RubySyntax.Grammar

open Token

/-! ## §4. Negations. -/

section Negations

variable {version : Version} {tokens : Array Token}

/-- **So many marks before a number are so many levels** above it. -/
theorem gives_negated (n : Nat) : ∀ {i level : Nat} {rest : List Token}, Remain tokens i rest →
    rest.map (·.kind) = negatedKinds n →
      ∃ m, Gives tokens version (.call (Symbol.operation level)) i m tokens.size ∧
        m.depth = n + 1 := by
  induction n with
  | zero =>
      intro i level rest h hkinds
      obtain ⟨t, rfl, hkind⟩ : ∃ t, rest = [t] ∧ t.kind = .tINTEGER := by
        simpa [negatedKinds, List.map_eq_cons_iff] using hkinds
      have hliteral : Gives tokens version (.call Symbol.literal) i (Node.integer t) tokens.size :=
        h.size ▸ gives_call (gives_orElse_first (gives_map
          (gives_token h.head (List.mem_singleton.mpr hkind))))
      have hfirst : tokens[i]?.map (·.kind) = some .tINTEGER := by
        rw [h.head, Option.map_some, hkind]
      -- no unary operator begins with a number, so its level falls through to the literal
      have hunary : ∀ u ∈ unaryLevels, leavesOut (some .tINTEGER) u.kinds = true := by decide
      refine ⟨_, gives_operation (fun u hu => fails_of_leavesOut hfirst (hunary u hu)) stopsAt_size
        (gives_of_literal hliteral).2, Node.depth_integer t⟩
  | succ n ih =>
      intro i level rest h hkinds
      obtain ⟨t, rest, rfl, hkind, hrest⟩ : ∃ t more, rest = t :: more ∧ t.kind = .tBANG ∧
          more.map (·.kind) = negatedKinds n := by
        simpa [negatedKinds, List.replicate_succ, List.map_eq_cons_iff] using hkinds
      obtain ⟨m, hm, hdepth⟩ : ∃ m, Gives tokens version (.call (Symbol.operation 11)) (i + 1) m
          tokens.size ∧ m.depth = n + 1 := ih h.tail hrest
      have hfirst : tokens[i]?.map (·.kind) = some .tBANG := by
        rw [h.head, Option.map_some, hkind]
      have hhead : Gives tokens version (operationRule level) i (Node.unary t m "!") tokens.size :=
        gives_climb (gives_orElse_second (fails_of_refusesFirst hfirst rfl)
          (gives_orElse_first (gives_seq (gives_map
            (gives_token h.head (List.mem_singleton.mpr hkind))) hm))) (binary_fails_at_end _)
      exact ⟨_, gives_call hhead, by rw [Node.depth_unary, hdepth]⟩

/-- Marks before a number are read as one tree. -/
theorem readProgram_negated (version : Version) {tokens : List Token} {n : Nat}
    (h : tokens.map (·.kind) = negatedKinds (n + 1)) :
    ∃ m, readProgram tokens version = .ok (some m) ∧ m.depth = n + 2 := by
  have hremain : Remain tokens.toArray 0 tokens := rfl
  obtain ⟨m, hm, hdepth⟩ : ∃ m, Gives tokens.toArray version (.call (Symbol.operation 0)) 0 m
      tokens.toArray.size ∧ m.depth = n + 2 := gives_negated (n + 1) hremain h
  obtain ⟨t, more, rfl, hkind⟩ : ∃ t more, tokens = t :: more ∧ t.kind = .tBANG := by
    obtain ⟨t, more, rfl, hkind, -⟩ := List.map_eq_cons_iff.mp h
    exact ⟨t, more, rfl, hkind⟩
  have hfirst : (t :: more).toArray[0]?.map (·.kind) = some .tBANG := by simp [hkind]
  have hinert : Inert (t :: more).toArray version := .inl (fails_of_refusesFirst hfirst rfl)
  refine ⟨m, readProgram_of_operation hinert (t := t) (by simp) ?_ hm, hdepth⟩
  rw [hkind]
  decide

end Negations

end RubySyntax.Grammar

namespace RubySyntax.Program

open Token Lexer

/-! ## §5. Programs. -/

/-- **The nesting of what is read is bounded, and its depth is not.**  While a program is scanned
that can be read, no more than `maxNesting` brackets and blocks are open; but whatever the bound
there is a program, in every version, in which nothing is ever open and whose tree is deeper. -/
theorem depth_unbounded (bound : Nat) :
    (∀ version text p, (read version text).1 = .ok p →
      ∀ s, Reachable text.toList s → s.nesting ≤ maxNesting) ∧
    ∃ text, (∀ s, Reachable text.toList s → s.nesting = 0) ∧
      ∀ version, ∃ p, (read version text).1 = .ok p ∧ bound < p.tree.depth := by
  refine ⟨fun version text p h s hs => ?_, ?_⟩
  · obtain ⟨lexed, found, hlex, -⟩ := eq_of_read h
    exact nesting_le_of_lex (congrArg Prod.fst hlex) hs
  · refine ⟨String.ofList (negated (bound + 1)), fun s hs => ?_, fun version => ?_⟩
    · rw [String.toList_ofList] at hs
      exact (Negating.of_reachable hs).nesting
    · obtain ⟨lexed, hlex, hkinds⟩ := lex_negated (bound + 1)
      obtain ⟨m, hread, hdepth⟩ := Grammar.readProgram_negated version hkinds
      have htext := read_of_readProgram (Prod.ext hlex rfl) hread
      refine ⟨_, congrArg Prod.fst htext, ?_⟩
      show bound < m.resolve.depth
      rw [Node.depth_resolve, hdepth]
      omega

/-- In the one program brackets and a block are open, in the other nothing is, and its tree is deeper
than brackets may be nested. -/
theorem depth_unbounded_nested :
    (∃ p, (read ⟨3, 4⟩ "!(a do [!1] end)").1 = .ok p ∧
      ∀ s, Reachable "!(a do [!1] end)".toList s → s.nesting ≤ maxNesting) ∧
    ∃ text p, (∀ s, Reachable text.toList s → s.nesting = 0) ∧ (read ⟨3, 4⟩ text).1 = .ok p ∧
      maxNesting < p.tree.depth := by
  have hread : ((read ⟨3, 4⟩ "!(a do [!1] end)").1.toOption.any fun _ => true) = true := by
    decide +kernel
  obtain ⟨p, hp, -⟩ := exists_of_any hread
  obtain ⟨hnesting, text, hflat, hdeep⟩ := depth_unbounded maxNesting
  obtain ⟨p', hp', hdepth⟩ := hdeep ⟨3, 4⟩
  exact ⟨⟨p, hp, hnesting _ _ p hp⟩, text, p', hflat, hp', hdepth⟩

end RubySyntax.Program
