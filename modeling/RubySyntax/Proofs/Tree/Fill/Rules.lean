/-
  RubySyntax.Proofs.Tree.Fill.Rules
  ─────────────────────────────────
  **THE RULES OF THE GRAMMAR FILL WHAT THEY READ.**

  `Symbol.Fills` says of the values of each symbol that they fill the tokens that they were read
  from.  Of some values only the end matters, since they stand behind something, of a list of
  statements only the beginning, and of a body or a parameter nothing, since brackets or keywords
  stand around it.  Each rule keeps it if the symbols that it refers to do.

  Main results:
    • `statementsRule_fills` — what stands before the first statement of a list,
    • `language_fills` — what symbols promise is closed under the rules of the language.
-/
import RubySyntax.Proofs.Tree.Fill

namespace RubySyntax.Grammar

open Token Grammar.Expr

/-! ## §1. What symbols promise. -/

/-- Which tokens the values of a symbol fill. -/
def Symbol.Fills (ts : OrderedTokens) (i j : Nat) : (s : Symbol) → s.Result → Prop
  | .statements, ns => ∃ k, ts.Idle i k ∧ (∀ n ∈ ns.head?, ts.Begins k n.span) ∧ (ns = [] → k = j)
  | .body, _ | .elseBranch, _ | .param _, _ => True
  | .callArgument, a => ts.Ends j a.node.span
  | .suffix, op => ts.Ends j op.last.span
  | .primary, c | .atom, c => ts.Fills i c.node.span j
  | .statement, n | .expression _, n | .expressionAtom, n | .commandCall, n | .command, n
  | .argument, n | .ternary, n | .range, n | .operation _, n | .operand, n | .assigned, n
  | .literal, n | .compound, n | .targetItem, n | .topPattern, n | .pattern, n
  | .keyPattern, n => ts.Fills i n.span j

/-- Readings in which every symbol fills what it was read from. -/
def filling (ts : OrderedTokens) (version : Version) : Context Symbol Symbol.Result :=
  ⟨ts.list.toArray, version, fun s i v j => s.Fills ts i j v⟩

/-- A node fills what it was read from. -/
abbrev Filled (ts : OrderedTokens) (i : Nat) (n : Node) (j : Nat) : Prop := ts.Fills i n.span j

variable {ts : OrderedTokens} {version : Version} {i j k : Nat}

theorem getElem?_of_token {kinds : List Kind} {t : Token}
    (h : (Expr.token kinds).Reads (filling ts version) i t j) :
    ts.list[i]? = some t ∧ t.kind ∈ kinds ∧ j = i + 1 := by
  obtain ⟨ht, hkind, hj⟩ := h
  rw [filling, List.getElem?_toArray] at ht
  exact ⟨ht, hkind, hj⟩

theorem token_fills {kinds : List Kind} {t : Token}
    (h : (Expr.token kinds).Reads (filling ts version) i t j) : ts.Fills i t.span j := by
  obtain ⟨ht, -, rfl⟩ := getElem?_of_token h
  exact OrderedTokens.fills_token ht

/-- What has been read again and again ends with the last element, unless nothing has been read. -/
theorem Repeats.last {α : Type} {R : Nat → α → Nat → Prop} {as : List α} (h : Repeats R i as j) :
    (as = [] ∧ j = i) ∨ ∃ a k, as.getLast? = some a ∧ R k a j := by
  induction h with
  | nil => exact .inl ⟨rfl, rfl⟩
  | @cons i k j a as head tail ih =>
      refine .inr ?_
      rcases ih with ⟨rfl, rfl⟩ | ⟨b, k', hlast, hb⟩
      · exact ⟨a, i, rfl, head⟩
      · exact ⟨b, k', by rw [List.getLast?_cons, hlast]; rfl, hb⟩

/-- An element and those after it end with the last one. -/
theorem Repeats.cons_last {α : Type} {R R' : Nat → α → Nat → Prop} {a : α} {as : List α}
    (ha : R i a k) (h : Repeats R' k as j) (hR : ∀ i b j, R' i b j → ∃ i', R i' b j) :
    ∃ b i', (a :: as).getLast? = some b ∧ R i' b j := by
  rcases h.last with ⟨rfl, rfl⟩ | ⟨b, k', hlast, hb⟩
  · exact ⟨a, i, rfl, ha⟩
  · obtain ⟨i', hb⟩ := hR _ _ _ hb
    exact ⟨b, i', by rw [List.getLast?_cons, hlast]; rfl, hb⟩

section Lists

variable {α β : Type} {x : Rule α} {sep : Rule β} {as : List α}

/-- The first and the last element of a list with something between the elements. -/
theorem sepBy1_ends (h : (sepBy1 x sep).Reads (filling ts version) i as j) :
    (∃ a k, as.head? = some a ∧ x.Reads (filling ts version) i a k) ∧
      ∃ a k, as.getLast? = some a ∧ x.Reads (filling ts version) k a j := by
  obtain ⟨a, rest, k, rfl, ha, hrest⟩ := h.sepBy1
  refine ⟨⟨a, k, rfl, ha⟩, hrest.cons_last ha fun i b j hb => ?_⟩
  obtain ⟨k', -, -, hb⟩ := hb.seqRight
  exact ⟨k', hb⟩

theorem plus_ends (h : (plus x).Reads (filling ts version) i as j) :
    (∃ a k, as.head? = some a ∧ x.Reads (filling ts version) i a k) ∧
      ∃ a k, as.getLast? = some a ∧ x.Reads (filling ts version) k a j := by
  obtain ⟨a, rest, k, rfl, ha, hrest⟩ := h.plus
  exact ⟨⟨a, k, rfl, ha⟩, hrest.cons_last ha fun i _ _ hb => ⟨i, hb⟩⟩

end Lists

/-- What covers all elements of a list fills what the list was read from. -/
theorem sepBy1_fills {x : Rule Node} {β : Type} {sep : Rule β} {ns : List Node} {s : Span}
    (h : (sepBy1 x sep).Reads (filling ts version) i ns j)
    (hx : ∀ i n j, x.Reads (filling ts version) i n j → Filled ts i n j)
    (hs : ∀ n ∈ ns, s.Contains n.span) : ts.Fills i s j := by
  obtain ⟨⟨a, k, hfirst, ha⟩, b, k', hlast, hb⟩ := sepBy1_ends h
  exact (hx _ _ _ ha).of_contains (hx _ _ _ hb) (hs a (List.mem_of_head? hfirst))
    (hs b (List.mem_of_getLast? hlast))

/-- A comma that may follow does not count. -/
theorem present_comma {s : Span} {b : Bool} (h : ts.Fills i s k)
    (hcomma : (present comma).Reads (filling ts version) k b j) : ts.Fills i s j := by
  obtain ⟨o, ho, -⟩ := hcomma
  rcases ho.opt with ⟨-, rfl⟩ | ⟨t, -, ht⟩
  · exact h
  · obtain ⟨htoken, hkind, rfl⟩ := getElem?_of_token ht
    exact ⟨h.begins, h.ends.comma htoken (List.mem_singleton.mp hkind)⟩

/-- What may follow makes a span longer, or is not there. -/
theorem opt_fills {α : Type} {x : Rule α} {s : Span} {o : Option α} {f : Option α → Span}
    (h : ts.Fills i s k) (ho : (opt x).Reads (filling ts version) k o j) (hnone : f none = s)
    (hsome : ∀ a, x.Reads (filling ts version) k a j → ts.Fills i (f (some a)) j) :
    ts.Fills i (f o) j := by
  rcases ho.opt with ⟨rfl, rfl⟩ | ⟨a, rfl, ha⟩
  · rwa [hnone]
  · exact hsome a ha

/-! ## §2. Shared expressions. -/

theorem primaryNode_fills : primaryNode.Yields (filling ts version) i (Filled ts i) := by
  intro c _ hc
  exact hc

theorem target_fills :
    (primaryTarget Node.target?).Yields (filling ts version) i (Filled ts i) := by
  intro c j hc t ht
  rw [Filled, Node.span_target? t ht]
  exact hc

theorem splatOrArgument_fills :
    splatOrArgument.Yields (filling ts version) i (Filled ts i) := by
  refine ⟨?_, ?_⟩
  · intro op _ hop value _ hvalue
    exact (token_fills hop).join hvalue
  · intro n _ hn
    exact hn

theorem terms_idle {vs : List Token} (h : Repeats (term.Reads (filling ts version)) i vs j) :
    ts.Idle i j := by
  induction h with
  | nil i => exact OrderedTokens.idle_refl i
  | cons head _ ih =>
      rcases head with head | head
      · obtain ⟨ht, hkind, rfl⟩ := getElem?_of_token head
        exact (OrderedTokens.idle_one ht (.inl (List.mem_singleton.mp hkind))).trans ih
      · obtain ⟨ht, hkind, rfl⟩ := getElem?_of_token head
        exact (OrderedTokens.idle_one ht (.inr (List.mem_singleton.mp hkind))).trans ih

/-! ## §3. Operations. -/

theorem oneLineMatch_fills {op : Kind} {feature : Version.Feature} :
    (oneLineMatch op feature).Yields (filling ts version) i (Filled ts i) := by
  intro value _ hvalue op _ _ p _ hp n hn _
  cases hn
  exact OrderedTokens.Fills.join hvalue hp

theorem expressionAtomRule_fills :
    expressionAtomRule.Yields (filling ts version) i (Filled ts i) := by
  refine ⟨oneLineMatch_fills, oneLineMatch_fills, ?_, ?_⟩
  · intro n _ hn
    exact hn
  · intro n _ hn
    exact hn

theorem ternaryRule_fills : ternaryRule.Yields (filling ts version) i (Filled ts i) := by
  refine ⟨?_, ?_⟩
  · intro cond _ hcond _ _ _ _ _ _ yes _ _ _ _ _ _ _ _ _ _ _ no _ hno
    exact OrderedTokens.Fills.join hcond hno
  · intro n _ hn
    exact hn

theorem range_fills {lhs rhs : Node} {op : Token} (hlhs : Filled ts i lhs k)
    (hrhs : ts.Ends j rhs.span) : Filled ts i (Node.range (some lhs) op (some rhs)) j := by
  refine ⟨hlhs.begins.of_contains ?_, hrhs.of_contains ?_⟩
  · exact (Span.join_contains_left _ _).trans (Span.join_contains_right _ _)
  · exact Span.join_contains_right _ _

theorem endless_fills {lhs : Node} {op : Token} (hlhs : Filled ts i lhs k)
    (hop : ts.Fills k op.span j) : Filled ts i (Node.range (some lhs) op none) j :=
  hlhs.of_contains hop (Span.join_contains_right _ _) (Span.join_contains_left _ _)

theorem rangeRule_fills : rangeRule.Yields (filling ts version) i (Filled ts i) := by
  refine ⟨?_, ?_, ?_, ?_⟩
  · -- `a..b`
    intro lhs _ hlhs op _ _ rhs _ hrhs
    exact range_fills hlhs (OrderedTokens.Fills.ends hrhs)
  · -- `a..`
    intro lhs _ hlhs op _ hop _
    exact endless_fills hlhs (token_fills hop)
  · -- `..b`
    intro op _ hop rhs _ hrhs _
    exact (token_fills hop).join hrhs
  · -- an operation
    intro n _ hn
    exact hn

theorem argumentRule_fills : argumentRule.Yields (filling ts version) i (Filled ts i) := by
  refine ⟨?_, ?_⟩
  · intro kw _ hkw _ _ _ value _ hvalue
    exact (token_fills hkw).join hvalue
  · intro n _ hn
    exact hn

/-- A value may have another one in its place, should it fail. -/
theorem fallback_fills {value : Node} {fallback : Option (Token × Node)}
    (hvalue : Filled ts i value k)
    (h : (opt (Prod.mk <$> tok .kRESCUE_MOD <*> argument)).Reads (filling ts version) k fallback j) :
    (fallback = none ∧ Filled ts i value j) ∨ ∃ kw other, fallback = some (kw, other) ∧
      Filled ts i (Node.rescueModifier value kw other) j := by
  obtain ⟨rfl, rfl⟩ | ⟨⟨kw, other⟩, rfl, k', _, ⟨t, ht, rfl⟩, n, hn, heq⟩ := h.opt
  · exact .inl ⟨rfl, hvalue⟩
  · cases heq
    exact .inr ⟨kw, other, rfl, hvalue.join ((token_fills ht).join hn)⟩

theorem assignedRule_fills : assignedRule.Yields (filling ts version) i (Filled ts i) := by
  refine ⟨?_, ?_⟩
  · intro value k hvalue fallback j h
    rcases fallback_fills hvalue h with ⟨rfl, hvalue⟩ | ⟨kw, other, rfl, hrescued⟩
    · exact hvalue
    · exact hrescued
  · intro value k hvalue fallback j h
    rcases fallback_fills hvalue h with ⟨rfl, hvalue⟩ | ⟨kw, other, rfl, hrescued⟩
    · exact hvalue
    · exact hrescued

theorem operandRule_fills : operandRule.Yields (filling ts version) i (Filled ts i) := by
  refine ⟨?_, ?_, primaryNode_fills⟩
  · intro target _ htarget _ _ _ value j hvalue n hn
    rw [Filled, Node.span_assign? n hn]
    exact OrderedTokens.Fills.join htarget hvalue
  · intro target _ htarget op _ _ value j hvalue n hn
    rw [Filled, Node.span_operatorAssign? op n hn]
    exact OrderedTokens.Fills.join htarget hvalue

theorem unary_fills {op : Token} {x : Node} {method : String}
    (hop : (filling ts version).tokens[i]? = some op) (hx : Filled ts (i + 1) x j) :
    Filled ts i (Node.unary op x method) j := by
  rw [filling, List.getElem?_toArray] at hop
  exact (OrderedTokens.fills_token hop).join hx

theorem operationRule_fills (level : Nat) :
    (operationRule level).Yields (filling ts version) i (Filled ts i) := by
  refine .of_reads fun n j h => climb_reads (P := Filled ts) ?_ ?_ ?_ ?_ h
  · exact fun u _ i op x j hop _ hx => unary_fills hop hx
  · intro b hb i x k op y j hx _ _ hy
    simp only [binaryLevels, List.mem_cons, List.not_mem_nil, or_false] at hb
    rcases hb with rfl | rfl | hb
    · exact hx.join hy
    · exact hx.join hy
    · have hcombine : b.combine = Node.binary := by
        rcases hb with rfl | rfl | rfl | rfl | rfl | rfl | rfl | rfl <;> rfl
      rw [hcombine]
      obtain ⟨hleft, hright⟩ := Node.binary_contains x op y
      exact hx.of_contains hy hleft hright
  · exact fun i n j h => h
  · exact fun l i n j h => h

theorem expressionRule_fills (level : Nat) :
    (expressionRule level).Yields (filling ts version) i (Filled ts i) := by
  refine .of_reads fun n j h => climb_reads (P := Filled ts) ?_ ?_ ?_ ?_ h
  · exact fun u _ i op x j hop _ hx => unary_fills hop hx
  · intro b hb i x k op y j hx _ _ hy
    cases List.mem_singleton.mp hb
    exact hx.join hy
  · exact fun i n j h => h
  · exact fun l i n j h => h

/-! ## §4. Blocks, arguments and commands. -/

/-- A block ends with its last token, a brace or an `end`. -/
theorem blockParts_ends {opening closing : Kind} {body : Rule (Option Node)} :
    (Node.BlockParts.mk <$> tok opening <*> opt blockParams <*> body <*> tok closing).Yields
      (filling ts version) i fun parts j => ts.Ends j parts.closing.span := by
  intro opening _ _ params _ _ body _ _ closing _ hclosing
  exact (token_fills hclosing).ends

theorem lambdaBody_ends : lambdaBody.Yields (filling ts version) i
    fun parts j => ts.Ends j parts.closing.span := by
  refine ⟨?_, ?_⟩
  · intro opening _ _ body _ _ closing _ hclosing
    exact (token_fills hclosing).ends
  · intro opening _ _ body _ _ closing _ hclosing
    exact (token_fills hclosing).ends

/-- A call with its block reaches to the end of the block. -/
theorem Filled.block {n m : Node} {s : Span} (hn : Filled ts i n k) (hs : ts.Ends j s)
    (hm : m.span = n.span.join s) : Filled ts i m j := by
  rw [Filled, hm]
  exact ⟨hn.begins.of_contains (Span.join_contains_left _ _),
    hs.of_contains (Span.join_contains_right _ _)⟩

theorem lambda_fills : lambda.Yields (filling ts version) i (Filled ts i) := by
  intro arrow k harrow params _ _ parts _ hparts n hn
  cases hn
  have hcallee : Filled ts i (Node.bare .lambdaArrow arrow) k := token_fills harrow
  exact hcallee.block (lambdaBody_ends.reads hparts) (Node.span_withBlock _ _ _)

theorem callArgumentRule_ends : callArgumentRule.Yields (filling ts version) i
    fun a j => ts.Ends j a.node.span := by
  have hmarked : ∀ {s t : Span} {j}, ts.Ends j t → ts.Ends j (s.join t) :=
    fun h => h.of_contains (Span.join_contains_right _ _)
  refine ⟨?_, ?_, ?_, ?_, ?_, ?_, ?_, ?_, ?_, ?_, ?_, ?_⟩
  · -- `...`
    rintro dots _ hdots _ _ ⟨rfl, -⟩ _
    exact (token_fills hdots).ends
  · -- `&block`
    intro op _ _ value _ hvalue
    exact hmarked (OrderedTokens.Fills.ends hvalue)
  · -- `&`
    intro op _ hop _
    exact (token_fills hop).ends
  · -- `**options`
    intro op _ _ value _ hvalue
    exact hmarked (OrderedTokens.Fills.ends hvalue)
  · -- `**`
    intro op _ hop _
    exact (token_fills hop).ends
  · -- `*values`
    intro op _ _ value _ hvalue
    exact hmarked (OrderedTokens.Fills.ends hvalue)
  · -- `*`
    intro op _ hop _
    exact (token_fills hop).ends
  · -- `key: value`
    intro label _ _ _ _ _ value _ hvalue
    exact hmarked (OrderedTokens.Fills.ends hvalue)
  · -- `key:`
    intro label _ hlabel _
    exact (token_fills hlabel).ends
  · -- `key => value`
    intro key _ _ _ _ _ value _ hvalue
    exact hmarked (OrderedTokens.Fills.ends hvalue)
  · -- a command
    intro n _ hn
    exact OrderedTokens.Fills.ends hn
  · -- a value
    intro n _ hn
    exact OrderedTokens.Fills.ends hn

/-- What is joined with the arguments of a command reaches to their end. -/
theorem commandArguments_fill {items : List Node.Argument} {s : Span} (hs : ts.Begins i s)
    (h : commandArguments.Reads (filling ts version) k items j) :
    ts.Fills i (Node.joinAll s (Node.arguments items)) j := by
  obtain ⟨-, a, k', hlast, ha⟩ := sepBy1_ends h
  exact ⟨hs.of_contains (Node.joinAll_contains_self _ _),
    OrderedTokens.Ends.of_contains ha (Node.joinAll_contains_last s hlast)⟩

theorem commandRule_fills : commandRule.Yields (filling ts version) i (Filled ts i) := by
  refine ⟨?_, ?_⟩
  · intro kw _ hkw items _ hitems
    exact commandArguments_fill (token_fills hkw).begins hitems
  · intro c _ hc c' hc' items j hitems n hn
    dsimp only at hc'
    split at hc'
    · cases hc'
      rw [Filled, Node.span_command? n hn]
      exact commandArguments_fill (OrderedTokens.Fills.begins hc) hitems
    · cases hc'

theorem commandCallRule_fills :
    commandCallRule.Yields (filling ts version) i (Filled ts i) := by
  refine ⟨?_, ?_⟩
  · intro c _ hc parts _ hparts n hn
    rcases hparts.opt with ⟨rfl, rfl⟩ | ⟨block, rfl, hblock⟩
    · cases hn
      exact hc
    · exact Filled.block hc (blockParts_ends.reads hblock) (Node.span_attachBlock? n hn)
  · intro a _ ha parts _ hparts n hn
    exact Filled.block ha (blockParts_ends.reads hparts) (Node.span_attachBlock? n hn)

/-! ## §5. Primary expressions. -/

theorem parenArguments_end : parenArguments.Yields (filling ts version) i
    fun p j => ts.Ends j p.2.span := by
  intro _ _ _ items _ _ closing _ hclosing
  exact (token_fills hclosing).ends

theorem methodSuffix_ends {dot name : Token} {args : Option Node.ParenArguments}
    (hname : ts.Ends k name.span)
    (hargs : (opt parenArguments).Reads (filling ts version) k args j) :
    ts.Ends j (Node.Suffix.method dot name args).last.span := by
  rcases hargs.opt with ⟨rfl, rfl⟩ | ⟨p, rfl, hp⟩
  · exact hname
  · exact parenArguments_end.reads hp

theorem suffixRule_ends : suffixRule.Yields (filling ts version) i
    fun op j => ts.Ends j op.last.span := by
  refine ⟨?_, ?_, ?_, ?_, ?_, blockParts_ends⟩
  · -- `.name`, with arguments or without
    intro dot _ _ name _ hname args _ hargs
    exact methodSuffix_ends (token_fills hname).ends hargs
  · -- `.()`
    intro dot _ _ args _ hargs
    exact parenArguments_end.reads hargs
  · -- `::Name`
    rintro _ _ _ name _ hname _ _ ⟨rfl, -⟩
    exact (token_fills hname).ends
  · -- `::name`, with arguments or without
    intro dot _ _ name _ hname args _ hargs
    exact methodSuffix_ends (token_fills hname).ends hargs
  · -- `[...]`
    intro _ _ _ items _ _ closing _ hclosing
    exact (token_fills hclosing).ends

/-- What follows a primary expression is applied to it step by step. -/
theorem applySuffixes?_fills {first : Node.Chain} {ops : List Node.Suffix}
    (hfirst : Filled ts i first.node k)
    (hops : Repeats ((Expr.call Symbol.suffix).Reads (filling ts version)) k ops j) :
    ∀ c ∈ Node.applySuffixes? version first ops, Filled ts i c.node j := by
  induction hops generalizing first with
  | nil k =>
      rintro c ⟨⟩
      exact hfirst
  | cons head tail ih =>
      intro c hc
      obtain ⟨next, hnext, hc⟩ := Option.bind_eq_some_iff.mp hc
      obtain ⟨hbefore, hlast⟩ := Node.applySuffix?_contains hnext
      exact ih ⟨hfirst.begins.of_contains hbefore, OrderedTokens.Ends.of_contains head hlast⟩ c hc

theorem primaryRule_fills : primaryRule.Yields (filling ts version) i
    fun c j => Filled ts i c.node j := by
  intro first _ hfirst ops _ hops c hc
  exact applySuffixes?_fills hfirst hops c hc

theorem atomRule_fills : atomRule.Yields (filling ts version) i
    fun c j => Filled ts i c.node j := by
  refine ⟨?_, ?_, ?_, ?_, ?_, ?_, ?_, ?_, ?_, ?_, ?_, ?_, ?_⟩
  · -- a literal
    intro n _ hn
    exact hn
  · -- a construct with an end of its own
    intro n _ hn
    exact hn
  · -- `defined?(x)`
    intro kw _ hkw _ _ _ _ _ _ value _ _ _ _ _ closing _ hclosing
    exact OrderedTokens.Fills.of_contains (token_fills hkw) (token_fills hclosing)
      ((Span.join_contains_left _ _).trans (Span.join_contains_left _ _))
      (Span.join_contains_right _ _)
  · -- `super`
    intro kw _ hkw args _ hargs
    refine opt_fills (f := fun args => (Node.superChain kw args).node.span) (token_fills hkw) hargs
      rfl fun p hp => ?_
    exact ⟨(token_fills hkw).begins.of_contains (Span.join_contains_left _ _),
      (parenArguments_end.reads hp).of_contains (Span.join_contains_right _ _)⟩
  · -- `yield`
    intro kw _ hkw args _ hargs
    refine opt_fills (f := fun args => (Node.yieldChain kw args).node.span) (token_fills hkw) hargs
      rfl fun p hp => ?_
    exact ⟨(token_fills hkw).begins.of_contains (Span.join_contains_left _ _),
      (parenArguments_end.reads hp).of_contains (Span.join_contains_right _ _)⟩
  · -- a jump that carries nothing
    intro kw _ hkw
    exact token_fills hkw
  · -- `::Name`
    intro colons _ hcolons name _ hname
    exact OrderedTokens.Fills.of_contains (token_fills hcolons) (token_fills hname)
      (Span.join_contains_right _ _) (Span.join_contains_left _ _)
  · -- `name(...)`
    rintro name _ hname ⟨items, closing⟩ j hargs
    show ts.Fills i (Node.functionCall name items closing).span j
    rw [Node.functionCall]
    exact ⟨(token_fills hname).begins.of_contains Node.call_contains.2.1,
      (parenArguments_end.reads hargs).of_contains (Node.call_contains.2.2.2 _ rfl)⟩
  · -- `name`
    intro t _ ht
    exact token_fills ht
  · -- `name?`, `name!`
    intro t _ ht
    exact token_fills ht
  · -- `Name`
    intro t _ ht
    exact token_fills ht
  · -- `@name`, `$name`
    intro t j ht
    show ts.Fills i (Node.markedVariable t).span j
    rw [Node.span_markedVariable]
    exact token_fills ht
  · -- `->`
    refine .of_reads ?_
    rintro c j ⟨n, hn, rfl⟩
    exact lambda_fills.reads hn

/-! ## §6. Literals. -/

theorem stringLiteral_fills : stringLiteral.Yields (filling ts version) i (Filled ts i) := by
  refine ⟨?_, ?_⟩
  · intro opening _ hopening parts _ _ closing j hclosing
    rw [Filled, Node.span_string]
    exact (token_fills hopening).join (token_fills hclosing)
  · intro t _ ht
    exact token_fills ht

theorem hashLiteral_fills : hashLiteral.Yields (filling ts version) i (Filled ts i) := by
  intro opening _ hopening _ _ _ pairs _ _ _ _ _ _ _ _ closing _ hclosing
  exact (token_fills hopening).join (token_fills hclosing)

theorem literalRule_fills : literalRule.Yields (filling ts version) i (Filled ts i) := by
  refine ⟨?_, ?_, ?_, ?_, ?_, ?_, ?_, ?_, ?_, ?_, ?_, ?_⟩
  · -- an integer
    intro t _ ht
    exact token_fills ht
  · -- a float
    intro t _ ht
    exact token_fills ht
  · -- a rational number
    intro t _ ht
    exact token_fills ht
  · -- an imaginary number
    intro t _ ht
    exact token_fills ht
  · -- strings one after the other
    refine .of_reads ?_
    rintro n j ⟨ns, hns, rfl⟩
    obtain ⟨⟨a, k, hfirst, ha⟩, b, k', hlast, hb⟩ := plus_ends hns
    exact OrderedTokens.Fills.of_contains (stringLiteral_fills.reads ha)
      (stringLiteral_fills.reads hb) (Node.concatenation_contains a (List.mem_of_head? hfirst))
      (Node.concatenation_contains b (List.mem_of_getLast? hlast))
  · -- a command string
    intro opening _ hopening parts _ _ closing _ hclosing
    exact (token_fills hopening).join (token_fills hclosing)
  · -- `:name`
    intro t _ ht
    exact token_fills ht
  · -- a symbol between quotes
    intro opening _ hopening parts _ _ closing j hclosing
    rw [Filled, Node.span_quotedSymbol]
    exact (token_fills hopening).join (token_fills hclosing)
  · -- `/pattern/`
    intro opening _ hopening parts _ _ closing _ _ flags _ hflags
    exact OrderedTokens.Fills.of_contains (token_fills hopening) (token_fills hflags)
      ((Span.join_contains_left _ _).trans (Span.join_contains_left _ _))
      ((Span.join_contains_left _ _).trans (Span.join_contains_right _ _))
  · -- `[...]`
    intro opening _ hopening items _ _ closing _ hclosing
    exact (token_fills hopening).join (token_fills hclosing)
  · exact .of_reads fun n j h => hashLiteral_fills.reads h
  · -- the words that stand for a value
    refine ⟨?_, ?_, ?_, ?_, ?_, ?_, ?_, ?_, ?_⟩ <;>
    · intro t _ ht
      exact token_fills ht

/-! ## §7. Statements. -/

theorem parenTargets_fills : parenTargets.Yields (filling ts version) i (Filled ts i) := by
  intro opening _ hopening items _ _ _ _ _ closing _ hclosing
  exact (token_fills hopening).join (token_fills hclosing)

theorem splatTarget_fills : splatTarget.Yields (filling ts version) i (Filled ts i) := by
  intro op k hop target j htarget
  refine opt_fills (f := fun target => (Node.splat op target).span) (token_fills hop) htarget rfl
    fun n hn => ?_
  exact (token_fills hop).join (target_fills.reads hn)

theorem targetItemRule_fills :
    targetItemRule.Yields (filling ts version) i (Filled ts i) :=
  ⟨parenTargets_fills, splatTarget_fills, target_fills⟩

/-- Of a list of targets only the beginning matters. -/
theorem targets_begins : targets.Yields (filling ts version) i fun n _ => ts.Begins i n.span := by
  have hmem : ∀ {n : Node} {ns : List Node}, n ∈ n :: ns := List.mem_cons_self
  refine ⟨?_, .of_reads ?_, .of_reads ?_⟩
  · intro first _ hfirst _ _ _ rest _ _ _ _ _
    exact (OrderedTokens.Fills.begins hfirst).of_contains (Node.targets_contains first hmem)
  · rintro n j ⟨m, hm, rfl⟩
    exact (splatTarget_fills.reads hm).begins.of_contains (Node.targets_contains m hmem)
  · rintro n j ⟨m, hm, rfl⟩
    exact (parenTargets_fills.reads hm).begins.of_contains (Node.targets_contains m hmem)

theorem multipleAssignment_fills :
    multipleAssignment.Yields (filling ts version) i (Filled ts i) := by
  refine targets_begins.mono fun left k hleft => ?_
  intro _ k' _ value j hvalue
  have hvalue : Filled ts k' value j := by
    rcases hvalue with hvalue | ⟨ns, hns, rfl⟩
    · exact hvalue
    · exact sepBy1_fills hns (fun _ _ _ h => splatOrArgument_fills.reads h)
        Node.multipleValues_contains
  exact ⟨hleft.of_contains (Span.join_contains_left _ _),
    hvalue.ends.of_contains (Span.join_contains_right _ _)⟩

theorem severalValues_fills : severalValues.Yields (filling ts version) i (Filled ts i) := by
  intro target _ htarget _ _ _ items j hitems n hn
  rw [Filled, Node.span_assignValues? n hn]
  exact OrderedTokens.Fills.join htarget
    (sepBy1_fills hitems (fun _ _ _ h => splatOrArgument_fills.reads h) Node.cover_contains)

theorem globalVariable_fills : globalVariable.Yields (filling ts version) i (Filled ts i) := by
  intro t j ht
  rw [Filled, Node.span_markedVariable]
  exact token_fills ht

theorem methodName_fills : methodName.Yields (filling ts version) i (Filled ts i) := by
  intro t _ ht
  exact token_fills ht

theorem plainStatement_fills : plainStatement.Yields (filling ts version) i (Filled ts i) := by
  refine ⟨?_, ?_, ?_, ?_, multipleAssignment_fills, severalValues_fills, ?_⟩
  · -- `alias $new $old`
    intro kw _ hkw new _ _ old _ hold
    exact (token_fills hkw).join (globalVariable_fills.reads hold)
  · -- `alias new old`
    intro kw _ hkw new _ _ old _ hold
    exact (token_fills hkw).join (methodName_fills.reads hold)
  · -- `undef a, b`
    intro kw _ hkw names _ hnames
    obtain ⟨-, n, k', hlast, hn⟩ := sepBy1_ends hnames
    exact OrderedTokens.Fills.of_contains (token_fills hkw) (methodName_fills.reads hn)
      (Node.joinAll_contains_self _ _) (Node.joinAll_contains n (List.mem_of_getLast? hlast))
  · -- a block before or after the program
    intro kw _ hkw _ _ _ ns _ _ closing _ hclosing
    exact (token_fills hkw).join (token_fills hclosing)
  · intro n _ hn
    exact hn

theorem statementRule_fills : statementRule.Yields (filling ts version) i (Filled ts i) := by
  refine plainStatement_fills.mono fun s k hs => ?_
  intro mods j hmods
  -- each modifier makes the statement longer
  induction (show Repeats (modifier.Reads (filling ts version)) k mods j from hmods)
    generalizing s with
  | nil k => exact hs
  | @cons k k' j mod mods head tail ih =>
      obtain ⟨kw, value⟩ := mod
      obtain ⟨_, _, ⟨t, _, rfl⟩, n, hn, heq⟩ := head
      cases heq
      obtain ⟨hbody, hvalue⟩ := Node.modified_contains s kw value
      exact ih (Node.modified s kw value)
        ⟨hs.begins.of_contains hbody, (OrderedTokens.Fills.ends hn).of_contains hvalue⟩ tail

theorem statementsRule_fills : statementsRule.Yields (filling ts version) i
    fun ns j => Symbol.statements.Fills ts i j ns := by
  refine .of_reads ?_
  intro ns j h
  obtain ⟨k, _, h, hback⟩ := h.seqLeft
  obtain ⟨k', _, hfront, h⟩ := h.seqRight
  have hfront := terms_idle hfront
  have hback := terms_idle hback
  rcases h.sepBy with h | ⟨rfl, rfl⟩
  · obtain ⟨⟨n, k'', hfirst, hn⟩, -⟩ := sepBy1_ends h
    refine ⟨k', hfront, ?_, fun hnil => ?_⟩
    · intro m hm
      cases hfirst.symm.trans hm
      exact OrderedTokens.Fills.begins hn
    · rw [hnil] at hfirst
      cases hfirst
  · exact ⟨j, hfront.trans hback, nofun, fun _ => rfl⟩

/-! ## §8. Constructs with an end of their own. -/

theorem caseExpression_fills : caseExpression.Yields (filling ts version) i (Filled ts i) := by
  refine ⟨?_, ?_⟩
  · intro kw _ hkw subject _ _ _ _ _ clauses _ _ otherwise _ _ closing _ hclosing
    exact (token_fills hkw).join (token_fills hclosing)
  · intro kw _ hkw subject _ _ _ _ _ clauses _ _ otherwise _ _ closing _ hclosing _
    exact (token_fills hkw).join (token_fills hclosing)

theorem methodDefinition_fills :
    methodDefinition.Yields (filling ts version) i (Filled ts i) := by
  refine ⟨?_, ?_⟩
  · intro kw _ hkw head _ _ params _ _ _ _ _ value j hvalue _
    rw [Filled, Node.span_methodDef]
    exact (token_fills hkw).join hvalue
  · intro kw _ hkw head _ _ params _ _ body _ _ closing j hclosing
    rw [Filled, Node.span_methodDef]
    exact (token_fills hkw).join (token_fills hclosing)

theorem classDefinition_fills :
    classDefinition.Yields (filling ts version) i (Filled ts i) := by
  refine ⟨?_, ?_⟩
  · intro kw _ hkw _ _ _ object _ _ body _ _ closing _ hclosing
    exact (token_fills hkw).join (token_fills hclosing)
  · intro kw _ hkw name _ _ parent _ _ body _ _ closing _ hclosing
    exact (token_fills hkw).join (token_fills hclosing)

theorem compoundRule_fills : compoundRule.Yields (filling ts version) i (Filled ts i) := by
  refine ⟨?_, ?_, ?_, ?_, caseExpression_fills, ?_, methodDefinition_fills,
    classDefinition_fills, ?_, ?_⟩
  · -- `if`
    intro kw _ hkw cond _ _ _ _ _ yes _ _ no _ _ closing _ hclosing
    exact (token_fills hkw).join (token_fills hclosing)
  · -- `unless`
    intro kw _ hkw cond _ _ _ _ _ no _ _ yes _ _ closing _ hclosing
    exact (token_fills hkw).join (token_fills hclosing)
  · -- `while`, `until`
    intro kw _ hkw cond _ _ _ _ _ body _ _ closing _ hclosing
    exact (token_fills hkw).join (token_fills hclosing)
  · -- `for`
    intro kw _ hkw var _ _ _ _ _ elements _ _ _ _ _ body _ _ closing _ hclosing
    exact (token_fills hkw).join (token_fills hclosing)
  · -- `begin`
    intro kw _ hkw ns _ _ closing _ hclosing
    exact (token_fills hkw).join (token_fills hclosing)
  · -- `module`
    intro kw _ hkw name _ _ body _ _ closing _ hclosing
    exact (token_fills hkw).join (token_fills hclosing)
  · -- statements between parentheses
    intro opening _ hopening ns _ _ closing _ hclosing
    exact (token_fills hopening).join (token_fills hclosing)

/-! ## §9. Patterns. -/

theorem matchRest_fills {kinds : List Kind} :
    (Node.matchRest <$> .token kinds <*> opt (tok .tIDENTIFIER) : Rule Node).Yields
      (filling ts version) i (Filled ts i) := by
  intro star _ hstar name _ hname
  refine opt_fills (f := fun name => (Node.matchRest star name).span) (token_fills hstar) hname rfl
    fun t ht => ?_
  exact (token_fills hstar).join (token_fills ht)

theorem patternItem_fills : patternItem.Yields (filling ts version) i (Filled ts i) := by
  refine ⟨matchRest_fills, ?_⟩
  intro n _ hn
  exact hn

theorem keyPatternRule_fills :
    keyPatternRule.Yields (filling ts version) i (Filled ts i) := by
  refine ⟨?_, ?_, ?_, matchRest_fills⟩
  · -- `key: pattern`
    intro label _ hlabel pattern _ hpattern
    exact (token_fills hlabel).join hpattern
  · -- `key:`
    intro label _ hlabel
    exact token_fills hlabel
  · -- `**nil`
    intro star _ hstar nil_ _ hnil
    exact (token_fills hstar).join (token_fills hnil)

theorem constants_fill {head : Node} {names : List Token} (hhead : Filled ts i head k)
    (h : Repeats ((tok .tCOLON2 *> tok .tCONSTANT : Rule Token).Reads (filling ts version)) k names
      j) : Filled ts i (names.foldl (fun scope n => Node.constant (some scope) n) head) j := by
  induction h generalizing head with
  | nil k => exact hhead
  | cons name names ih =>
      obtain ⟨_, _, _, hname⟩ := name.seqRight
      exact ih (hhead.of_contains (token_fills hname) (Span.join_contains_right _ _)
        (Span.join_contains_left _ _))

theorem patternConstant_fills :
    patternConstant.Yields (filling ts version) i (Filled ts i) := by
  constructor
  · intro colons _ hcolons name _ hname names _ hnames
    refine constants_fill ?_ hnames
    exact OrderedTokens.Fills.of_contains (token_fills hcolons) (token_fills hname)
      (Span.join_contains_right _ _) (Span.join_contains_left _ _)
  · intro name _ hname names _ hnames
    exact constants_fill (token_fills hname) hnames

theorem patternScalar_fills : patternScalar.Yields (filling ts version) i (Filled ts i) := by
  refine .of_reads ?_
  intro n j h
  obtain ⟨k, _, ⟨rfl, -⟩, hn⟩ := h.seqRight
  exact primaryNode_fills.reads hn

theorem patternValue_fills : patternValue.Yields (filling ts version) i (Filled ts i) := by
  refine ⟨.of_reads ?_, .of_reads ?_, ?_, patternScalar_fills⟩
  · -- `a..b`
    rintro n j ⟨_, _, ⟨_, _, ⟨lhs, hlhs, rfl⟩, op, _, rfl⟩, rhs, hrhs, rfl⟩
    exact range_fills (patternScalar_fills.reads hlhs) (patternScalar_fills.reads hrhs).ends
  · -- `a..`
    rintro n j ⟨_, _, ⟨lhs, hlhs, rfl⟩, op, hop, rfl⟩
    exact endless_fills (patternScalar_fills.reads hlhs) (token_fills hop)
  · -- `..b`
    intro op _ hop rhs _ hrhs
    exact (token_fills hop).join (patternScalar_fills.reads hrhs)

theorem pinTarget_fills : pinTarget.Yields (filling ts version) i (Filled ts i) := by
  refine ⟨?_, ?_, ?_⟩
  · intro opening _ hopening value _ _ closing _ hclosing
    exact (token_fills hopening).join (token_fills hclosing)
  · intro t _ ht
    exact token_fills ht
  · intro t j ht
    rw [Filled, Node.span_markedVariable]
    exact token_fills ht

theorem patternPrimary_fills :
    patternPrimary.Yields (filling ts version) i (Filled ts i) := by
  refine ⟨?_, ?_, .of_reads ?_, .of_reads ?_, ?_, patternValue_fills, ?_⟩
  · -- `[...]`
    intro opening _ hopening items _ _ trailing _ _ closing _ hclosing
    exact (token_fills hopening).join (token_fills hclosing)
  · -- `{...}`
    intro opening _ hopening _ _ _ items _ _ _ _ _ _ _ _ closing _ hclosing
    exact (token_fills hopening).join (token_fills hclosing)
  · -- `Name(key: ...)`
    rintro n j ⟨_, _, ⟨_, _, ⟨_, _, ⟨scope, hscope, rfl⟩, opening, _, rfl⟩, items, _, rfl⟩,
      closing, hclosing, rfl⟩
    exact (patternConstant_fills.reads hscope).join (token_fills hclosing)
  · -- `Name(...)`
    rintro n j ⟨_, _, ⟨_, _, ⟨_, _, ⟨_, _, ⟨scope, hscope, rfl⟩, opening, _, rfl⟩, items, _, rfl⟩,
      trailing, _, rfl⟩, closing, hclosing, rfl⟩
    exact (patternConstant_fills.reads hscope).join (token_fills hclosing)
  · -- `^x`
    intro caret _ hcaret value _ hvalue
    exact (token_fills hcaret).join (pinTarget_fills.reads hvalue)
  · intro t _ ht
    exact token_fills ht

theorem patternAlternatives_fills :
    patternAlternatives.Yields (filling ts version) i (Filled ts i) := by
  refine patternPrimary_fills.mono fun first k hfirst => ?_
  intro rest j hrest
  induction (show Repeats ((tok .tPIPE *> patternPrimary : Rule Node).Reads (filling ts version)) k
    rest j from hrest) generalizing first with
  | nil k => exact hfirst
  | cons head tail ih =>
      obtain ⟨_, _, _, hn⟩ := head.seqRight
      exact ih _ (hfirst.join (patternPrimary_fills.reads hn)) tail

theorem patternRule_fills : patternRule.Yields (filling ts version) i (Filled ts i) := by
  refine ⟨.of_reads ?_, patternAlternatives_fills⟩
  rintro n j ⟨_, _, ⟨_, _, ⟨_, ⟨pattern, hpattern, rfl⟩, rfl⟩, _, _, rfl⟩, name, hname, rfl⟩
  exact (patternAlternatives_fills.reads hpattern).join (token_fills hname)

theorem topPatternRule_fills :
    topPatternRule.Yields (filling ts version) i (Filled ts i) := by
  refine ⟨.of_reads ?_, .of_reads ?_⟩
  · rintro n j ⟨items, hitems, rfl⟩
    exact sepBy1_fills hitems (fun _ _ _ h => h) Node.cover_contains
  · rintro n j ⟨k, g, ⟨items, hitems, rfl⟩, trailing, htrailing, rfl⟩
    refine present_comma ?_ htrailing
    exact sepBy1_fills hitems (fun _ _ _ h => patternItem_fills.reads h)
      (Node.topPattern_contains trailing)

/-! ## §10. The grammar. -/

/-- **The grammar fills what it reads.** -/
theorem language_fills : language.Closed (filling ts version) := by
  intro s i v j h
  cases s with
  | statements => exact statementsRule_fills.reads h
  | statement => exact statementRule_fills.reads h
  | expression level => exact (expressionRule_fills level).reads h
  | expressionAtom => exact expressionAtomRule_fills.reads h
  | commandCall => exact commandCallRule_fills.reads h
  | command => exact commandRule_fills.reads h
  | argument => exact argumentRule_fills.reads h
  | ternary => exact ternaryRule_fills.reads h
  | range => exact rangeRule_fills.reads h
  | operation level => exact (operationRule_fills level).reads h
  | operand => exact operandRule_fills.reads h
  | assigned => exact assignedRule_fills.reads h
  | callArgument => exact callArgumentRule_ends.reads h
  | primary => exact primaryRule_fills.reads h
  | suffix => exact suffixRule_ends.reads h
  | atom => exact atomRule_fills.reads h
  | literal => exact literalRule_fills.reads h
  | compound => exact compoundRule_fills.reads h
  | elseBranch | body | param _ => exact True.intro
  | targetItem => exact targetItemRule_fills.reads h
  | topPattern => exact topPatternRule_fills.reads h
  | pattern => exact patternRule_fills.reads h
  | keyPattern => exact keyPatternRule_fills.reads h

end RubySyntax.Grammar
