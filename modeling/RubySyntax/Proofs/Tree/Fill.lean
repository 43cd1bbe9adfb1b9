/-
  RubySyntax.Proofs.Tree.Fill
  ───────────────────────────
  **SPANS THAT REACH TO BOTH ENDS.**

  A span fills the tokens from one position to another if it begins with the first of them or
  before it and reaches to the end of the last; a comma at the end does not count, as the list of
  patterns in `x in a,` does not cover its last comma.  Spans are joined, so a node fills the tokens
  that it was read from if its first part begins with the first token and its last part ends with
  the last.

  Main results:
    • `Fills.join`, `Fills.of_contains` — joined spans,
    • `call_contains`, `applySuffix?_contains`, … — the parts that a node covers.
-/
import RubySyntax.Proofs.Tree.Place.Rules

namespace RubySyntax

open Token

/-! ## §1. Spans. -/

namespace OrderedTokens

variable (ts : OrderedTokens)

/-- A span begins with the token at a position, if there is one, or before it. -/
def Begins (i : Nat) (s : Span) : Prop := ∀ t, ts.list[i]? = some t → s.start ≤ t.span.start

/-- A span reaches to the end of the tokens before a position, commas aside. -/
def Ends (j : Nat) (s : Span) : Prop :=
  ∀ m t, m < j → ts.list[m]? = some t → t.kind = .tCOMMA ∨ t.span.stop ≤ s.stop

/-- A span reaches from the token at a position to the end of the tokens before another one. -/
structure Fills (i : Nat) (s : Span) (j : Nat) : Prop where
  begins : ts.Begins i s
  ends : ts.Ends j s

/-- Only newlines and semicolons stand between two positions. -/
def Idle (i j : Nat) : Prop :=
  ∀ m t, i ≤ m → m < j → ts.list[m]? = some t → t.kind = .tNL ∨ t.kind = .tSEMI

variable {ts} {i j k k' m : Nat} {a b s : Span} {t : Token}

theorem Begins.of_contains (h : ts.Begins i a) (hs : s.Contains a) : ts.Begins i s :=
  fun t ht => Nat.le_trans hs.start_le (h t ht)

theorem Ends.of_contains (h : ts.Ends j a) (hs : s.Contains a) : ts.Ends j s :=
  fun m t hm ht => (h m t hm ht).imp_right fun hstop => Nat.le_trans hstop hs.stop_le

/-- What covers a first part and a last part fills what they do. -/
theorem Fills.of_contains (ha : ts.Fills i a k) (hb : ts.Fills k' b j) (hsa : s.Contains a)
    (hsb : s.Contains b) : ts.Fills i s j :=
  ⟨ha.begins.of_contains hsa, hb.ends.of_contains hsb⟩

theorem Fills.join (ha : ts.Fills i a k) (hb : ts.Fills k' b j) : ts.Fills i (a.join b) j :=
  ha.of_contains hb (Span.join_contains_left a b) (Span.join_contains_right a b)

/-- A comma behind a span does not count. -/
theorem Ends.comma (h : ts.Ends j s) (ht : ts.list[j]? = some t) (hkind : t.kind = .tCOMMA) :
    ts.Ends (j + 1) s := by
  intro m u hm hu
  rcases Nat.lt_succ_iff_lt_or_eq.mp hm with hm | rfl
  · exact h m u hm hu
  · cases ht.symm.trans hu
    exact .inl hkind

/-- Tokens before another one end before it does. -/
theorem stop_le_stop (hm : m < j) {u : Token} (hu : ts.list[m]? = some u)
    (ht : ts.list[j]? = some t) : u.span.stop ≤ t.span.start := by
  obtain ⟨hj, rfl⟩ := List.getElem?_eq_some_iff.mp ht
  obtain ⟨hm', rfl⟩ := List.getElem?_eq_some_iff.mp hu
  exact List.pairwise_iff_getElem.mp ts.ordered m j hm' hj hm

/-- What begins with a token or before it begins before all tokens behind that one. -/
theorem Begins.start_le (h : ts.Begins i s)
    (hle : i ≤ m) (ht : ts.list[m]? = some t) : s.start ≤ t.span.start := by
  rcases Nat.lt_or_eq_of_le hle with hlt | rfl
  · have hi : i < ts.list.length :=
      Nat.lt_trans hlt (List.getElem?_eq_some_iff.mp ht).1
    have hfirst : ts.list[i]? = some ts.list[i] := List.getElem?_eq_getElem hi
    have hbegins := h _ hfirst
    have hproper := ts.proper _ (List.getElem_mem hi)
    have hordered := stop_le_stop hlt hfirst ht
    omega
  · exact h t ht

/-- A token fills its own place. -/
theorem fills_token (ht : ts.list[i]? = some t) : ts.Fills i t.span (i + 1) := by
  refine ⟨fun u hu => ?_, fun m u hm hu => .inr ?_⟩
  · cases ht.symm.trans hu
    exact Nat.le_refl _
  · rcases Nat.lt_succ_iff_lt_or_eq.mp hm with hm | rfl
    · exact Nat.le_trans (stop_le_stop hm hu ht) (ts.proper t (List.mem_of_getElem? ht))
    · cases ht.symm.trans hu
      exact Nat.le_refl _

theorem idle_refl (i : Nat) : ts.Idle i i := fun _ _ hle hlt => absurd hle (Nat.not_le.mpr hlt)

theorem Idle.trans (h : ts.Idle i k) (h' : ts.Idle k j) : ts.Idle i j := by
  intro m t hi hj ht
  rcases Nat.lt_or_ge m k with hm | hm
  · exact h m t hi hm ht
  · exact h' m t hm hj ht

theorem idle_one (ht : ts.list[i]? = some t) (hkind : t.kind = .tNL ∨ t.kind = .tSEMI) :
    ts.Idle i (i + 1) := by
  intro m u hi hm hu
  obtain rfl : m = i := by omega
  cases ht.symm.trans hu
  exact hkind

end OrderedTokens

/-! ## §2. What nodes cover. -/

namespace Node

theorem joinOption_contains (s : Span) (o : Option Node) : (joinOption s o).Contains s := by
  rw [joinOption_eq_joinAll]
  exact joinAll_contains_self _ _

section Parts

variable {n m value : Node} {items : List Argument} {c c' : Chain} {v : Version}

/-- The last argument is one of the nodes of the arguments, or in the one for the pairs. -/
theorem exists_argument {a : Argument} (h : items.getLast? = some a) :
    ∃ arg ∈ arguments items, arg.span.Contains a.node.span := by
  have ha : a ∈ items := List.mem_of_getLast? h
  cases a with
  | positional n =>
      have hmem : .positional n ∈ items.takeWhile (·.pair?.isNone) ++
          items.dropWhile (·.pair?.isNone) := by rwa [List.takeWhile_append_dropWhile]
      refine ⟨n, ?_, .refl _⟩
      simp only [arguments, groupPairs, List.mem_append]
      rcases List.mem_append.mp hmem with hmem | hmem
      · exact .inl (.inl (.inl (List.mem_filterMap.mpr ⟨_, hmem, rfl⟩)))
      · exact .inl (.inr (List.mem_filterMap.mpr ⟨_, hmem, rfl⟩))
  | pair n =>
      have hpair : n ∈ items.filterMap (·.pair?) := List.mem_filterMap.mpr ⟨_, ha, rfl⟩
      have hne : (items.filterMap (·.pair?)).isEmpty = false := by
        rw [List.isEmpty_eq_false_iff]
        exact List.ne_nil_of_mem hpair
      refine ⟨.mk .kwargs (slots (items.filterMap (·.pair?))) (cover (items.filterMap (·.pair?))),
        ?_, cover_contains n hpair⟩
      simp [arguments, groupPairs, hne]
  | blockPass n =>
      -- of several block arguments the last one is kept, and nothing comes after this one
      obtain ⟨before, rfl⟩ := List.getLast?_eq_some_iff.mp h
      refine ⟨n, ?_, .refl _⟩
      simp [arguments, groupPairs, Argument.blockPass?]

theorem joinAll_contains_last {a : Argument} (s : Span) (h : items.getLast? = some a) :
    (joinAll s (arguments items)).Contains a.node.span := by
  obtain ⟨arg, harg, hcontains⟩ := exists_argument h
  exact (joinAll_contains arg harg).trans hcontains

/-- A call covers what is before its arguments, its arguments, and the closing parenthesis. -/
theorem call_contains {receiver : Option Node} {dot : Option Token} {name : String}
    {selector : Span} {args : List Node} {closing : Option Span} :
    (∀ r ∈ receiver, (call receiver dot name selector args closing).span.Contains r.span) ∧
      (call receiver dot name selector args closing).span.Contains selector ∧
      (∀ arg ∈ args, (call receiver dot name selector args closing).span.Contains arg.span) ∧
      ∀ s ∈ closing, (call receiver dot name selector args closing).span.Contains s := by
  have hinner : (call receiver dot name selector args closing).span.Contains
      (joinAll (joinOption selector receiver) args) := by
    cases closing with
    | none => exact .refl _
    | some closing => exact Span.join_contains_left _ _
  have hbefore := hinner.trans (joinAll_contains_self (joinOption selector receiver) args)
  refine ⟨?_, hbefore.trans (joinOption_contains _ _), fun arg harg =>
    hinner.trans (joinAll_contains arg harg), ?_⟩
  · rintro r ⟨⟩
    exact hbefore.trans (Span.join_contains_right _ _)
  · rintro s ⟨⟩
    exact Span.join_contains_right _ _

theorem binary_contains (lhs : Node) (op : Token) (rhs : Node) :
    (binary lhs op rhs).span.Contains lhs.span ∧ (binary lhs op rhs).span.Contains rhs.span := by
  unfold binary
  split
  · exact ⟨Span.join_contains_left _ _, Span.join_contains_right _ _⟩
  · exact ⟨call_contains.1 lhs rfl, call_contains.2.2.1 rhs List.mem_cons_self⟩

theorem span_string (opening : Token) (parts : List StringPart) (closing : Token) :
    (string opening parts closing).span = opening.span.join closing.span := by
  simp only [string]
  split <;> rfl

theorem span_quotedSymbol (opening : Token) (parts : List StringPart) (closing : Token) :
    (quotedSymbol opening parts closing).span = opening.span.join closing.span := by
  simp only [quotedSymbol]
  split <;> rfl

theorem span_markedVariable (t : Token) : (markedVariable t).span = t.span := by
  unfold markedVariable
  split <;> rfl

theorem span_methodDef (kw : Token) (head : MethodHead) (params : Node) (body : Option Node)
    (stop : Span) : (methodDef kw head params body stop).span = kw.span.join stop := by
  unfold methodDef
  split <;> rfl

theorem concatenation_contains {ns : List Node} :
    ∀ n ∈ ns, (concatenation ns).span.Contains n.span := by
  match ns with
  | [n] => exact List.forall_mem_singleton.mpr (.refl _)
  | [] | _ :: _ :: _ => exact cover_contains

theorem multipleValues_contains {ns : List Node} :
    ∀ n ∈ ns, (multipleValues ns).span.Contains n.span := by
  obtain heq | ⟨n, rfl, heq⟩ := multipleValues_eq ns
  · rw [heq]
    exact cover_contains
  · rw [heq]
    exact List.forall_mem_singleton.mpr (.refl _)

theorem targets_contains {ns : List Node} : ∀ n ∈ ns, (targets ns).span.Contains n.span := by
  obtain heq | ⟨n, rfl, -, heq⟩ := targets_eq ns
  · rw [heq]
    exact cover_contains
  · rw [heq]
    exact List.forall_mem_singleton.mpr (.refl _)

theorem topPattern_contains {ns : List Node} (trailing : Bool) :
    ∀ n ∈ ns, (topPattern ns trailing).span.Contains n.span := by
  obtain heq | ⟨n, rfl, heq⟩ := topPattern_eq ns trailing
  · rw [heq]
    exact cover_contains
  · rw [heq]
    exact List.forall_mem_singleton.mpr (.refl _)

theorem ofStatements?_contains {ns : List Node} :
    ∀ b ∈ ofStatements? ns, ∀ n ∈ ns, b.span.Contains n.span := by
  match ns with
  | [] => exact fun _ h => nomatch h
  | [n] =>
      rintro b ⟨⟩
      exact List.forall_mem_singleton.mpr (.refl _)
  | _ :: _ :: _ =>
      rintro b ⟨⟩
      exact cover_contains

theorem span_target? : ∀ t ∈ target? n, t.span = n.span := by
  intro t ht
  obtain ⟨_, _, _, rfl⟩ := mem_target? ht
  rfl

theorem span_assign? : ∀ m ∈ assign? n value, m.span = n.span.join value.span := by
  intro m hm
  obtain ⟨t, ht, rfl⟩ := Option.map_eq_some_iff.mp hm
  rw [← span_target? t ht]
  rfl

theorem span_operatorAssign? (op : Token) :
    ∀ m ∈ operatorAssign? n op value, m.span = n.span.join value.span := by
  intro m hm
  obtain ⟨t, ht, rfl⟩ := Option.map_eq_some_iff.mp hm
  have hspan : t.span = n.span := by
    split at ht
    · cases ht
      rfl
    · exact span_target? t ht
  dsimp only
  rw [hspan]
  split
  · rfl
  split
  · rfl
  · rfl

theorem span_assignValues? {ns : List Node} :
    ∀ m ∈ assignValues? n ns, m.span = n.span.join (cover ns) :=
  fun m hm => span_assign? m (mem_assignValues? hm)

theorem span_blockCallee? : ∀ callee ∈ blockCallee? n, callee.span = n.span := by
  intro callee hcallee
  cases makesCallee_of_mem hcallee with
  | name _ | call _ _ => rfl

theorem span_withBlock (v : Version) (callee : Node) (parts : BlockParts) :
    (withBlock v callee parts).span = callee.span.join parts.closing.span := by
  simp only [withBlock]
  split
  · rfl
  · split
    · rfl
    · rfl

theorem span_attachBlock? {parts : BlockParts} :
    ∀ m ∈ attachBlock? v n parts, m.span = n.span.join parts.closing.span := by
  intro m hm
  obtain ⟨callee, hcallee, rfl⟩ := Option.map_eq_some_iff.mp hm
  rw [span_withBlock, span_blockCallee? callee hcallee]

theorem span_command? : ∀ m ∈ command? c items, m.span = joinAll c.node.span (arguments items) := by
  intro m hm
  obtain ⟨_, _, _, rfl⟩ := mem_command? hm
  rfl

/-- The last token of what follows a primary expression. -/
def Suffix.last : Suffix → Token
  | .method _ name none => name
  | .method _ _ (some (_, closing)) => closing
  | .unnamed _ (_, closing) => closing
  | .constant name => name
  | .index _ closing => closing
  | .block parts => parts.closing

/-- A primary expression with one thing more covers what it was, and that thing. -/
theorem applySuffix?_contains {op : Suffix} (h : applySuffix? v c op = some c') :
    c'.node.span.Contains c.node.span ∧ c'.node.span.Contains op.last.span := by
  cases op with
  | method dot name args =>
      cases args with
      | none =>
          cases h
          rw [Chain.opened_node]
          exact ⟨call_contains.1 _ rfl, call_contains.2.1⟩
      | some args =>
          cases h
          rw [Chain.closed_node]
          exact ⟨call_contains.1 _ rfl, call_contains.2.2.2 _ rfl⟩
  | unnamed dot args =>
      cases h
      rw [Chain.closed_node]
      exact ⟨call_contains.1 _ rfl, call_contains.2.2.2 _ rfl⟩
  | constant name =>
      cases h
      exact ⟨Span.join_contains_right _ _, Span.join_contains_left _ _⟩
  | index args closing =>
      cases h
      exact ⟨Span.join_contains_left _ _, Span.join_contains_right _ _⟩
  | block parts =>
      obtain ⟨m, hm, rfl⟩ := Option.map_eq_some_iff.mp h
      have hspan := span_attachBlock? m hm
      show m.span.Contains _ ∧ m.span.Contains _
      rw [hspan]
      exact ⟨Span.join_contains_left _ _, Span.join_contains_right _ _⟩

theorem modified_contains (body : Node) (kw : Token) (value : Node) :
    (modified body kw value).span.Contains body.span ∧
      (modified body kw value).span.Contains value.span := by
  have hjoined : ∀ {s : Span}, s = body.span.join value.span →
      s.Contains body.span ∧ s.Contains value.span := by
    rintro s rfl
    exact ⟨Span.join_contains_left _ _, Span.join_contains_right _ _⟩
  unfold modified
  dsimp only
  split
  case h_5 =>
    -- what replaces a value that fails is covered together with its keyword
    exact ⟨Span.join_contains_left _ _,
      (Span.join_contains_right _ _).trans (Span.join_contains_right _ _)⟩
  all_goals exact hjoined rfl

end Parts

end Node

end RubySyntax
