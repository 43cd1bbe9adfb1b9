/-
  RubySyntax.Proofs.Position
  ──────────────────────────
  **EVERY POSITION OF A PROGRAM IS WHERE THE TEXT SAYS, BUT ONE.**

  Lines and columns are found in three ways: by the table of lines where the scan is, by counting
  newlines where the text ends, and by adding lengths where a parameter list is not written.  The
  first two agree.  The third takes the end of a token to be on the line of its beginning, which
  is wrong for a token that covers a newline, and such a token can be the name of a method: the
  symbol of a global variable is one, and that variable may be named by any character.

  All other spans are joined from those of tokens, and a joined span keeps the line and the
  column with the beginning that it takes.

  Main results:
    • `Span.Located.coheres` — what is located at tokens is coherent if these are,
    • `Program.endOf_coheres` — the end of the text is,
    • `Program.positions_cohere` — every position that is handed out is, unless it is that of a
      misplaced parameter list.
-/
import RubySyntax.Proofs.Token.Position
import RubySyntax.Proofs.Tree.Place.Program
import RubySyntax.Proofs.Tree.Warning

namespace RubySyntax

/-! ## §1. Nodes. -/

/-- A span that is located at coherent tokens is coherent. -/
theorem Span.Located.coheres {tokens : List Token} {s : Span} {text : List Char}
    (h : s.Located tokens) (hle : s.start ≤ s.stop)
    (htokens : ∀ t ∈ tokens, t.span.Coheres text) : s.Coheres text := by
  obtain ⟨last, hlast, hstop⟩ := h.ends
  obtain ⟨first, hfirst, hstart, hline, hcolumn⟩ := h.position
  have hlast := htokens last hlast
  have hfirst := htokens first hfirst
  refine ⟨hle, hstop ▸ hlast.stop_le, hstart ▸ hfirst.begins, hstop ▸ hlast.ends, ?_⟩
  rw [← hstart, ← hline, ← hcolumn]
  exact hfirst.position

namespace Node

/-- A parameter list that is not written, at the end of a token that covers a newline. -/
structure IsMisplaced (text : List Char) (tokens : List Token) (n : Node) : Prop where
  kind_eq : n.kind = .args
  children_eq : n.children = []
  at_end : ∃ t ∈ tokens, n.span = t.span.atEnd ∧ '\n' ∈ Text.slice text t.span.start t.span.stop

variable {tokens : List Token} {text : List Char} {n : Node}

/-- **A node that is placed among the tokens of a text is coherent, unless it is misplaced.** -/
theorem Placed.coheres_iff (h : n.Placed tokens)
    (htokens : ∀ t ∈ tokens, ∃ stretch, t.span.IsCut text stretch) :
    n.span.Coheres text ↔ ¬ n.IsMisplaced text tokens := by
  -- the end of a token coheres if the token has no newline
  have hend : ∀ t ∈ tokens, t.span.atEnd.Coheres text ↔
      '\n' ∉ Text.slice text t.span.start t.span.stop := by
    intro t ht
    obtain ⟨stretch, hcut⟩ := htokens t ht
    rw [hcut.slice_eq]
    exact hcut.atEnd_coheres_iff
  constructor
  · rintro hcoheres ⟨-, -, t, ht, hspan, hnewline⟩
    rw [hspan] at hcoheres
    exact (hend t ht).mp hcoheres hnewline
  · intro hplaced
    rcases h.located with hlocated | hunwritten
    · refine hlocated.coheres h.le fun t ht => ?_
      obtain ⟨_, hcut⟩ := htokens t ht
      exact hcut.coheres
    · obtain ⟨t, ht, hspan⟩ := hunwritten.at_end
      rw [hspan]
      refine (hend t ht).mpr fun hnewline => hplaced ?_
      exact ⟨hunwritten.kind_eq, hunwritten.children_eq, t, ht, hspan, hnewline⟩

/-! ## §2. Doubts. -/

variable {P : Node → Prop}

/-- What is true everywhere in a tree is true everywhere below each node of it. -/
theorem Everywhere.everywhere (h : Everywhere P n) : Everywhere (Everywhere P) n := by
  induction h with
  | mk here below ih => exact .mk (.mk here below) ih

theorem Everywhere.childNode? {n m : Node} {i : Nat} (h : Everywhere P n)
    (hm : n.childNode? i = some m) : Everywhere P m :=
  h.child (List.mem_of_getElem? (childNode?_eq_some.mp hm))

theorem Everywhere.unwrap (h : Everywhere P n) : Everywhere P (unwrap n) := by
  induction h with
  | @mk kind children span here below ih =>
      unfold Node.unwrap
      split
      next heq =>
        cases heq
        exact ih _ List.mem_cons_self
      next => exact .mk here below

theorem mem_of_mem_repeatedKeys {k : Node} : ∀ {keys : List Node} {seen : List String},
    k ∈ repeatedKeys seen keys → k ∈ keys
  | [], _, h => h
  | key :: keys, seen, h => by
      dsimp only [repeatedKeys] at h
      split at h
      · rcases List.mem_cons.mp h with rfl | h
        · exact List.mem_cons_self
        · exact List.mem_cons_of_mem _ (mem_of_mem_repeatedKeys h)
      · exact List.mem_cons_of_mem _ (mem_of_mem_repeatedKeys h)

/-- A doubt about a condition is about an assignment. -/
theorem exists_of_mem_conditionWarnings {d : Diagnostic} (h : Everywhere P n)
    (hd : d ∈ n.conditionWarnings) : ∃ m, P m ∧ m.kind ≠ .args ∧ d.span = m.span := by
  unfold conditionWarnings at hd
  split at hd
  next cond hcond =>
    obtain ⟨child, hchild, rfl⟩ := Option.map_eq_some_iff.mp hcond
    split at hd
    next hassigns =>
      refine ⟨child.unwrap, (h.childNode? hchild).unwrap.here, fun hkind => ?_, ?_⟩
      · rw [isAssignment, hkind] at hassigns
        exact Bool.noConfusion hassigns
      · rw [List.mem_singleton.mp hd]
        rfl
    next => cases hd
  next => cases hd

/-- A doubt about keys is about a literal. -/
theorem exists_of_mem_keyWarnings {d : Diagnostic} (h : Everywhere P n) (hd : d ∈ n.keyWarnings) :
    ∃ m, P m ∧ m.kind ≠ .args ∧ d.span = m.span := by
  obtain ⟨key, hrepeated, rfl⟩ := List.mem_map.mp hd
  obtain ⟨pair, hpair, hliteral⟩ := List.mem_filterMap.mp (mem_of_mem_repeatedKeys hrepeated)
  obtain ⟨slot, hslot, hnode⟩ := List.mem_filterMap.mp hpair
  obtain rfl : slot = .node pair := by
    cases slot <;> cases hnode
    rfl
  unfold literalKey? at hliteral
  split at hliteral
  · obtain ⟨hkey, hliteral⟩ := Option.filter_eq_some_iff.mp hliteral
    refine ⟨key, ((h.child hslot).childNode? hkey).here, fun hkind => ?_, rfl⟩
    rw [isLiteral, hkind] at hliteral
    exact Bool.noConfusion hliteral
  · cases hliteral

/-- **A doubt about a node is about a node in it that is no parameter list.** -/
theorem exists_of_mem_warningsAt {method : Kind} {d : Diagnostic} (h : Everywhere P n)
    (hd : d ∈ warningsAt method n) : ∃ m, P m ∧ m.kind ≠ .args ∧ d.span = m.span := by
  unfold warningsAt at hd
  split at hd
  · exact exists_of_mem_conditionWarnings h hd
  · exact exists_of_mem_conditionWarnings h hd
  · exact exists_of_mem_conditionWarnings h hd
  · exact exists_of_mem_conditionWarnings h hd
  · exact exists_of_mem_conditionWarnings h hd
  · exact exists_of_mem_keyWarnings h hd
  · exact exists_of_mem_keyWarnings h hd
  · cases hd

end Node

/-! ## §3. Programs. -/

namespace Program

open Text

variable {version : Version} {text : String} {p : Program}

/-- **The end of a text is coherent.** -/
theorem endOf_coheres (text : String) : (endOf text).Coheres text.toList := by
  have hboundary : Boundary text.toList (endOf text).start :=
    ⟨text.toList, [], (List.append_nil _).symm, rfl⟩
  refine ⟨Nat.le_refl _, Nat.le_refl _, hboundary, hboundary, ?_⟩
  have hposition := LineTable.lineCol_eq text.toList []
  rwa [List.append_nil] at hposition

/-- A program without a syntax error is placed among its tokens, or has no statements. -/
theorem placed_of_read (h : (read version text).1 = .ok p) :
    Node.Everywhere (Node.Placed p.tokens) p.tree ∨ p.tree = empty := by
  obtain ⟨lexed, found, hlex, htokens, -, htree⟩ := eq_of_read h
  obtain ⟨ts, hts⟩ := Token.exists_ordered (congrArg Prod.fst hlex)
  obtain ⟨root, hroot, htree⟩ := eq_of_treeOf htree
  rw [← hts] at hroot
  rw [htree, htokens, ← hts]
  cases root with
  | none => exact .inr rfl
  | some root => exact .inl (Node.Placed.resolve (Grammar.readProgram_placed hroot root rfl))

/-- **The nodes of a program are coherent, but for the misplaced ones.** -/
theorem node_coheres_iff (h : (read version text).1 = .ok p) {n : Node} (hn : n ∈ p.tree.preorder) :
    n.span.Coheres text.toList ↔ ¬ n.IsMisplaced text.toList p.tokens := by
  rcases placed_of_read h with hplaced | hempty
  · obtain ⟨lexed, found, hlex, htokens, -⟩ := eq_of_read h
    refine (Node.everywhere_iff_preorder.mp hplaced n hn).coheres_iff ?_
    rw [htokens]
    exact (Token.lex_isCut (congrArg Prod.fst hlex)).1
  · rw [hempty] at hn
    obtain rfl := List.mem_singleton.mp hn
    have hstart : Boundary text.toList empty.span.start := ⟨[], text.toList, rfl, rfl⟩
    refine iff_of_true ?_ fun h => nomatch h.kind_eq
    exact ⟨Nat.le_refl _, Nat.zero_le _, hstart, hstart, LineTable.lineCol_eq [] text.toList⟩

/-- **What is doubtful about a program stands at a coherent place.** -/
theorem warning_coheres (h : (read version text).1 = .ok p) :
    ∀ d ∈ p.tree.warnings, d.span.Coheres text.toList := by
  intro d hd
  obtain ⟨n, hn, method, hd⟩ := Node.exists_of_mem_warnings hd
  have hcoheres : Node.Everywhere (fun n => n.kind ≠ .args → n.span.Coheres text.toList) p.tree :=
    Node.everywhere_iff_preorder.mpr fun m hm hkind =>
      (node_coheres_iff h hm).mpr fun hmisplaced => hkind hmisplaced.kind_eq
  obtain ⟨m, hm, hkind, hspan⟩ := Node.exists_of_mem_warningsAt
    (Node.everywhere_iff_preorder.mp hcoheres.everywhere n hn) hd
  rw [hspan]
  exact hm hkind

/-- The tokens that a text is split into are coherent, and so is each place where they make no
sense. -/
theorem fault_coheres {lexed : Token.Lexed} (hlex : (Token.lex text).1 = .ok lexed) {fault : Fault}
    (h : treeOf lexed.tokens version text = .error fault) : fault.span.Coheres text.toList := by
  unfold treeOf at h
  split at h
  next => cases h
  next i _ =>
    cases h
    unfold faultAt
    split
    next t ht =>
      obtain ⟨_, hcut⟩ := (Token.lex_isCut hlex).1 t (List.mem_of_getElem? ht)
      exact hcut.coheres
    next => exact endOf_coheres text

/-- What is reported about a program, and where it cannot be read, is coherent. -/
theorem report_coheres (version : Version) (text : String) :
    (∀ d ∈ (read version text).2, d.span.Coheres text.toList) ∧
    ∀ abort, (read version text).1 = .error abort →
      ∃ span, abort.span? = some span ∧ span.Coheres text.toList := by
  have hfound : ∀ d ∈ (Token.lex text).2, d.span.Coheres text.toList := by
    intro d hd
    obtain ⟨_, hcut⟩ := Token.lex_report_isCut text d hd
    exact hcut.coheres
  rcases hlex : Token.lex text with ⟨abort | lexed, found⟩
  · -- the text is not split into tokens
    rw [hlex] at hfound
    rw [read_of_abort hlex]
    refine ⟨hfound, ?_⟩
    rintro _ ⟨⟩
    obtain ⟨span, _, hspan, hcut⟩ := Token.lex_error_isCut (congrArg Prod.fst hlex)
    exact ⟨span, hspan, hcut.coheres⟩
  rw [hlex] at hfound
  -- the report on the grammar is sorted in
  have hsorted : ∀ ds : List Diagnostic, (∀ d ∈ ds, d.span.Coheres text.toList) →
      ∀ d ∈ Diagnostic.sortByStart (found ++ ds), d.span.Coheres text.toList := by
    intro ds hds d hd
    rcases List.mem_append.mp (List.mem_mergeSort.mp hd) with hd | hd
    · exact hfound d hd
    · exact hds d hd
  cases htree : treeOf lexed.tokens version text with
  | error fault =>
      have hfault := fault_coheres (congrArg Prod.fst hlex) htree
      rw [read_of_fault hlex htree]
      refine ⟨hsorted _ fun d hd => ?_, ?_⟩
      · rw [List.mem_singleton.mp hd]
        exact hfault
      · rintro _ ⟨⟩
        exact ⟨fault.span, rfl, hfault⟩
  | ok tree =>
      have hread := read_of_tree hlex htree
      have hwarnings := warning_coheres (congrArg Prod.fst hread)
      rw [hread]
      exact ⟨hsorted _ hwarnings, nofun⟩

/-- **Every position that is handed out is coherent, unless it is that of a misplaced parameter
list**: those of diagnostics and of a failure, of tokens and comments, and of the nodes of a
tree. -/
theorem positions_cohere (version : Version) (text : String) :
    (∀ d ∈ (read version text).2, d.span.Coheres text.toList) ∧
    (∀ abort, (read version text).1 = .error abort →
      ∃ span, abort.span? = some span ∧ span.Coheres text.toList) ∧
    (∀ lexed, (Token.lex text).1 = .ok lexed →
      (∀ t ∈ lexed.tokens, t.span.Coheres text.toList) ∧
        ∀ c ∈ lexed.comments, c.span.Coheres text.toList) ∧
    ∀ p, (read version text).1 = .ok p → ∀ n ∈ p.tree.preorder,
      (n.span.Coheres text.toList ↔ ¬ n.IsMisplaced text.toList p.tokens) := by
  obtain ⟨hreport, habort⟩ := report_coheres version text
  refine ⟨hreport, habort, fun lexed hlex => ?_, fun p hp n hn => node_coheres_iff hp hn⟩
  obtain ⟨htokens, hcomments⟩ := Token.lex_isCut hlex
  refine ⟨fun t ht => ?_, fun c hc => ?_⟩
  · obtain ⟨_, hcut⟩ := htokens t ht
    exact hcut.coheres
  · obtain ⟨_, hcut⟩ := hcomments c hc
    exact hcut.coheres

/-- The name of a method is a symbol that covers a newline, and no parameters are written. -/
theorem positions_cohere_but_parameters : ∃ p, (read ⟨3, 4⟩ "def :$\n; end").1 = .ok p ∧
    (∀ t ∈ p.tokens, t.span.Coheres "def :$\n; end".toList) ∧
    ∃ n ∈ p.tree.preorder, n.span = ⟨7, 7, 1, 7⟩ ∧ ¬ n.span.Coheres "def :$\n; end".toList := by
  have hread : ((read ⟨3, 4⟩ "def :$\n; end").1.toOption.any fun p =>
      (p.tree.preorder.any fun n =>
        n.span == ⟨7, 7, 1, 7⟩ && n.kind == .args && n.children.isEmpty) &&
      p.tokens.any fun t => t.span.atEnd == ⟨7, 7, 1, 7⟩ &&
        (slice "def :$\n; end".toList t.span.start t.span.stop).contains '\n') = true := by
    decide +kernel
  obtain ⟨p, hp, hmisplaced⟩ := exists_of_any hread
  simp only [Bool.and_eq_true, List.any_eq_true, beq_iff_eq, List.isEmpty_iff,
    List.contains_iff_mem] at hmisplaced
  obtain ⟨⟨n, hn, ⟨hspan, hkind⟩, hchildren⟩, t, ht, hend, hnewline⟩ := hmisplaced
  obtain ⟨-, -, hlex, hnodes⟩ := positions_cohere ⟨3, 4⟩ "def :$\n; end"
  obtain ⟨lexed, found, hlexed, htokens, -⟩ := eq_of_read hp
  refine ⟨p, hp, ?_, n, hn, hspan, fun hcoheres => ?_⟩
  · rw [htokens]
    exact (hlex lexed (congrArg Prod.fst hlexed)).1
  · exact (hnodes p hp n hn).mp hcoheres ⟨hkind, hchildren, t, ht, hspan.trans hend.symm, hnewline⟩

end Program

end RubySyntax
