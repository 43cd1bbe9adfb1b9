/-
  RubySyntax.Proofs.Tree.Account.Program
  ──────────────────────────────────────
  **THE NUMBERS OF A PROGRAM ARE THOSE OF ITS TREE.**

  The tokens of a text stand in order, and those with a mark cover something, so no mark occurs
  twice.  The tree accounts for the marks of the tokens, and so its numbers are tokens, each of
  them once.  A number is missing only where a block argument is replaced by a later one: it
  stands between their ampersands.

  Main results:
    • `readProgram_conserves` — what is read of the tokens of a program accounts for them,
    • `Program.numbers_correspond` — the numbers of a program and those of its tree.
-/
import Mathlib.Data.Multiset.AddSub
import RubySyntax.Proofs.Tree.Account.Rules
import RubySyntax.Proofs.Tree.Place.Program

namespace RubySyntax

/-! ## §1. The marks of tokens. -/

/-- Where a mark stands. -/
def Mark.start : Mark → Nat
  | .number span => span.start
  | .ampersand start => start

theorem Token.ampersand_mem_marks {t : Token} {offset : Nat} :
    .ampersand offset ∈ t.marks ↔
      (t.kind = .tAMPER ∨ t.kind = .tAMPER2) ∧ t.span.start = offset := by
  unfold Token.marks
  split
  next hnumber =>
    have hkind : ¬ (t.kind = .tAMPER ∨ t.kind = .tAMPER2) := by
      rintro (h | h) <;> rw [h] at hnumber <;> cases hnumber
    simp [hkind]
  next =>
    split
    next hkind => rw [Multiset.mem_singleton, Mark.ampersand.injEq, eq_comm, and_iff_right hkind]
    next hkind => simp [hkind]

/-- A mark stands in its token. -/
theorem Token.Wide.mark_start {t : Token} (hwide : t.Wide) {mark : Mark} (h : mark ∈ t.marks) :
    mark.start = t.span.start ∧ t.span.start < t.span.stop := by
  cases mark with
  | number span =>
      obtain ⟨hnumber, rfl⟩ := Token.number_mem_marks.mp h
      refine ⟨rfl, hwide.resolve_left fun hkind => ?_⟩
      rw [hkind] at hnumber
      cases hnumber
  | ampersand offset =>
      obtain ⟨hkind, rfl⟩ := Token.ampersand_mem_marks.mp h
      refine ⟨rfl, hwide.resolve_left fun hkind' => ?_⟩
      rw [hkind'] at hkind
      rcases hkind with hkind | hkind <;> cases hkind

theorem Token.nodup_marks (t : Token) : t.marks.Nodup := by
  unfold Token.marks
  split
  · exact Multiset.nodup_singleton _
  · split
    · exact Multiset.nodup_singleton _
    · exact Multiset.nodup_zero

/-- The marks of some tokens. -/
def Token.marksOf (tokens : List Token) : Multiset Mark := (tokens.map Token.marks).sum

theorem Token.mem_marksOf {tokens : List Token} {mark : Mark} :
    mark ∈ Token.marksOf tokens ↔ ∃ t ∈ tokens, mark ∈ t.marks := by
  induction tokens with
  | nil => simp [Token.marksOf]
  | cons t rest ih =>
      have hcons : Token.marksOf (t :: rest) = t.marks + Token.marksOf rest := List.sum_cons
      rw [hcons, Multiset.mem_add, ih, List.exists_mem_cons_iff]

/-- **No mark occurs twice.** -/
theorem Token.nodup_marksOf {tokens : List Token} (hwide : ∀ t ∈ tokens, t.Wide)
    (hordered : tokens.Pairwise fun t u => t.span.stop ≤ u.span.start) :
    (Token.marksOf tokens).Nodup := by
  induction hordered with
  | nil => exact Multiset.nodup_zero
  | @cons t rest hfirst _ ih =>
      have hcons : Token.marksOf (t :: rest) = t.marks + Token.marksOf rest := List.sum_cons
      rw [hcons, Multiset.nodup_add]
      refine ⟨t.nodup_marks, ih fun u hu => hwide u (List.mem_cons_of_mem _ hu), ?_⟩
      -- a mark of the first token stands before those of the others
      refine Multiset.disjoint_left.mpr fun {mark} hmark hmark' => ?_
      obtain ⟨u, hu, hmark'⟩ := Token.mem_marksOf.mp hmark'
      obtain ⟨hstart, hlt⟩ := (hwide t List.mem_cons_self).mark_start hmark
      obtain ⟨hstart', -⟩ := (hwide u (List.mem_cons_of_mem _ hu)).mark_start hmark'
      have := hfirst u hu
      omega

theorem OrderedTokens.marks_zero (ts : OrderedTokens) (j : Nat) :
    ts.marks 0 j = Token.marksOf (ts.list.take j) := by
  induction j with
  | zero => exact OrderedTokens.marks_self 0
  | succ j ih =>
      rw [← OrderedTokens.marks_add (Nat.zero_le j) (Nat.le_succ j), ih, List.take_add_one,
        Token.marksOf, Token.marksOf, List.map_append, List.sum_append]
      congr 1
      rw [OrderedTokens.marks, Nat.Ico_succ_singleton, Finset.sum_singleton,
        OrderedTokens.marksAt]
      cases ts.list[j]? with
      | none => rfl
      | some t => exact (add_zero t.marks).symm

/-! ## §2. Reading. -/

namespace Grammar

open Grammar.Expr

/-- **What is read of the tokens of a program accounts for them.** -/
theorem readProgram_conserves {ts : OrderedTokens} (hwide : ∀ t ∈ ts.list, t.Wide)
    {version : Version} {root : Option Node} (h : readProgram ts.list version = .ok root) :
    Node.Carries ts.list (Token.marksOf ts.list) (nodes root) := by
  obtain ⟨j, h⟩ := Rules.reads_of_parse (g := language) (c := accounting ts version)
    (language_conserves hwide) h
  obtain ⟨k, _, hroot, -, hfinish⟩ := h.seqLeft
  have hlength : ts.list.length ≤ k := by simpa [accounting] using hfinish
  have hcarries := (block_conserves 0 root k hroot).holds.1
  rwa [OrderedTokens.marks_zero, List.take_of_length_le hlength] at hcarries

end Grammar

/-! ## §3. Numbers. -/

/-- The numbers in some tokens: their places. -/
def Token.numbers (tokens : List Token) : List Span :=
  (tokens.filter fun t => t.kind.isNumber).map fun t => t.span

theorem Token.mem_numbers {tokens : List Token} {span : Span} :
    span ∈ Token.numbers tokens ↔ .number span ∈ Token.marksOf tokens := by
  rw [Token.mem_marksOf]
  simp only [Token.numbers, List.mem_map, List.mem_filter, Token.number_mem_marks, and_assoc]

/-- Numbers leave their marks. -/
theorem numbers_le_sum {α : Type} {isNumber : α → Bool} {span : α → Span} {marks : α → Multiset Mark}
    (hmarks : ∀ a, isNumber a = true → marks a = {.number (span a)}) (as : List α) :
    (((as.filter isNumber).map span).map Mark.number : Multiset Mark) ≤ (as.map marks).sum := by
  induction as with
  | nil => exact Multiset.zero_le _
  | cons a as ih =>
      rw [List.map_cons, List.sum_cons]
      by_cases hnumber : isNumber a = true
      · rw [List.filter_cons_of_pos hnumber, hmarks a hnumber]
        exact add_le_add (le_refl {Mark.number (span a)}) ih
      · rw [List.filter_cons_of_neg hnumber]
        exact ih.trans (Multiset.le_add_left _ _)

/-- Numbers stand at different places if no mark occurs twice. -/
theorem nodup_of_le {spans : List Span} {all : Multiset Mark}
    (hle : (spans.map Mark.number : Multiset Mark) ≤ all) (hall : all.Nodup) : spans.Nodup :=
  (Multiset.coe_nodup.mp (Multiset.nodup_of_le hle hall)).of_map _

theorem Token.numbers_le (tokens : List Token) :
    ((Token.numbers tokens).map Mark.number : Multiset Mark) ≤ Token.marksOf tokens :=
  numbers_le_sum (fun _ hnumber => if_pos hnumber) tokens

namespace Node

/-- The numbers in a tree: their places. -/
def numbers (n : Node) : List Span :=
  (n.preorder.filter fun m => m.kind.isNumber).map fun m => m.span

/-- A token is an ampersand before a block argument that is not in a tree. -/
def Lacks (n : Node) (t : Token) : Prop :=
  t.kind = .tAMPER ∧ ∀ m ∈ n.preorder, m.kind.isBlockArgument = true → m.span.start ≠ t.span.start

theorem Kind.ampersand_mem_marks {kind : Kind} {span : Span} (h : kind.isBlockArgument = true) :
    .ampersand span.start ∈ kind.marks span := by
  have hnumber : kind.isNumber = false := by cases kind <;> first | rfl | cases h
  rw [Kind.marks, hnumber, if_neg Bool.false_ne_true, if_pos h]
  exact Multiset.mem_singleton_self _

theorem mem_numbers {n : Node} {span : Span} : span ∈ n.numbers ↔ .number span ∈ n.marks := by
  rw [mem_marks_iff]
  simp only [numbers, List.mem_map, List.mem_filter, Kind.number_mem_marks, and_assoc]

theorem numbers_le (n : Node) : (n.numbers.map Mark.number : Multiset Mark) ≤ n.marks := by
  rw [marks_eq_preorder]
  exact numbers_le_sum (fun _ hnumber => if_pos hnumber) n.preorder

end Node

namespace Program

/-- The tree of a program accounts for the tokens of its text. -/
theorem marks_of_read {version : Version} {text : String} {p : Program}
    (h : (read version text).1 = .ok p) :
    Accounts p.tokens (Token.marksOf p.tokens) p.tree.marks ∧ (Token.marksOf p.tokens).Nodup := by
  obtain ⟨lexed, found, hlex, htokens, -, htree⟩ := eq_of_read h
  have hlex : (Token.lex text).1 = .ok lexed := congrArg Prod.fst hlex
  obtain ⟨ts, hts⟩ := Token.exists_ordered hlex
  have hwide := Token.lex_wide hlex
  obtain ⟨root, hroot, htree⟩ := eq_of_treeOf htree
  rw [htokens, ← hts]
  rw [← hts] at hroot hwide
  refine ⟨?_, Token.nodup_marksOf hwide ts.ordered⟩
  have hmarks : p.tree.marks = Node.marksOf (nodes root) := by
    rw [htree, Node.marks_resolve]
    cases root with
    | none => rfl
    | some root => exact (Node.marksOf_singleton root).symm
  rw [hmarks]
  exact (Grammar.readProgram_conserves hwide hroot).accounts

/-- **The numbers of a program are those of its tree.**  The tokens of a program that are numbers
stand at different places, and so do the nodes of its tree that are numbers; where such a node
stands, such a token stands.  Conversely, a number is in the tree, unless it stands between two
ampersands of which the tree lacks the first: then the block argument that begins there is
replaced by a later one. -/
theorem numbers_correspond {version : Version} {text : String} {p : Program}
    (h : (read version text).1 = .ok p) :
    (Token.numbers p.tokens).Nodup ∧ p.tree.numbers.Nodup ∧
      (∀ span ∈ p.tree.numbers, span ∈ Token.numbers p.tokens) ∧
      ∀ span ∈ Token.numbers p.tokens, span ∈ p.tree.numbers ∨
        ∃ t ∈ p.tokens, ∃ u ∈ p.tokens, p.tree.Lacks t ∧ u.kind = .tAMPER ∧
          t.span.start ≤ span.start ∧ span.stop ≤ u.span.start := by
  obtain ⟨⟨lost, hall, hlost⟩, hnodup⟩ := marks_of_read h
  have hle : p.tree.marks ≤ Token.marksOf p.tokens := by
    rw [hall]
    exact Multiset.le_add_right _ _
  refine ⟨nodup_of_le (Token.numbers_le _) hnodup,
    nodup_of_le (Node.numbers_le _) (Multiset.nodup_of_le hle hnodup), fun span hspan => ?_,
    fun span hspan => ?_⟩
  · exact Token.mem_numbers.mpr (Multiset.mem_of_le hle (Node.mem_numbers.mp hspan))
  · have hmem := Token.mem_numbers.mp hspan
    rw [hall] at hmem
    refine (Multiset.mem_add.mp hmem).imp Node.mem_numbers.mpr fun hmem => ?_
    obtain ⟨_, _, ⟨⟨t, ht, hkind, rfl⟩, hstart, hlost⟩, ⟨u, hu, hkind', rfl⟩, hstop⟩ :=
      hlost span hmem
    refine ⟨t, ht, u, hu, ⟨hkind, fun m hm hargument heq => ?_⟩, hkind', hstart, hstop⟩
    -- the mark of the ampersand is lost, and no mark occurs twice
    have hdisjoint := (Multiset.nodup_add.mp (hall ▸ hnodup)).2.2
    refine Multiset.disjoint_left.mp hdisjoint ?_ hlost
    rw [← heq]
    exact Node.mem_marks_iff.mpr ⟨m, hm, Node.Kind.ampersand_mem_marks hargument⟩

example : ((read ⟨3, 4⟩ "f(&1, &2)").1.toOption.any fun p =>
    (Token.numbers p.tokens).length == 2 && p.tree.numbers.length == 1) = true := by
  decide +kernel

theorem numbers_correspond_of_call : ∃ p, (read ⟨3, 4⟩ "f(1, k: 2.5)").1 = .ok p ∧
    p.tree.numbers.length = 2 ∧ (Token.numbers p.tokens).Nodup ∧ p.tree.numbers.Nodup ∧
      (∀ span ∈ p.tree.numbers, span ∈ Token.numbers p.tokens) ∧
      ∀ span ∈ Token.numbers p.tokens, span ∈ p.tree.numbers ∨
        ∃ t ∈ p.tokens, ∃ u ∈ p.tokens, p.tree.Lacks t ∧ u.kind = .tAMPER ∧
          t.span.start ≤ span.start ∧ span.stop ≤ u.span.start := by
  have hread : ((read ⟨3, 4⟩ "f(1, k: 2.5)").1.toOption.any fun p =>
      p.tree.numbers.length == 2) = true := by decide +kernel
  obtain ⟨p, hp, hlength⟩ := exists_of_any hread
  exact ⟨p, hp, by simpa using hlength, numbers_correspond hp⟩

end Program

end RubySyntax
