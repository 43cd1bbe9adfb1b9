/-
  RubySyntax.Proofs.Tree.Place.Program
  ────────────────────────────────────
  **THE NODES OF PROGRAMS ARE PLACED.**

  The ledger of the scan says that the tokens of a text stand in order, so the grammar places the
  nodes that it reads.  Resolving names moves no node.  The one node that no token carries is the
  root of a program without statements, and such a program has no tokens but newlines and
  semicolons.

  Main results:
    • `Placed.resolve` — resolving names moves no node,
    • `terminators_of_readProgram` — what is read as no statement,
    • `Program.nodes_stand` — where the nodes of a program stand.
-/
import RubySyntax.Proofs.Program
import RubySyntax.Proofs.Token.Coverage
import RubySyntax.Proofs.Tree.Place.Rules
import RubySyntax.Proofs.Tree.Resolve

namespace RubySyntax

/-! ## §1. The tokens of a text. -/

/-- The tokens of a text stand in order. -/
theorem Token.exists_ordered {text : String} {lexed : Lexed} (h : (lex text).1 = .ok lexed) :
    ∃ ts : OrderedTokens, ts.list = lexed.tokens := by
  obtain ⟨s, ⟨-, read, hread⟩, -, rfl, -⟩ := scanned_of_lex h
  have hordered := List.pairwise_reverse.mpr hread.ledger.tokens_ordered
  refine ⟨⟨s.tokens.reverse, fun t ht => ?_, hordered⟩, rfl⟩
  exact (hread.ledger.tokens_within t (List.mem_reverse.mp ht)).1

/-! ## §2. Resolving names. -/

namespace Node

variable {tokens : List Token}

theorem placed_of_slotsResolve (kind : Kind) (before after : List Child) (span : Span)
    (hslots : SlotsResolve before after) (h : Placed tokens (.mk kind before span)) :
    Placed tokens (.mk kind after span) := by
  refine ⟨h.le, h.located.imp id fun hunwritten => ?_, fun m hm => ?_⟩
  · -- an empty parameter list stays empty
    obtain ⟨⟨hkind, hchildren, hempty, hends⟩, hend⟩ := hunwritten
    dsimp only [children] at hchildren
    subst hchildren
    cases hslots
    exact ⟨⟨hkind, rfl, hempty, hends⟩, hend⟩
  · obtain ⟨c, hc, hresolves⟩ := hslots.exists_of_mem hm
    cases hresolves with
    | node names n =>
        rw [span_resolveIn]
        exact h.contains n hc
    | other _ _ => exact h.contains m hc

theorem placed_of_name (children : List Child) (span : Span)
    (h : Placed tokens (.mk .lvar children span)) :
    Placed tokens (.mk .send (.absent :: children) span) := by
  refine ⟨h.le, .inl (h.located.resolve_right fun hunwritten => nomatch hunwritten.kind_eq), ?_⟩
  intro m hm
  rcases List.mem_cons.mp hm with hm | hm
  · cases hm
  · exact h.contains m hm

/-- **Resolving names moves no node.** -/
theorem Placed.resolve {n : Node} (h : Everywhere (Placed tokens) n) :
    Everywhere (Placed tokens) n.resolve :=
  Everywhere.resolveIn placed_of_slotsResolve placed_of_name h []

end Node

/-! ## §3. Programs without statements. -/

namespace Grammar

open Token Grammar.Expr

/-- A token that separates statements. -/
def IsTerminator (t : Token) : Prop := t.kind = .tNL ∨ t.kind = .tSEMI

/-- The tokens between two positions separate statements. -/
def Terminators (tokens : Array Token) (i j : Nat) : Prop :=
  ∀ k t, i ≤ k → k < j → tokens[k]? = some t → IsTerminator t

/-- Readings in which there are only terminators where there is no statement. -/
def separating (tokens : Array Token) (version : Version) : Context Symbol Symbol.Result where
  tokens := tokens
  version := version
  gives
    | .statements, i, ns, j => ns = [] → Terminators tokens i j
    | _, _, _, _ => True

variable {tokens : Array Token} {version : Version} {i j k : Nat}

theorem Terminators.append (hi : Terminators tokens i k) (hk : Terminators tokens k j) :
    Terminators tokens i j := by
  intro l t hl hlj ht
  by_cases hlk : l < k
  · exact hi l t hl hlk ht
  · exact hk l t (Nat.le_of_not_lt hlk) hlj ht

theorem terminators_of_optTerms {ts : List Token}
    (h : optTerms.Reads (separating tokens version) i ts j) : Terminators tokens i j := by
  replace h : Repeats (term.Reads (separating tokens version)) i ts j := h
  induction h with
  | nil i => exact fun k t hik hki => absurd hki (Nat.not_lt.mpr hik)
  | @cons i k j t ts head tail ih =>
      refine Terminators.append (fun l u hl hlk hu => ?_) ih
      have hterm : tokens[i]? = some t ∧ IsTerminator t ∧ k = i + 1 := by
        rcases head with head | head
        · obtain ⟨ht, hkind, hk⟩ := head.tok
          exact ⟨ht, .inl hkind, hk⟩
        · obtain ⟨ht, hkind, hk⟩ := head.tok
          exact ⟨ht, .inr hkind, hk⟩
      obtain ⟨ht, hterm, rfl⟩ := hterm
      obtain rfl : l = i := by omega
      rw [ht] at hu
      cases hu
      exact hterm

theorem language_separating : language.Closed (separating tokens version) := by
  intro s i v j h
  cases s with
  | statements =>
      intro hv
      obtain ⟨k, ns, h, hend⟩ := h.seqLeft
      obtain ⟨l, _, hstart, h⟩ := h.seqRight
      rcases h.sepBy with h | ⟨-, rfl⟩
      · -- there would be a first statement
        obtain ⟨s, rest, _, hcons, -⟩ := h.sepBy1
        rw [hv] at hcons
        cases hcons
      · exact (terminators_of_optTerms hstart).append (terminators_of_optTerms hend)
  | _ => exact trivial

/-- **What is read as no statement** is newlines and semicolons. -/
theorem terminators_of_readProgram {tokens : List Token} {version : Version}
    (h : readProgram tokens version = .ok none) : ∀ t ∈ tokens, IsTerminator t := by
  obtain ⟨j, h⟩ := Rules.reads_of_parse (g := language) (c := separating tokens.toArray version)
    language_separating h
  obtain ⟨k, _, ⟨ns, hns, hnone⟩, -, hfinish⟩ := h.seqLeft
  have hnil : ns = [] := by
    cases ns with
    | nil => rfl
    | cons n rest => cases rest <;> cases hnone
  intro t ht
  obtain ⟨l, hl, rfl⟩ := List.getElem_of_mem ht
  refine hns hnil l tokens[l] (Nat.zero_le _) (Nat.lt_of_lt_of_le hl ?_) ?_
  · simpa [separating] using hfinish
  · simp [hl]

end Grammar

/-! ## §4. Programs. -/

namespace Program

/-- A program without statements: its tokens only separate them, and its tree has no place. -/
structure IsEmpty (p : Program) : Prop where
  tokens : ∀ t ∈ p.tokens, Grammar.IsTerminator t
  children : p.tree.children = []
  start : p.tree.span.start = 0
  stop : p.tree.span.stop = 0

/-- **Where the nodes of a program stand.**  The span of a node contains the spans of the nodes in
its slots.  It begins where a token begins and ends where a token ends, except for a parameter
list that is not written, and for the root of a program without statements. -/
theorem nodes_stand {version : Version} {text : String} {p : Program}
    (h : (read version text).1 = .ok p) :
    ∀ n ∈ p.tree.preorder, n.span.start ≤ n.span.stop ∧
      (∀ m, Child.node m ∈ n.children → n.span.Contains m.span) ∧
      (n.span.Anchored p.tokens ∨ n.IsMissingList p.tokens ∨ (n = p.tree ∧ p.IsEmpty)) := by
  obtain ⟨lexed, found, hlex, htokens, -, htree⟩ := eq_of_read h
  obtain ⟨ts, hts⟩ := Token.exists_ordered (congrArg Prod.fst hlex)
  obtain ⟨root, hroot, htree⟩ := eq_of_treeOf htree
  rw [htokens, ← hts]
  rw [← hts] at hroot
  cases root with
  | some root =>
      have hplaced := Node.Placed.resolve (Grammar.readProgram_placed hroot root rfl)
      intro n hn
      rw [htree] at hn
      obtain ⟨hle, hlocated, hcontains⟩ := Node.everywhere_iff_preorder.mp hplaced n hn
      exact ⟨hle, hcontains, hlocated.imp (·.toAnchored) fun h => .inl h.toIsMissingList⟩
  | none =>
      have hempty : p.IsEmpty := by
        refine ⟨?_, by rw [htree]; rfl, by rw [htree]; rfl, by rw [htree]; rfl⟩
        rw [htokens, ← hts]
        exact Grammar.terminators_of_readProgram hroot
      intro n hn
      obtain rfl : n = p.tree := by
        rw [htree] at hn ⊢
        exact List.mem_singleton.mp hn
      refine ⟨?_, ?_, .inr (.inr ⟨rfl, hempty⟩)⟩
      · rw [hempty.start]
        exact Nat.zero_le _
      · rw [hempty.children]
        exact fun m hm => absurd hm List.not_mem_nil

theorem nodes_stand_of_method : ∃ p, (read ⟨3, 4⟩ "def f; a.b(1); end").1 = .ok p ∧
    p.tree.kind = .methodDef ∧ ∀ n ∈ p.tree.preorder, n.span.start ≤ n.span.stop ∧
      (∀ m, Child.node m ∈ n.children → n.span.Contains m.span) ∧
      (n.span.Anchored p.tokens ∨ n.IsMissingList p.tokens ∨ (n = p.tree ∧ p.IsEmpty)) := by
  have hread : ((read ⟨3, 4⟩ "def f; a.b(1); end").1.toOption.any fun p =>
      p.tree.kind == .methodDef) = true := by decide +kernel
  obtain ⟨p, hp, hkind⟩ := exists_of_any hread
  exact ⟨p, hp, by simpa using hkind, nodes_stand hp⟩

end Program

end RubySyntax
