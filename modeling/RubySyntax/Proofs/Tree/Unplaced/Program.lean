/-
  RubySyntax.Proofs.Tree.Unplaced.Program
  ───────────────────────────────────────
  **A TREE DEPENDS ON THE KINDS AND VALUES OF ITS TOKENS ONLY.**

  Tokens that lose their places are read as the same tree without places, or fail at the same
  index: the rules are blind, and so is the resolution of names.  Two lists of tokens of the same
  kinds and values become one list when places are forgotten, so whatever places their tokens
  have, both are read alike.

  Main results:
    • `readProgram_unplaced` — tokens without places are read as the tree without places,
    • `resolve_unplaced` — names are resolved without looking at places,
    • `treeOf_alike` — tokens of the same kinds and values fail at one index or have one tree.
-/
import RubySyntax.Program
import RubySyntax.Proofs.Grammar.Derivation
import RubySyntax.Proofs.Token.Alike
import RubySyntax.Proofs.Tree.Unplaced.Rules

namespace RubySyntax

/-! ## §1. Reading. -/

namespace Grammar

variable {tokens : Array Token} {version : Version}

/-- What a symbol finds among tokens, it finds without its places among the tokens without
places. -/
theorem derived_blind {s : Symbol} {i : Nat} {o : Option (s.Result × Nat)} {t : Trace}
    (h : (language.derived tokens version).finds s i o t) :
    ∃ o', (language.derived (tokens.map Token.unplaced) version).finds s i o' t ∧
      Corresponds (fun a b => b = s.unplaced a) o o' := by
  refine Rules.derived_induction (g := language) (P := fun s i o t => ∃ o',
    (language.derived (tokens.map Token.unplaced) version).finds s i o' t ∧
      Corresponds (fun a b => b = Symbol.unplaced s a) o o') (fun s i o t h => ?_) h
  have hblind : BlindSymbols ⟨tokens, version, fun s i o t =>
      (language.derived tokens version).finds s i o t ∧ ∃ o',
        (language.derived (tokens.map Token.unplaced) version).finds s i o' t ∧
          Corresponds (fun a b => b = Symbol.unplaced s a) o o'⟩
      (language.derived (tokens.map Token.unplaced) version) :=
    ⟨⟨rfl, rfl⟩, fun _ _ _ _ hfound => hfound.2⟩
  obtain ⟨o', h', ho⟩ := rule_blind hblind s i o t h
  exact ⟨o', Rules.derived_iff.mpr h', ho⟩

/-- **Tokens without places are read as the tree without places**, or they stop making sense at
the same index. -/
theorem readProgram_unplaced (tokens : List Token) (version : Version) :
    readProgram (tokens.map Token.unplaced) version =
      (readProgram tokens version).map (Option.map Node.unplaced) := by
  obtain ⟨o, t, hfound, hread⟩ := exists_parse tokens.toArray version program_descends
  have hblind : BlindSymbols (language.derived tokens.toArray version)
      (language.derived (tokens.toArray.map Token.unplaced) version) :=
    ⟨⟨rfl, rfl⟩, fun _ _ _ _ h => derived_blind h⟩
  have hprogram : program.Blind (language.derived tokens.toArray version)
      (language.derived (tokens.toArray.map Token.unplaced) version) :=
    .seqLeft (block_blind hblind) (.finish hblind.facts)
  obtain ⟨o', hfound', ho⟩ := hprogram 0 o t hfound
  rw [List.map_toArray] at hfound'
  rw [readProgram_eq_of_finds hfound', readProgram, hread]
  cases ho with
  | fails => rfl
  | finds hroot =>
      cases hroot
      rfl

end Grammar

/-! ## §2. Resolving. -/

namespace Node

theorem resolveName_unplaced (children : List Child) (span : Span) (names : Names) :
    resolveName (children.map Child.unplaced) .nowhere names =
      (resolveName children span names).unplaced := by
  unfold resolveName
  match children with
  | .symbol name :: rest =>
      simp only [List.map_cons, Child.unplaced_symbol]
      split <;> simp
  | [] | .node _ :: _ | .text _ :: _ | .integer _ :: _ | .float _ :: _ | .absent :: _ => simp

theorem bindFirst_unplaced (children : List Child) (names : Names) :
    bindFirst (children.map Child.unplaced) names = bindFirst children names := by
  cases children with
  | nil => rfl
  | cons c rest => cases c <;> simp [bindFirst]

theorem implicitNames_unplaced (children : List Child) :
    implicitNames (children.map Child.unplaced) = implicitNames children := by
  match children with
  | [] | [_] | _ :: .node _ :: _ | _ :: .symbol _ :: _ | _ :: .text _ :: _
  | _ :: .integer _ :: _ | _ :: .float _ :: _ | _ :: .absent :: _ => simp [implicitNames]

theorem bindGroups_unplaced (children : List Child) (names : Names) :
    bindGroups (children.map Child.unplaced) names = bindGroups children names := by
  cases children with
  | nil => rfl
  | cons c rest => cases c <;> simp [bindGroups]

mutual

/-- Names are resolved without looking at places, and the same names are seen afterwards. -/
theorem resolveIn_unplaced (names : Names) (n : Node) :
    resolveIn names n.unplaced = ((resolveIn names n).1.unplaced, (resolveIn names n).2) := by
  match n with
  | .mk kind children span =>
      rw [unplaced_mk]
      unfold resolveIn
      split
      · exact Prod.ext (resolveName_unplaced children span names) rfl
      · rw [bindFirst_unplaced, resolveSlots_unplaced _ children]
        simp
      · rw [resolveBody_unplaced _ _ _ children]
        simp
      · rw [resolveBody_unplaced _ _ _ children]
        simp
      · rw [implicitNames_unplaced, resolveBody_unplaced _ _ _ children]
        simp
      · rw [resolveSlots_unplaced _ children]
        simp [bindGroups_unplaced]
      · rw [resolveSlots_unplaced _ children]
        simp

theorem resolveSlots_unplaced (names : Names) (children : List Child) :
    resolveSlots names (children.map Child.unplaced) =
      ((resolveSlots names children).1.map Child.unplaced, (resolveSlots names children).2) := by
  match children with
  | [] => simp [resolveSlots]
  | c :: rest =>
      rw [List.map_cons, resolveSlots, resolveSlots, resolveSlot_unplaced names c]
      simp only [resolveSlots_unplaced _ rest, List.map_cons]

theorem resolveBody_unplaced (enter : Names → Names) (slot : Nat) (names : Names)
    (children : List Child) :
    resolveBody enter slot names (children.map Child.unplaced) =
      ((resolveBody enter slot names children).1.map Child.unplaced,
        (resolveBody enter slot names children).2) := by
  match slot, children with
  | _, [] => simp [resolveBody]
  | 0, c :: rest =>
      rw [List.map_cons, resolveBody, resolveBody, resolveSlot_unplaced _ c]
      simp only [resolveSlots_unplaced _ rest, List.map_cons]
  | slot + 1, c :: rest =>
      rw [List.map_cons, resolveBody, resolveBody, resolveSlot_unplaced _ c]
      simp only [resolveBody_unplaced enter slot _ rest, List.map_cons]

theorem resolveSlot_unplaced (names : Names) (c : Child) :
    resolveSlot names c.unplaced =
      ((resolveSlot names c).1.unplaced, (resolveSlot names c).2) := by
  match c with
  | .node n =>
      rw [Child.unplaced_node, resolveSlot, resolveSlot, resolveIn_unplaced names n]
      simp only [Child.unplaced_node]
  | .symbol _ | .text _ | .integer _ | .float _ | .absent => simp [resolveSlot]

end

/-- **Names are resolved without looking at places.** -/
theorem resolve_unplaced (root : Node) : root.unplaced.resolve = root.resolve.unplaced := by
  rw [resolve, resolveIn_unplaced, resolve]

end Node

/-! ## §3. Trees. -/

namespace Program

/-- Tokens of the same kinds and values are the same without places. -/
theorem unplaced_eq_of_pairs {tokens tokens' : List Token}
    (h : tokens.map Token.pair = tokens'.map Token.pair) :
    tokens.map Token.unplaced = tokens'.map Token.unplaced := by
  have hmap (ts : List Token) : ts.map Token.unplaced =
      (ts.map Token.pair).map fun p => ⟨p.1, p.2, .nowhere⟩ := by
    rw [List.map_map]
    rfl
  rw [hmap, hmap, h]

/-- **Places do not matter to reading.**  Tokens of the same kinds and values, wherever they stand,
either stop making sense at the same index, at which the fault lies, or have trees that are the
same but for places. -/
theorem treeOf_alike {tokens tokens' : List Token}
    (h : tokens.map Token.pair = tokens'.map Token.pair) (version : Version)
    (text text' : String) :
    (∃ i, Grammar.readProgram tokens version = .error i ∧
      Grammar.readProgram tokens' version = .error i ∧
      treeOf tokens version text = .error (faultAt tokens text i) ∧
      treeOf tokens' version text' = .error (faultAt tokens' text' i)) ∨
    ∃ tree tree', treeOf tokens version text = .ok tree ∧
      treeOf tokens' version text' = .ok tree' ∧ tree.unplaced = tree'.unplaced := by
  have hunplaced := Grammar.readProgram_unplaced tokens version
  rw [unplaced_eq_of_pairs h, Grammar.readProgram_unplaced tokens' version] at hunplaced
  have hempty (root : Option Node) : (root.getD empty).resolve.unplaced =
      ((root.map Node.unplaced).getD empty.unplaced).resolve := by
    rw [← Node.resolve_unplaced]
    cases root <;> rfl
  unfold treeOf
  generalize Grammar.readProgram tokens version = read at hunplaced ⊢
  generalize Grammar.readProgram tokens' version = read' at hunplaced ⊢
  match read, read' with
  | .error i, .error i' =>
      cases Except.error.inj hunplaced
      exact .inl ⟨i, rfl, rfl, rfl, rfl⟩
  | .ok root, .ok root' =>
      refine .inr ⟨_, _, rfl, rfl, ?_⟩
      rw [hempty, hempty, ← Except.ok.inj hunplaced]
  | .error _, .ok _ | .ok _, .error _ => cases hunplaced

/-- A number, once at the beginning of a text and once on its third line. -/
theorem treeOf_alike_number :
    ∃ tree tree', treeOf [⟨.tINTEGER, "1", ⟨0, 1, 1, 0⟩⟩] ⟨3, 4⟩ "1" = .ok tree ∧
      treeOf [⟨.tINTEGER, "1", ⟨4, 5, 3, 2⟩⟩] ⟨3, 4⟩ "\n\n  1" = .ok tree' ∧
      tree.unplaced = tree'.unplaced := by
  have hread : (Grammar.readProgram [⟨.tINTEGER, "1", ⟨0, 1, 1, 0⟩⟩] ⟨3, 4⟩).isOk = true := by
    decide +kernel
  have hpairs : [(⟨.tINTEGER, "1", ⟨0, 1, 1, 0⟩⟩ : Token)].map Token.pair =
      [⟨.tINTEGER, "1", ⟨4, 5, 3, 2⟩⟩].map Token.pair := rfl
  obtain ⟨i, hi, -⟩ | h := treeOf_alike hpairs ⟨3, 4⟩ "1" "\n\n  1"
  · rw [hi] at hread
    cases hread
  · exact h

end Program

end RubySyntax
