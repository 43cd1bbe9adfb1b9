/-
  RubySyntax.Proofs.Grammar.Blind
  ───────────────────────────────
  **READING THAT DOES NOT LOOK AT PLACES.**

  The same tokens are read twice, with their places and without.  An expression is blind if both
  readings fail together, with the same trace, or give values at one position, the second value
  being the first without places.

  What a value is without its places depends on its type.  A function is without places if it
  makes parts without places of parts without places, so the expressions in the middle of a
  sequence are blind too.

      Token, Node, …   b = unplaced a              List, Option, ×   part by part
      α → β            related for each argument

  Main results:
    • `Mirrors.seq`, `Mirrors.check`, `Mirrors.star`, … — one lemma for each constructor,
    • `Blind.seq`, `Blind.opt`, `Blind.sepBy`, … — for values that can lose their places,
    • `blind_climb` — operators over blind operands are blind.
-/
import RubySyntax.Grammar.Precedence
import RubySyntax.Proofs.Grammar.Later
import RubySyntax.Proofs.Tree.Unplaced.Build

namespace RubySyntax.Grammar

open Token

/-! ## §1. Values without places. -/

/-- Types of values that can lose their places. -/
class Placeable (α : Type) where
  /-- A value with its places forgotten. -/
  unplaced : α → α

export Placeable (unplaced)

/-- Types of values of which one can be another without places. -/
class Forgets (α : Type) where
  /-- The second value is the first without places. -/
  forgets : α → α → Prop

export Forgets (forgets)

section Instances

variable {α β : Type}

instance : Placeable Token := ⟨Token.unplaced⟩

instance : Placeable Node := ⟨Node.unplaced⟩

instance : Placeable Node.Argument := ⟨Node.Argument.unplaced⟩

instance : Placeable Node.Chain := ⟨Node.Chain.unplaced⟩

instance : Placeable Node.Suffix := ⟨Node.Suffix.unplaced⟩

instance : Placeable Node.StringPart := ⟨Node.StringPart.unplaced⟩

instance : Placeable Node.BlockParts := ⟨Node.BlockParts.unplaced⟩

instance : Placeable Node.MethodHead := ⟨Node.MethodHead.unplaced⟩

instance : Placeable Unit := ⟨id⟩

instance : Placeable Bool := ⟨id⟩

instance [Placeable α] : Placeable (Option α) := ⟨Option.map unplaced⟩

instance [Placeable α] : Placeable (List α) := ⟨List.map unplaced⟩

instance [Placeable α] [Placeable β] : Placeable (α × β) := ⟨Prod.map unplaced unplaced⟩

instance [Placeable α] : Forgets α := ⟨fun a b => b = unplaced a⟩

instance [Placeable α] [Forgets β] : Forgets (α → β) :=
  ⟨fun f g => ∀ a, forgets (f a) (g (unplaced a))⟩

end Instances

/-- A list is without places if its elements are. -/
theorem unplaced_of_forall₂ {α : Type} [Placeable α] {as bs : List α}
    (h : List.Forall₂ forgets as bs) : bs = as.map unplaced := by
  induction h with
  | nil => rfl
  | cons ha _ ih => exact congrArg₂ List.cons ha ih

/-! ## §2. One lemma for each constructor. -/

section Expressions

/-- What is found corresponds to something that is found elsewhere with the same trace. -/
def Finding.Mirrors {α : Type} (R : α → α → Prop) (X Y : Finding α) : Prop :=
  ∀ o t, X o t → ∃ o', Y o' t ∧ Corresponds R o o'

variable {Symbol : Type} {Result : Symbol → Type}

/-- Facts about the same tokens without places, in the same version. -/
structure Facts.Unplaced (c c' : Facts Symbol Result) : Prop where
  tokens : c'.tokens = c.tokens.map Token.unplaced
  version : c'.version = c.version

namespace Expr

/-- What an expression finds from any position on corresponds to what it finds by other facts. -/
def Mirrors (c c' : Facts Symbol Result) {α : Type} (R : α → α → Prop)
    (e : Expr Symbol Result α) : Prop :=
  ∀ i, Finding.Mirrors R (e.Finds c i) (e.Finds c' i)

section Constructors

variable {c c' : Facts Symbol Result} {α β : Type} {S : α → α → Prop} {T : β → β → Prop}

theorem Mirrors.token (h : c.Unplaced c') (kinds : List Kind) :
    (Expr.token kinds : Expr Symbol Result Token).Mirrors c c' fun t t' => t' = t.unplaced := by
  intro i o t hx
  simp only [Finds, h.tokens]
  cases hx with
  | here ht hkind =>
      have ht' := congrArg (Option.map Token.unplaced) ht
      rw [← Array.getElem?_map] at ht'
      exact ⟨_, .here ht' hkind, .finds rfl⟩
  | other ht hkind =>
      have ht' := congrArg (Option.map Token.unplaced) ht
      rw [← Array.getElem?_map] at ht'
      exact ⟨none, .other ht' hkind, .fails⟩
  | past ht =>
      have ht' := congrArg (Option.map Token.unplaced) ht
      rw [← Array.getElem?_map] at ht'
      exact ⟨none, .past ht', .fails⟩

theorem Mirrors.done {a : α} (ha : S a a) :
    (Expr.done a : Expr Symbol Result α).Mirrors c c' S := by
  rintro i o t ⟨rfl, rfl⟩
  exact ⟨_, ⟨rfl, rfl⟩, .finds ha⟩

theorem Mirrors.seq {f : Expr Symbol Result (α → β)} {x : Expr Symbol Result α}
    (hf : f.Mirrors c c' fun g g' => ∀ a a', S a a' → T (g a) (g' a')) (hx : x.Mirrors c c' S) :
    (Expr.seq f x).Mirrors c c' T := by
  intro i o t h
  cases h with
  | first h =>
      obtain ⟨_, h', ho⟩ := hf _ _ _ h
      cases ho with
      | fails => exact ⟨none, .first h', .fails⟩
  | second h hnone =>
      obtain ⟨_, h', ho⟩ := hf _ _ _ h
      cases ho with
      | finds =>
          obtain ⟨_, hnone', ho⟩ := hx _ _ _ hnone
          cases ho with
          | fails => exact ⟨none, .second h' hnone', .fails⟩
  | both h hsome =>
      obtain ⟨_, h', ho⟩ := hf _ _ _ h
      cases ho with
      | finds hg =>
          obtain ⟨_, hsome', ho⟩ := hx _ _ _ hsome
          cases ho with
          | finds ha => exact ⟨_, .both h' hsome', .finds (hg _ _ ha)⟩

theorem Mirrors.map {f : α → β} {x : Expr Symbol Result α} (hx : x.Mirrors c c' S)
    (hf : ∀ a a', S a a' → T (f a) (f a')) : (Expr.map f x).Mirrors c c' T := by
  intro i o t h
  cases h with
  | fails h =>
      obtain ⟨_, h', ho⟩ := hx _ _ _ h
      cases ho with
      | fails => exact ⟨none, .fails h', .fails⟩
  | finds h =>
      obtain ⟨_, h', ho⟩ := hx _ _ _ h
      cases ho with
      | finds ha => exact ⟨_, .finds h', .finds (hf _ _ ha)⟩

theorem Mirrors.check (h : c.Unplaced c') {f : Version → α → Option β} {x : Expr Symbol Result α}
    (hx : x.Mirrors c c' S)
    (hf : ∀ a a', S a a' → Option.Rel T (f c.version a) (f c.version a')) :
    (Expr.check f x).Mirrors c c' T := by
  intro i o t hfound
  simp only [Finds, h.version]
  cases hfound with
  | fails hnone =>
      obtain ⟨_, h', ho⟩ := hx _ _ _ hnone
      cases ho with
      | fails => exact ⟨none, .fails h', .fails⟩
  | refuses hsome hnone =>
      obtain ⟨_, h', ho⟩ := hx _ _ _ hsome
      cases ho with
      | finds ha =>
          -- the check answers the other value alike, so it refuses that too
          have hrel := hf _ _ ha
          rw [hnone] at hrel
          generalize hnone' : f c.version _ = r at hrel
          cases hrel with
          | none => exact ⟨none, .refuses h' hnone', .fails⟩
  | finds hsome hvalue =>
      obtain ⟨_, h', ho⟩ := hx _ _ _ hsome
      cases ho with
      | finds ha =>
          have hrel := hf _ _ ha
          rw [hvalue] at hrel
          generalize hvalue' : f c.version _ = r at hrel
          cases hrel with
          | some hb => exact ⟨_, .finds h' hvalue', .finds hb⟩

theorem Mirrors.since (h : c.Unplaced c') {v : Version} {x : Expr Symbol Result α}
    (hx : x.Mirrors c c' S) : (Expr.since v x).Mirrors c c' S := by
  intro i o t hfound
  simp only [Finds, h.version]
  cases hfound with
  | fails hnone =>
      obtain ⟨_, h', ho⟩ := hx _ _ _ hnone
      cases ho with
      | fails => exact ⟨none, .fails h', .fails⟩
  | refuses hsome hv =>
      obtain ⟨_, h', ho⟩ := hx _ _ _ hsome
      cases ho with
      | finds => exact ⟨none, .refuses h' hv, .fails⟩
  | finds hsome hv =>
      obtain ⟨_, h', ho⟩ := hx _ _ _ hsome
      cases ho with
      | finds ha => exact ⟨_, .finds h' hv, .finds ha⟩

theorem Mirrors.orElse {a b : Expr Symbol Result α} (ha : a.Mirrors c c' S)
    (hb : b.Mirrors c c' S) : (Expr.orElse a b).Mirrors c c' S := by
  intro i o t h
  cases h with
  | first h =>
      obtain ⟨_, h', ho⟩ := ha _ _ _ h
      cases ho with
      | finds hv => exact ⟨_, .first h', .finds hv⟩
  | second h hsecond =>
      obtain ⟨_, h', ho⟩ := ha _ _ _ h
      cases ho with
      | fails =>
          obtain ⟨o', hsecond', ho⟩ := hb _ _ _ hsecond
          exact ⟨o', .second h' hsecond', ho⟩

theorem Mirrors.star {x : Expr Symbol Result α} (hx : x.Mirrors c c' S) :
    (Expr.star x).Mirrors c c' (List.Forall₂ S) := by
  rintro i o t ⟨as, j, rfl, h⟩
  suffices ∃ as', StarFinds (x.Finds c') i as' j t ∧ List.Forall₂ S as as' by
    obtain ⟨as', h', has⟩ := this
    exact ⟨_, ⟨as', j, rfl, h'⟩, .finds has⟩
  induction h with
  | stop h =>
      obtain ⟨_, h', ho⟩ := hx _ _ _ h
      cases ho with
      | fails => exact ⟨[], .stop h', .nil⟩
  | more h _ ih =>
      obtain ⟨_, h', ho⟩ := hx _ _ _ h
      cases ho with
      | finds ha =>
          obtain ⟨as', hrest', has⟩ := ih
          exact ⟨_, .more h' hrest', .cons ha has⟩

theorem Mirrors.test {P : Facts Symbol Result → Nat → Prop} {x : Expr Symbol Result Unit}
    (hP : ∀ i, P c i ↔ P c' i) (hx : ∀ c i, x.Finds c i = TestFinds (P c i) i) :
    x.Mirrors c c' fun a b => b = a := by
  intro i o t h
  rw [hx] at h
  rw [hx]
  cases h with
  | holds h => exact ⟨_, .holds ((hP i).mp h), .finds rfl⟩
  | fails h => exact ⟨_, .fails fun h' => h ((hP i).mpr h'), .fails⟩

/-- A token keeps its kind without its place. -/
theorem stands_unplaced {tokens : Array Token} {kinds : List Kind} {i : Nat} :
    Stands (tokens.map Token.unplaced) kinds i ↔ Stands tokens kinds i := by
  simp only [Stands, Array.getElem?_map, Option.map_eq_some_iff]
  constructor
  · rintro ⟨_, ⟨tok, htok, rfl⟩, hkind⟩
    exact ⟨tok, htok, hkind⟩
  · rintro ⟨tok, htok, hkind⟩
    exact ⟨_, ⟨tok, htok, rfl⟩, hkind⟩

end Constructors

/-! ## §3. Blind expressions. -/

/-- Both readings fail together, or give values of which the second is the first without places. -/
def Blind (c c' : Facts Symbol Result) {α : Type} [Forgets α] (e : Expr Symbol Result α) :
    Prop :=
  e.Mirrors c c' forgets

section Blind

variable {c c' : Facts Symbol Result} {α β : Type} [Placeable α] {x : Expr Symbol Result α}

theorem Blind.token (h : c.Unplaced c') {kinds : List Kind} :
    (Expr.token kinds : Expr Symbol Result Token).Blind c c' :=
  Mirrors.token h kinds

theorem Blind.seq [Forgets β] {f : Expr Symbol Result (α → β)} (hf : f.Blind c c')
    (hx : x.Blind c c') : (Expr.seq f x).Blind c c' := by
  refine Mirrors.seq (fun i o t h => ?_) hx
  obtain ⟨o', h', ho⟩ := hf i o t h
  refine ⟨o', h', ?_⟩
  cases ho with
  | fails => exact .fails
  | finds hg =>
      refine .finds fun a a' ha => ?_
      cases ha
      exact hg a

theorem Blind.map [Forgets β] {f : α → β} (hx : x.Blind c c')
    (hf : ∀ a, forgets (f a) (f (unplaced a))) : (Expr.map f x).Blind c c' := by
  refine Mirrors.map hx fun a a' ha => ?_
  cases ha
  exact hf a

theorem Blind.check [Placeable β] (h : c.Unplaced c') {f : Version → α → Option β}
    (hx : x.Blind c c') (hf : ∀ v a, f v (unplaced a) = (f v a).map unplaced) :
    (Expr.check f x).Blind c c' := by
  refine Mirrors.check h hx fun a a' ha => ?_
  cases ha
  rw [hf]
  cases f c.version a with
  | none => exact .none
  | some b => exact .some rfl

theorem Blind.done {a : α} (ha : unplaced a = a) :
    (Expr.done a : Expr Symbol Result α).Blind c c' :=
  Mirrors.done ha.symm

omit [Placeable α] in
theorem Blind.orElse [Forgets α] {a b : Expr Symbol Result α} (ha : a.Blind c c')
    (hb : b.Blind c c') : (Expr.orElse a b).Blind c c' :=
  Mirrors.orElse ha hb

theorem Blind.since (h : c.Unplaced c') {v : Version} (hx : x.Blind c c') :
    (Expr.since v x).Blind c c' :=
  Mirrors.since h hx

theorem Blind.star (hx : x.Blind c c') : (Expr.star x).Blind c c' := by
  intro i o t h
  obtain ⟨o', h', ho⟩ := Mirrors.star hx i o t h
  refine ⟨o', h', ?_⟩
  cases ho with
  | fails => exact .fails
  | finds has => exact .finds (unplaced_of_forall₂ has)

theorem Blind.next (h : c.Unplaced c') {kinds : List Kind} :
    (Expr.next kinds : Expr Symbol Result Unit).Blind c c' :=
  Mirrors.test (P := fun c i => Stands c.tokens kinds i)
    (fun _ => by rw [h.tokens, stands_unplaced]) fun _ _ => rfl

theorem Blind.notNext (h : c.Unplaced c') {kinds : List Kind} :
    (Expr.notNext kinds : Expr Symbol Result Unit).Blind c c' :=
  Mirrors.test (P := fun c i => ¬ Stands c.tokens kinds i)
    (fun _ => by rw [h.tokens, stands_unplaced]) fun _ _ => rfl

theorem Blind.finish (h : c.Unplaced c') :
    (Expr.finish : Expr Symbol Result Unit).Blind c c' :=
  Mirrors.test (P := fun c i => c.tokens.size ≤ i)
    (fun _ => by rw [h.tokens, Array.size_map]) fun _ _ => rfl

variable [Placeable β] {y : Expr Symbol Result β}

omit [Placeable α] in
theorem Blind.seqLeft [Forgets α] (hx : x.Blind c c') (hy : y.Blind c c') :
    (x <* y).Blind c c' :=
  Mirrors.seq (Mirrors.map hx fun _ _ ha _ _ _ => ha) hy

theorem Blind.seqRight (hx : x.Blind c c') (hy : y.Blind c c') : (x *> y).Blind c c' :=
  .seq (.map hx fun _ _ => rfl) hy

theorem Blind.opt (hx : x.Blind c c') : (Expr.opt x).Blind c c' :=
  .orElse (.map hx fun _ => rfl) (.done rfl)

theorem Blind.plus (hx : x.Blind c c') : (Expr.plus x).Blind c c' :=
  .seq (.map hx fun _ _ => rfl) (.star hx)

theorem Blind.sepBy1 (hx : x.Blind c c') (hy : y.Blind c c') :
    (Expr.sepBy1 x y).Blind c c' :=
  .seq (.map hx fun _ _ => rfl) (.star (.seqRight hy hx))

theorem Blind.sepBy (hx : x.Blind c c') (hy : y.Blind c c') : (Expr.sepBy x y).Blind c c' :=
  .orElse (.sepBy1 hx hy) (.done rfl)

theorem Blind.present (hx : x.Blind c c') : (Expr.present x).Blind c c' :=
  .map (.opt hx) fun o => by cases o <;> rfl

omit [Placeable α] in
theorem Blind.firstOf [Forgets α] {xs : List (Expr Symbol Result α)} {x : Expr Symbol Result α}
    (hxs : ∀ x ∈ xs, x.Blind c c') (hx : x.Blind c c') : (Expr.firstOf xs x).Blind c c' := by
  induction xs with
  | nil => exact hx
  | cons y xs ih =>
      exact .orElse (hxs y List.mem_cons_self)
        (ih fun x hx => hxs x (List.mem_cons_of_mem _ hx))

omit [Placeable α] in
theorem Blind.foldl_orElse [Forgets α] {xs : List (Expr Symbol Result α)}
    {x : Expr Symbol Result α} (hx : x.Blind c c') (hxs : ∀ x ∈ xs, x.Blind c c') :
    (xs.foldl Expr.orElse x).Blind c c' := by
  induction xs generalizing x with
  | nil => exact hx
  | cons y xs ih =>
      exact ih (.orElse hx (hxs y List.mem_cons_self)) fun z hz =>
        hxs z (List.mem_cons_of_mem _ hz)

end Blind

end Expr

end Expressions

/-! ## §4. Operators. -/

section Operators

variable {c c' : Facts Symbol Symbol.Result} {operand : Nat → Rule Node}

theorem UnaryLevel.head_blind (h : c.Unplaced c') (u : UnaryLevel)
    (hoperand : ∀ l, (operand l).Blind c c') : (u.head operand).Blind c c' :=
  .seq (.map (.token h) fun op x => Node.unary_unplaced op x u.method) (hoperand _)

theorem BinaryLevel.tail_blind (h : c.Unplaced c') (b : BinaryLevel)
    (hb : ∀ x op y, b.combine x.unplaced op.unplaced y.unplaced = (b.combine x op y).unplaced)
    (hoperand : ∀ l, (operand l).Blind c c') : (b.tail operand).Blind c c' :=
  .seq (.map (.token h) fun op rhs lhs => hb lhs op rhs) (hoperand _)

/-- Applying operators to a first operand, one after another. -/
theorem foldl_unplaced {fs fs' : List (Node → Node)} (h : List.Forall₂ forgets fs fs') (x : Node) :
    fs'.foldl (fun x f => f x) x.unplaced = (fs.foldl (fun x f => f x) x).unplaced := by
  induction h generalizing x with
  | nil => rfl
  | @cons f g fs fs' hf _ ih =>
      have hx : g x.unplaced = (f x).unplaced := hf x
      rw [List.foldl_cons, List.foldl_cons, ← ih, hx]

/-- **Operators over blind operands are blind.** -/
theorem blind_climb (h : c.Unplaced c') {unary : List UnaryLevel} {binary : List BinaryLevel}
    {atom : Rule Node}
    (hbinary : ∀ b ∈ binary, ∀ x op y,
      b.combine x.unplaced op.unplaced y.unplaced = (b.combine x op y).unplaced)
    (hatom : atom.Blind c c') (hoperand : ∀ l, (operand l).Blind c c') (level : Nat) :
    (climb unary binary atom operand level).Blind c c' := by
  have hfirst : (Expr.firstOf (unary.map (·.head operand)) atom).Blind c c' := by
    refine .firstOf (fun x hx => ?_) hatom
    obtain ⟨u, -, rfl⟩ := List.mem_map.mp hx
    exact u.head_blind h hoperand
  have htails : ∀ x ∈ (binary.filter (level ≤ ·.level)).map (·.tail operand),
      x.Blind c c' := by
    intro x hx
    obtain ⟨b, hb, rfl⟩ := List.mem_map.mp hx
    exact b.tail_blind h (hbinary b (List.mem_filter.mp hb).1) hoperand
  unfold climb
  generalize (binary.filter (level ≤ ·.level)).map (·.tail operand) = tails at htails
  cases tails with
  | nil => exact hfirst
  | cons tail tails =>
      rw [List.forall_mem_cons] at htails
      -- the operators are functions, which are compared one by one
      refine Expr.Mirrors.seq (.map hfirst fun x x' hx fs fs' hfs => ?_)
        (.star (Expr.Blind.foldl_orElse htails.1 htails.2))
      cases hx
      exact foldl_unplaced hfs x

end Operators

end RubySyntax.Grammar
