/-
  RubySyntax.Proofs.Grammar.Extent
  ────────────────────────────────
  **HOW FAR READING GETS.**

  A lookahead leaves no trace.  So it has to be known of what stands around a lookahead that it
  looks far enough.  How many tokens an expression has looked at when it fails, and how many it
  has looked at or read when it gives a value, is read off the expression.  Where the kind of the
  first token is known, more can be told: `defined` before a parenthesis is no value by itself,
  and neither are three points.

  Main results:
    • `extent_holds` — what is read off an expression holds of what it finds,
    • `derived_extent` — the extents of the symbols of the language.
-/
import RubySyntax.Grammar.Program
import RubySyntax.Proofs.Grammar.Finding

namespace RubySyntax.Grammar

open Token

/-! ## §1. Extents. -/

/-- How far reading gets at least. -/
structure Extent where
  /-- How many tokens are looked at before a failure; nothing is known if it is zero. -/
  failure : Nat
  /-- How many tokens are looked at or read before a value is given. -/
  success : Nat
  /-- How many tokens are read before a value is given. -/
  length : Nat
deriving DecidableEq, Repr

namespace Extent

/-- No more than another extent tells. -/
def le (x y : Extent) : Bool :=
  x.failure ≤ y.failure && x.success ≤ y.success && x.length ≤ y.length

/-- One thing after another. -/
def followedBy (f x : Extent) : Extent where
  failure := if x.failure = 0 then 0 else min f.failure (f.length + x.failure)
  success := max f.success (f.length + x.success)
  length := f.length + x.length

/-- A thing that may be refused. -/
def checked (x : Extent) : Extent := ⟨min x.failure x.success, x.success, x.length⟩

/-- The first of two things that does not fail. -/
def or (a b : Extent) : Extent :=
  ⟨max a.failure b.failure, min a.success (max a.failure b.success), min a.length b.length⟩

/-- A thing again and again.  It does not fail, so of a failure anything can be told. -/
def repeated (x : Extent) : Extent := ⟨2, x.failure, 0⟩

/-- What was found from a position on is in keeping with an extent, and nothing behind the last
token was looked at. -/
def Holds {α : Type} (x : Extent) (size i : Nat) : Finding α
  | none, t => (0 < x.failure → min (i + x.failure) size ≤ t.farthest) ∧
      (i ≤ size → t.farthest ≤ size)
  | some (_, j), t => i + x.length ≤ j ∧ min (i + x.success) size ≤ max j t.farthest ∧
      (i ≤ size → j ≤ size ∧ t.farthest ≤ size)

variable {α β : Type} {x y : Extent} {size i : Nat} {t : Trace}

theorem le_iff : x.le y = true ↔
    x.failure ≤ y.failure ∧ x.success ≤ y.success ∧ x.length ≤ y.length := by
  simp only [le, Bool.and_eq_true, decide_eq_true_eq, and_assoc]

theorem Holds.of_le {o : Option (α × Nat)} (h : y.Holds size i o t) (hle : x.le y = true) :
    x.Holds size i o t := by
  rw [le_iff] at hle
  cases o with
  | none =>
      obtain ⟨hfailure, hsize⟩ := h
      exact ⟨by omega, hsize⟩
  | some found =>
      obtain ⟨hlength, hsuccess, hsize⟩ := h
      exact ⟨by omega, by omega, hsize⟩

theorem Holds.followedBy {F : Nat → Finding (α → β)} {X : Nat → Finding α} {o : Option (β × Nat)}
    (h : SeqFinds F X i o t) (hF : ∀ {o t}, F i o t → x.Holds size i o t)
    (hX : ∀ {i o t}, X i o t → y.Holds size i o t) : (x.followedBy y).Holds size i o t := by
  cases h with
  | first hf =>
      obtain ⟨hfailure, hsize⟩ := hF hf
      refine ⟨fun hpos => ?_, hsize⟩
      simp only [Extent.followedBy] at hpos ⊢
      split at hpos
      next => omega
      next hx =>
        rw [if_neg hx]
        omega
  | second hf hx =>
      obtain ⟨hlength, hsuccess, hsize⟩ := hF hf
      obtain ⟨hfailure, hsize'⟩ := hX hx
      simp only [Holds, Extent.followedBy, Trace.farthest_append]
      split
      next => omega
      next => omega
  | both hf hx =>
      obtain ⟨hlength, hsuccess, hsize⟩ := hF hf
      obtain ⟨hlength', hsuccess', hsize'⟩ := hX hx
      simp only [Holds, Extent.followedBy, Trace.farthest_append]
      omega

theorem Holds.changed {f : α → β} {X : Finding α} {o : Option (β × Nat)} (h : MapFinds f X o t)
    (hX : ∀ {o t}, X o t → x.Holds size i o t) : x.Holds size i o t := by
  cases h with
  | fails hx => exact hX hx
  | finds hx => exact hX hx

theorem Holds.checked {f : α → Option β} {X : Finding α} {o : Option (β × Nat)}
    (h : CheckFinds f X o t) (hX : ∀ {o t}, X o t → x.Holds size i o t) :
    x.checked.Holds size i o t := by
  cases h with
  | fails hx =>
      obtain ⟨hfailure, hsize⟩ := hX hx
      simp only [Holds, Extent.checked]
      omega
  | refuses hx _ =>
      obtain ⟨hlength, hsuccess, hsize⟩ := hX hx
      simp only [Holds, Extent.checked, Trace.farthest_append, Trace.farthest_test]
      omega
  | finds hx _ => exact hX hx

theorem Holds.since {version v : Version} {X : Finding α} {o : Option (α × Nat)}
    (h : SinceFinds version v X o t) (hX : ∀ {o t}, X o t → x.Holds size i o t) :
    x.checked.Holds size i o t := by
  cases h with
  | fails hx =>
      obtain ⟨hfailure, hsize⟩ := hX hx
      simp only [Holds, Extent.checked]
      omega
  | refuses hx _ =>
      obtain ⟨hlength, hsuccess, hsize⟩ := hX hx
      simp only [Holds, Extent.checked, Trace.farthest_append, Trace.farthest_refusal]
      omega
  | finds hx _ => exact hX hx

theorem Holds.or {A B : Finding α} {o : Option (α × Nat)} (h : ChoiceFinds A B o t)
    (hA : ∀ {o t}, A o t → x.Holds size i o t) (hB : ∀ {o t}, B o t → y.Holds size i o t) :
    (x.or y).Holds size i o t := by
  cases h with
  | first ha =>
      obtain ⟨hlength, hsuccess, hsize⟩ := hA ha
      simp only [Holds, Extent.or]
      omega
  | @second o t u ha hb =>
      obtain ⟨hfailure, hsize⟩ := hA ha
      cases o with
      | none =>
          obtain ⟨hfailure', hsize'⟩ := hB hb
          simp only [Holds, Extent.or, Trace.farthest_append]
          omega
      | some found =>
          obtain ⟨hlength, hsuccess, hsize'⟩ := hB hb
          simp only [Holds, Extent.or, Trace.farthest_append]
          omega

theorem Holds.repeated {X : Nat → Finding α} {as : List α} {j : Nat} (h : StarFinds X i as j t)
    (hX : ∀ {i o t}, X i o t → x.Holds size i o t) :
    x.repeated.Holds size i (some (as, j)) t := by
  induction h with
  | stop hx =>
      obtain ⟨hfailure, hsize⟩ := hX hx
      simp only [Holds, Extent.repeated]
      omega
  | more hx _ ih =>
      obtain ⟨hlength, hsuccess, hsize⟩ := hX hx
      obtain ⟨hlength', hsuccess', hsize'⟩ := ih
      simp only [Holds, Extent.repeated, Trace.farthest_append] at *
      omega

end Extent

/-! ## §2. The extent of an expression. -/

/-- How far a symbol gets, where the kind of the first token may be known. -/
def Symbol.extent (first : Option Kind) (s : Symbol) : Extent :=
  match first, s with
  | some .kDEFINED, .ternary | some .kDEFINED, .range | some .kDEFINED, .operation _
  | some .kDEFINED, .operand | some .kDEFINED, .primary | some .kDEFINED, .atom
  | some .tBDOT3, .argument | some .tBDOT3, .ternary | some .tBDOT3, .range => ⟨2, 2, 1⟩
  -- these give no value, so anything can be told of one
  | some .kDEFINED, .literal | some .kDEFINED, .compound | some .tBDOT3, .operation _
  | some .tBDOT3, .operand | some .tBDOT3, .primary | some .tBDOT3, .atom
  | some .tBDOT3, .literal | some .tBDOT3, .compound => ⟨1, 2, 2⟩
  | _, .statements | _, .body => ⟨1, 1, 0⟩
  | _, _ => ⟨1, 1, 1⟩

/-- The first tokens for which extents are known; of others nothing is told. -/
def leading : List (Option Kind) := [none, some .kDEFINED, some .tBDOT3]

/-- How far an expression gets, where the kind of the first token may be known. -/
def Expr.extent (first : Option Kind) : {α : Type} → Rule α → Extent
  | _, .token kinds => match first with
    | none => ⟨1, 1, 1⟩
    | some kind => if kinds.contains kind then ⟨2, 1, 1⟩ else ⟨1, 2, 2⟩
  | _, .done _ => ⟨2, 0, 0⟩
  | _, .seq f x => (f.extent first).followedBy (x.extent none)
  | _, .map _ x => x.extent first
  | _, .check _ x => (x.extent first).checked
  | _, .since _ x => (x.extent first).checked
  | _, .orElse a b => (a.extent first).or (b.extent first)
  | _, .star x => (x.extent none).repeated
  | _, .call s => s.extent first
  | _, _ => ⟨0, 0, 0⟩

/-- The kind of the first token is the one that is known. -/
def Begins (tokens : Array Token) (first : Option Kind) (i : Nat) : Prop :=
  ∀ kind ∈ first, ∃ tok, tokens[i]? = some tok ∧ tok.kind = kind

theorem begins_none (tokens : Array Token) (i : Nat) : Begins tokens none i := by
  intro kind hkind
  cases hkind

/-- One token is looked at where no more is told of it. -/
theorem Extent.Holds.token {tokens : Array Token} {kinds : List Kind} {i : Nat}
    {o : Option (Token × Nat)} {t : Trace} (h : TokenFinds tokens kinds i o t) :
    ((Expr.token kinds : Rule Token).extent none).Holds tokens.size i o t := by
  cases h with
  | here ht _ =>
      have hi : i < tokens.size := (Array.getElem?_eq_some_iff.mp ht).1
      simp only [Expr.extent, Extent.Holds, Trace.farthest_none]
      omega
  | other ht _ =>
      have hi : i < tokens.size := (Array.getElem?_eq_some_iff.mp ht).1
      simp only [Expr.extent, Extent.Holds, Trace.farthest_test]
      omega
  | past ht =>
      have hi : tokens.size ≤ i := Array.getElem?_eq_none_iff.mp ht
      simp only [Expr.extent, Extent.Holds, Trace.farthest_test]
      omega

/-- The kind of the next token decides whether it is read.  So of the way that is not taken
anything is told. -/
theorem Extent.Holds.token_of_kind {tokens : Array Token} {kinds : List Kind} {i : Nat} {tok : Token}
    (ht : tokens[i]? = some tok) {o : Option (Token × Nat)} {t : Trace}
    (h : TokenFinds tokens kinds i o t) :
    ((Expr.token kinds : Rule Token).extent (some tok.kind)).Holds tokens.size i o t := by
  have hi : i < tokens.size := (Array.getElem?_eq_some_iff.mp ht).1
  cases h with
  | here ht' hkind =>
      cases ht.symm.trans ht'
      simp only [Expr.extent, List.contains_iff_mem.mpr hkind, if_true, Extent.Holds,
        Trace.farthest_none]
      omega
  | other ht' hkind =>
      cases ht.symm.trans ht'
      simp only [Expr.extent, List.contains_iff_mem, if_neg hkind, Extent.Holds,
        Trace.farthest_test]
      omega
  | past ht' => cases ht.symm.trans ht'

/-- What is found is in keeping with the extents of a symbol. -/
def Symbol.Extends (tokens : Array Token) (s : Symbol) (i : Nat) : Finding s.Result :=
  fun o t => ∀ first ∈ leading, Begins tokens first i → (s.extent first).Holds tokens.size i o t

/-- **What is read off an expression holds of what it finds**, if that is so for the symbols. -/
theorem extent_holds {c : Facts Symbol Symbol.Result}
    (hc : ∀ {s i o t}, c.finds s i o t → s.Extends c.tokens i o t) {α : Type} {e : Rule α} {i : Nat}
    {first : Option Kind} (hleading : first ∈ leading) (hfirst : Begins c.tokens first i)
    {o : Option (α × Nat)} {t : Trace} (h : e.Finds c i o t) :
    (e.extent first).Holds c.tokens.size i o t := by
  have hany : none ∈ leading := List.mem_cons_self
  induction e generalizing first i t with
  | token kinds =>
      cases first with
      | none => exact .token h
      | some kind =>
          obtain ⟨tok, ht, rfl⟩ := hfirst kind rfl
          exact .token_of_kind ht h
  | done value =>
      obtain ⟨rfl, rfl⟩ := h
      simp only [Expr.extent, Extent.Holds, Trace.farthest_none]
      omega
  | seq f x ihf ihx =>
      -- behind the first part the next token is another one
      exact .followedBy h (ihf hleading hfirst) (ihx hany (begins_none _ _))
  | map f x ih => exact .changed h (ih hleading hfirst)
  | check f x ih => exact .checked h (ih hleading hfirst)
  | since v x ih => exact .since h (ih hleading hfirst)
  | orElse a b iha ihb => exact .or h (iha hleading hfirst) (ihb hleading hfirst)
  | star x ih =>
      -- only the first round starts at the token whose kind is known, so nothing is told of it
      obtain ⟨as, j, rfl, h⟩ := h
      exact .repeated h (ih hany (begins_none _ _))
  | next kinds | notNext kinds | finish =>
      cases h with
      | holds _ | fails _ =>
          simp only [Expr.extent, Extent.Holds, Trace.farthest_none]
          omega
  | call s => exact hc h first hleading hfirst

/-! ## §3. Operators. -/

theorem climb_congr {unary : List UnaryLevel} {binary : List BinaryLevel} {atom : Rule Node}
    {operand : Nat → Rule Node} {level level' : Nat}
    (h : binary.filter (level ≤ ·.level) = binary.filter (level' ≤ ·.level)) :
    climb unary binary atom operand level = climb unary binary atom operand level' := by
  simp only [climb, h]

theorem filter_level_eq_nil {binary : List BinaryLevel} {level most : Nat}
    (hmost : ∀ b ∈ binary, b.level ≤ most) (h : most < level) :
    binary.filter (level ≤ ·.level) = [] := by
  rw [List.filter_eq_nil_iff]
  intro b hb
  have := hmost b hb
  simp only [decide_eq_true_eq]
  omega

theorem Extent.le_followedBy_repeated {x y z : Extent} (hx : x.failure ≤ 2) (h : x.le y = true) :
    x.le (y.followedBy z.repeated) = true := by
  rw [le_iff] at h ⊢
  show x.failure ≤ min y.failure (y.length + 2) ∧ x.success ≤ max y.success (y.length + z.failure) ∧
    x.length ≤ y.length + 0
  omega

/-- An operation gets as far as its first operand. -/
theorem le_extent_climb {unary : List UnaryLevel} {binary : List BinaryLevel} {atom : Rule Node}
    {operand : Nat → Rule Node} {x : Extent} {first : Option Kind} (hx : x.failure ≤ 2)
    (h : x.le ((Expr.firstOf (unary.map (·.head operand)) atom).extent first) = true)
    (level : Nat) : x.le ((climb unary binary atom operand level).extent first) = true := by
  simp only [climb]
  split
  next => exact h
  next => exact Extent.le_followedBy_repeated hx h

/-- Behind the tightest binary operators all levels of operations are alike. -/
theorem forall_operationRule {P : Rule Node → Prop} (h : ∀ k < 12, P (operationRule k))
    (level : Nat) : P (operationRule level) := by
  by_cases hlevel : level < 12
  · exact h level hlevel
  · have hmost : ∀ b ∈ binaryLevels, b.level ≤ 10 := by decide
    have heq : operationRule level = operationRule 11 := climb_congr <| by
      rw [filter_level_eq_nil hmost (by omega), filter_level_eq_nil hmost (by decide)]
    exact heq ▸ h 11 (by decide)

/-- Behind the logical words all levels of expressions are alike. -/
theorem forall_expressionRule {P : Rule Node → Prop} (h : ∀ k < 2, P (expressionRule k))
    (level : Nat) : P (expressionRule level) := by
  by_cases hlevel : level < 2
  · exact h level hlevel
  · have hmost : ∀ b ∈ logicalLevels, b.level ≤ 0 := by decide
    have heq : expressionRule level = expressionRule 1 := climb_congr <| by
      rw [filter_level_eq_nil hmost (by omega), filter_level_eq_nil hmost (by decide)]
    exact heq ▸ h 1 (by decide)

/-! ## §4. The symbols of the language. -/

theorem Symbol.extent_failure_le (first : Option Kind) (s : Symbol) :
    (s.extent first).failure ≤ 2 := by
  unfold Symbol.extent
  split <;> decide

/-- **The rules get as far as is told of their symbols.** -/
theorem extent_le_rule (s : Symbol) {first : Option Kind} (hfirst : first ∈ leading) :
    (s.extent first).le ((rule s).extent first) = true := by
  simp only [leading, List.mem_cons, List.not_mem_nil, or_false] at hfirst
  cases s with
  | operation level =>
      refine le_extent_climb (Symbol.extent_failure_le _ _) ?_ level
      rcases hfirst with rfl | rfl | rfl <;> rfl
  | expression level =>
      refine le_extent_climb (Symbol.extent_failure_le _ _) ?_ level
      rcases hfirst with rfl | rfl | rfl <;> rfl
  | param ofBlock => cases ofBlock <;> rcases hfirst with rfl | rfl | rfl <;> rfl
  | _ => rcases hfirst with rfl | rfl | rfl <;> rfl

/-- The symbols of the language get as far as their extents tell. -/
theorem derived_extent {tokens : Array Token} {version : Version} {s : Symbol} {i : Nat}
    {o : Option (s.Result × Nat)} {t : Trace}
    (h : (language.derived tokens version).finds s i o t) : s.Extends tokens i o t := by
  refine Rules.derived_induction (P := Symbol.Extends tokens) ?_ h
  intro s i o t h first hfirst hbegins
  have hholds := extent_holds (fun {_ _ _ _} h => And.right h) hfirst hbegins h
  exact hholds.of_le (extent_le_rule s hfirst)

/-- Expressions get as far as their extents tell. -/
theorem extent_of_finds {tokens : Array Token} {version : Version} {α : Type} {e : Rule α} {i : Nat}
    {o : Option (α × Nat)} {t : Trace} (h : e.Finds (language.derived tokens version) i o t) :
    (e.extent none).Holds tokens.size i o t :=
  extent_holds derived_extent List.mem_cons_self (begins_none tokens i) h

end RubySyntax.Grammar
