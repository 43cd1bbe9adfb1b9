/-
  RubySyntax.Proofs.Grammar.Yields
  ────────────────────────────────
  **POSTCONDITIONS OF EXPRESSIONS.**

  `e.Yields c i Q` says that every value that `e` can give from `i` on satisfies `Q` together with
  the position after it.  It is computed from the expression: a sequence asks for its pieces one
  after the other, in the order in which the rule is written, and a choice asks for both of its
  alternatives.  So a proof about a rule begins by naming the pieces of the rule, each with the
  position after it.

  Main results:
    • `Yields.reads` — what is yielded holds of every reading,
    • `Reads.opt`, `Reads.star`, … — what is read by the derived expressions,
    • `Reads.star_forall`, … — what holds of every element of a list that is read,
    • `climb_reads` — what holds of operations of all levels.
-/
import RubySyntax.Grammar.Precedence
import RubySyntax.Proofs.Grammar.Reading

namespace RubySyntax.Grammar

open Token

theorem Repeats.forall {α : Type} {R : Nat → α → Nat → Prop} {P : α → Prop} {i j : Nat}
    {as : List α} (h : Repeats R i as j) (hR : ∀ i a j, R i a j → P a) : ∀ a ∈ as, P a := by
  induction h with
  | nil i => exact fun a ha => absurd ha List.not_mem_nil
  | cons head tail ih => exact List.forall_mem_cons.mpr ⟨hR _ _ _ head, ih⟩

namespace Expr

variable {Symbol : Type} {Result : Symbol → Type}

/-- Every value that an expression can give, and the position after it, satisfy `Q`. -/
def Yields (c : Context Symbol Result) :
    {α : Type} → Expr Symbol Result α → Nat → (α → Nat → Prop) → Prop
  | _, .seq f x, i, Q => f.Yields c i fun g k => ∀ a j, x.Reads c k a j → Q (g a) j
  | _, .map f x, i, Q => x.Yields c i fun a j => Q (f a) j
  | _, .check f x, i, Q => x.Yields c i fun a j => ∀ b, f c.version a = some b → Q b j
  | _, .since v₀ x, i, Q => x.Yields c i fun a j => c.version.atLeast v₀ = true → Q a j
  | _, .orElse a b, i, Q => a.Yields c i Q ∧ b.Yields c i Q
  | _, e, i, Q => ∀ v j, e.Reads c i v j → Q v j

variable {c : Context Symbol Result} {α β : Type} {i j : Nat}

/-! ## §1. Postconditions and readings. -/

/-- **What is yielded holds of every reading.** -/
theorem Yields.reads {e : Expr Symbol Result α} {Q : α → Nat → Prop} (h : e.Yields c i Q)
    {v : α} (hv : e.Reads c i v j) : Q v j := by
  induction e generalizing i j with
  | seq f x ihf =>
      obtain ⟨k, g, hf, a, hx, rfl⟩ := hv
      exact ihf h hf a j hx
  | map f x ih =>
      obtain ⟨a, hx, rfl⟩ := hv
      exact ih h hx
  | check f x ih =>
      obtain ⟨a, hx, hb⟩ := hv
      exact ih h hx _ hb
  | since v₀ x ih => exact ih h hv.1 hv.2
  | orElse a b iha ihb => exact hv.elim (iha h.1) (ihb h.2)
  | _ => exact h _ _ hv

/-- A postcondition may be proved of the readings themselves. -/
theorem Yields.of_reads {e : Expr Symbol Result α} {Q : α → Nat → Prop}
    (h : ∀ v j, e.Reads c i v j → Q v j) : e.Yields c i Q := by
  induction e generalizing i with
  | seq f x ihf => exact ihf fun g k hg a j ha => h _ _ ⟨k, g, hg, a, ha, rfl⟩
  | map f x ih => exact ih fun a j ha => h _ _ ⟨a, ha, rfl⟩
  | check f x ih => exact ih fun a j ha b hb => h _ _ ⟨a, ha, hb⟩
  | since v₀ x ih => exact ih fun a j ha hv => h _ _ ⟨ha, hv⟩
  | orElse a b iha ihb =>
      exact ⟨iha fun v j hv => h v j (.inl hv), ihb fun v j hv => h v j (.inr hv)⟩
  | _ => exact h

theorem Yields.mono {e : Expr Symbol Result α} {P Q : α → Nat → Prop} (h : e.Yields c i P)
    (hPQ : ∀ v j, P v j → Q v j) : e.Yields c i Q :=
  .of_reads fun v j hv => hPQ v j (h.reads hv)

/-- What can be read stays readable if symbols give more. -/
theorem Reads.mono {c c' : Context Symbol Result} (htokens : c.tokens = c'.tokens)
    (hversion : c.version = c'.version) (hgives : ∀ s i v j, c.gives s i v j → c'.gives s i v j)
    {α : Type} {e : Expr Symbol Result α} {i j : Nat} {v : α} (h : e.Reads c i v j) :
    e.Reads c' i v j := by
  induction e generalizing i j with
  | token kinds => exact ⟨htokens ▸ h.1, h.2⟩
  | done value => exact h
  | seq f x ihf ihx =>
      obtain ⟨k, g, hf, a, hx, hg⟩ := h
      exact ⟨k, g, ihf hf, a, ihx hx, hg⟩
  | map f x ih =>
      obtain ⟨a, hx, hf⟩ := h
      exact ⟨a, ih hx, hf⟩
  | check f x ih =>
      obtain ⟨a, hx, hf⟩ := h
      exact ⟨a, ih hx, hversion ▸ hf⟩
  | since v₀ x ih => exact ⟨ih h.1, hversion ▸ h.2⟩
  | orElse a b iha ihb => exact h.imp iha ihb
  | star x ih =>
      -- a repetition is read round by round
      induction (show Repeats (x.Reads c) i v j from h) with
      | nil i => exact .nil i
      | cons head tail iht => exact .cons (ih head) (iht tail)
  | next kinds => exact ⟨h.1, htokens ▸ h.2⟩
  | notNext kinds => exact ⟨h.1, htokens ▸ h.2⟩
  | finish => exact ⟨h.1, htokens ▸ h.2⟩
  | call s => exact hgives s i v j h

/-! ## §2. Readings of derived expressions. -/

theorem Reads.tok {kind : Kind} {t : Token}
    (h : (tok kind : Expr Symbol Result Token).Reads c i t j) :
    c.tokens[i]? = some t ∧ t.kind = kind ∧ j = i + 1 :=
  ⟨h.1, List.mem_singleton.mp h.2.1, h.2.2⟩

theorem Reads.seqLeft {x : Expr Symbol Result α} {y : Expr Symbol Result β} {v : α}
    (h : (x <* y).Reads c i v j) : ∃ k w, x.Reads c i v k ∧ y.Reads c k w j := by
  obtain ⟨k, g, ⟨v', hx, rfl⟩, w, hy, rfl⟩ := h
  exact ⟨k, w, hx, hy⟩

theorem Reads.seqRight {x : Expr Symbol Result α} {y : Expr Symbol Result β} {w : β}
    (h : (x *> y).Reads c i w j) : ∃ k v, x.Reads c i v k ∧ y.Reads c k w j := by
  obtain ⟨k, g, ⟨v, hx, rfl⟩, w', hy, rfl⟩ := h
  exact ⟨k, v, hx, hy⟩

theorem Reads.opt {x : Expr Symbol Result α} {o : Option α} (h : (opt x).Reads c i o j) :
    (o = none ∧ j = i) ∨ ∃ a, o = some a ∧ x.Reads c i a j := by
  rcases h with ⟨a, hx, rfl⟩ | h
  · exact .inr ⟨a, rfl, hx⟩
  · exact .inl h

theorem Reads.plus {x : Expr Symbol Result α} {as : List α} (h : (plus x).Reads c i as j) :
    ∃ a rest k, as = a :: rest ∧ x.Reads c i a k ∧ Repeats (x.Reads c) k rest j := by
  obtain ⟨k, g, ⟨a, hx, rfl⟩, rest, hrest, rfl⟩ := h
  exact ⟨a, rest, k, rfl, hx, hrest⟩

theorem Reads.sepBy1 {x : Expr Symbol Result α} {sep : Expr Symbol Result β} {as : List α}
    (h : (sepBy1 x sep).Reads c i as j) :
    ∃ a rest k, as = a :: rest ∧ x.Reads c i a k ∧ Repeats ((sep *> x).Reads c) k rest j := by
  obtain ⟨k, g, ⟨a, hx, rfl⟩, rest, hrest, rfl⟩ := h
  exact ⟨a, rest, k, rfl, hx, hrest⟩

theorem Reads.sepBy {x : Expr Symbol Result α} {sep : Expr Symbol Result β} {as : List α}
    (h : (Expr.sepBy x sep).Reads c i as j) :
    (Expr.sepBy1 x sep).Reads c i as j ∨ (as = [] ∧ j = i) :=
  h

theorem Reads.firstOf {xs : List (Expr Symbol Result α)} {last : Expr Symbol Result α} {v : α}
    (h : (Expr.firstOf xs last).Reads c i v j) :
    (∃ x ∈ xs, x.Reads c i v j) ∨ last.Reads c i v j := by
  induction xs with
  | nil => exact .inr h
  | cons x xs ih =>
      rcases h with h | h
      · exact .inl ⟨x, List.mem_cons_self, h⟩
      · rcases ih h with ⟨y, hy, h⟩ | h
        · exact .inl ⟨y, List.mem_cons_of_mem _ hy, h⟩
        · exact .inr h

theorem Reads.foldl_orElse {xs : List (Expr Symbol Result α)} {v : α} :
    ∀ {x : Expr Symbol Result α}, (xs.foldl Expr.orElse x).Reads c i v j →
      ∃ y ∈ x :: xs, y.Reads c i v j := by
  induction xs with
  | nil => exact fun h => ⟨_, List.mem_cons_self, h⟩
  | cons y xs ih =>
      intro x h
      obtain ⟨z, hz, h⟩ := ih h
      rcases List.mem_cons.mp hz with rfl | hz
      · rcases h with h | h
        · exact ⟨x, List.mem_cons_self, h⟩
        · exact ⟨y, List.mem_cons_of_mem _ List.mem_cons_self, h⟩
      · exact ⟨z, List.mem_cons_of_mem _ (List.mem_cons_of_mem _ hz), h⟩

/-! ## §3. What holds of every element. -/

variable {x : Expr Symbol Result α} {sep : Expr Symbol Result β} {P : α → Prop} {as : List α}

theorem Reads.opt_forall {o : Option α} (h : (Expr.opt x).Reads c i o j)
    (hx : ∀ i a j, x.Reads c i a j → P a) : ∀ a ∈ o, P a := by
  rintro a rfl
  rcases h.opt with ⟨ho, -⟩ | ⟨a', ho, ha⟩
  · cases ho
  · cases ho
    exact hx _ _ _ ha

theorem Reads.star_forall (h : (Expr.star x).Reads c i as j)
    (hx : ∀ i a j, x.Reads c i a j → P a) : ∀ a ∈ as, P a :=
  Repeats.forall h hx

theorem Reads.plus_forall (h : (Expr.plus x).Reads c i as j)
    (hx : ∀ i a j, x.Reads c i a j → P a) : ∀ a ∈ as, P a := by
  obtain ⟨a, rest, k, rfl, ha, hrest⟩ := h.plus
  exact List.forall_mem_cons.mpr ⟨hx _ _ _ ha, hrest.forall hx⟩

theorem Reads.sepBy1_forall (h : (Expr.sepBy1 x sep).Reads c i as j)
    (hx : ∀ i a j, x.Reads c i a j → P a) : ∀ a ∈ as, P a := by
  obtain ⟨a, rest, k, rfl, ha, hrest⟩ := h.sepBy1
  refine List.forall_mem_cons.mpr ⟨hx _ _ _ ha, hrest.forall ?_⟩
  -- each further element comes after a separator
  intro i a j h
  obtain ⟨k, v, -, h⟩ := h.seqRight
  exact hx _ _ _ h

theorem Reads.sepBy_forall (h : (Expr.sepBy x sep).Reads c i as j)
    (hx : ∀ i a j, x.Reads c i a j → P a) : ∀ a ∈ as, P a := by
  rcases h.sepBy with h | ⟨rfl, -⟩
  · exact h.sepBy1_forall hx
  · exact fun a ha => absurd ha List.not_mem_nil

end Expr

/-! ## §4. Operators by their levels. -/

theorem UnaryLevel.reads_head {c : Context Symbol Symbol.Result} {u : UnaryLevel}
    {operand : Nat → Rule Node} {i j : Nat} {n : Node} (h : (u.head operand).Reads c i n j) :
    ∃ op x, c.tokens[i]? = some op ∧ op.kind ∈ u.kinds ∧
      (operand u.level).Reads c (i + 1) x j ∧ n = Node.unary op x u.method := by
  obtain ⟨k, g, ⟨op, ⟨hop, hkind, rfl⟩, rfl⟩, x, hx, rfl⟩ := h
  exact ⟨op, x, hop, hkind, hx, rfl⟩

theorem BinaryLevel.reads_tail {c : Context Symbol Symbol.Result} {b : BinaryLevel}
    {operand : Nat → Rule Node} {k j : Nat} {f : Node → Node}
    (h : (b.tail operand).Reads c k f j) :
    ∃ op y, c.tokens[k]? = some op ∧ op.kind ∈ b.kinds ∧
      (operand b.rightLevel).Reads c (k + 1) y j ∧ ∀ x, f x = b.combine x op y := by
  obtain ⟨k', g, ⟨op, ⟨hop, hkind, rfl⟩, rfl⟩, y, hy, rfl⟩ := h
  exact ⟨op, y, hop, hkind, hy, fun _ => rfl⟩

/-- **What holds of operations of all levels.**  A property that unary and binary operators pass
from their operands to their result holds of everything that is read by climbing the levels. -/
theorem climb_reads {c : Context Symbol Symbol.Result} {P : Nat → Node → Nat → Prop}
    {unary : List UnaryLevel} {binary : List BinaryLevel} {atom : Rule Node}
    {operand : Nat → Rule Node} {level : Nat}
    (hunary : ∀ u ∈ unary, ∀ i op x j, c.tokens[i]? = some op → op.kind ∈ u.kinds →
      P (i + 1) x j → P i (Node.unary op x u.method) j)
    (hbinary : ∀ b ∈ binary, ∀ i x k op y j, P i x k → c.tokens[k]? = some op →
      op.kind ∈ b.kinds → P (k + 1) y j → P i (b.combine x op y) j)
    (hatom : ∀ i n j, atom.Reads c i n j → P i n j)
    (hoperand : ∀ l i n j, (operand l).Reads c i n j → P i n j) {i j : Nat} {n : Node}
    (h : (climb unary binary atom operand level).Reads c i n j) : P i n j := by
  have hfirst : ∀ {i n j},
      (Expr.firstOf (unary.map (·.head operand)) atom).Reads c i n j → P i n j := by
    intro i n j h
    rcases h.firstOf with ⟨x, hx, h⟩ | h
    · obtain ⟨u, hu, rfl⟩ := List.mem_map.mp hx
      obtain ⟨op, x, hop, hkind, hx, rfl⟩ := u.reads_head h
      exact hunary u hu i op x j hop hkind (hoperand _ _ _ _ hx)
    · exact hatom i n j h
  have htail : ∀ t ∈ (binary.filter (level ≤ ·.level)).map (·.tail operand),
      ∀ {i x k f j}, P i x k → t.Reads c k f j → P i (f x) j := by
    intro t ht i x k f j hx h
    obtain ⟨b, hb, rfl⟩ := List.mem_map.mp ht
    obtain ⟨op, y, hop, hkind, hy, hf⟩ := b.reads_tail h
    rw [hf]
    exact hbinary b (List.mem_filter.mp hb).1 i x k op y j hx hop hkind (hoperand _ _ _ _ hy)
  simp only [climb] at h
  split at h
  next => exact hfirst h
  next tail tails heq =>
    rw [heq] at htail
    obtain ⟨k, g, ⟨x, hx, rfl⟩, fs, hfs, rfl⟩ := h
    replace hx := hfirst hx
    -- The operators to the right are applied one after the other to what has been read so far,
    -- so the induction is on them and holds for any operand that has the property.
    clear heq
    induction hfs generalizing x with
    | nil => exact hx
    | cons head rest ih =>
        obtain ⟨t, ht, head⟩ := head.foldl_orElse
        exact ih _ (htail t ht hx head)

/-! ## §5. Patterns. -/

/-- The symbols of patterns. -/
def Symbol.isPattern : Symbol → Bool
  | .topPattern | .pattern | .keyPattern => true
  | _ => false

end RubySyntax.Grammar
