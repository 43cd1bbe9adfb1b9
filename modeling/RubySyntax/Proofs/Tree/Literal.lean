/-
  RubySyntax.Proofs.Tree.Literal
  ──────────────────────────────
  **LITERALS SHOW IN THEIR TEXT.**

  The text of a literal is its tag and its value between parentheses.  The tag ends where a space
  or the closing parenthesis stands, and values of one form differ in their texts: names and
  quoted texts do, and so do whole numbers.  A number that is written as a text is quoted, and a
  floating-point number has a point, an exponent or a word, so numbers of different forms differ
  too.  That floating-point numbers differ in their texts is not proved but asked for.

  Main results:
    • `floatText_chars` — how the text of a floating-point number looks,
    • `literal_sexp_inj` — literals with the same text are the same but for their places,
    • `sexp_unplaced` — the text of a tree does not depend on its places.
-/
import Mathlib
import RubySyntax.Node.Warning
import RubySyntax.Proofs.Text.Quoted
import RubySyntax.Proofs.Tree.Layout
import RubySyntax.Proofs.Tree.Unplaced

namespace RubySyntax

open Decimal

/-! ## §1. Texts of numbers. -/

theorem integer_chars (value : Int) : ∀ c ∈ value.repr.toList, c.isDigit ∨ c = '-' := by
  intro c hc
  cases value with
  | ofNat n =>
      rw [Int.repr, Nat.toList_repr] at hc
      exact .inl (Nat.isDigit_of_mem_toDigits (by decide) (by decide) hc)
  | negSucc n =>
      rw [Int.repr, String.toList_append, Nat.toList_repr] at hc
      rcases List.mem_append.mp hc with hc | hc
      · exact .inr (List.mem_singleton.mp hc)
      · exact .inl (Nat.isDigit_of_mem_toDigits (by decide) (by decide) hc)

theorem quote_not_mem_integer (value : Int) : '\x22' ∉ value.repr.toList := by
  intro hmem
  rcases integer_chars value _ hmem with h | h
  · cases h
  · cases h

namespace Decimal

theorem Digits.ofNat_isDigit (n : Nat) (step : Int) :
    ∀ c ∈ (Digits.ofNat n step).digits, c.isDigit := by
  intro c hc
  have hmem : c ∈ Nat.toDigits 10 n := by
    have hdropped := (List.dropWhile_sublist _).subset (List.mem_reverse.mp hc)
    exact List.mem_reverse.mp hdropped
  exact Nat.isDigit_of_mem_toDigits (by decide) (by decide) hmem

theorem Magnitude.shortest_isDigit (x : Magnitude) : ∀ c ∈ x.shortest.digits, c.isDigit := by
  unfold shortest
  dsimp only
  generalize hfound : (List.range mostDigits).findSome? _ = found
  cases found with
  | none => exact Digits.ofNat_isDigit _ _
  | some digits =>
      obtain ⟨k, -, hk⟩ := List.exists_of_findSome?_eq_some hfound
      obtain ⟨n, -, rfl⟩ := Option.map_eq_some_iff.mp hk
      exact Digits.ofNat_isDigit _ _

/-- Digits with a point have a point, and no quotation mark. -/
theorem Digits.positional_chars {d : Digits} (hd : ∀ c ∈ d.digits, c.isDigit) :
    '.' ∈ d.positional ∧ '\x22' ∉ d.positional := by
  have hquote : '\x22' ∉ d.digits := fun hmem => by cases hd _ hmem
  unfold positional
  split
  · simp [hquote]
  · dsimp only
    have htake : '\x22' ∉ d.digits.take d.point.natAbs := fun h => hquote (List.mem_of_mem_take h)
    have hdrop : '\x22' ∉ d.digits.drop d.point.natAbs := fun h => hquote (List.mem_of_mem_drop h)
    split
    · simp [htake]
    · simp [htake, hdrop]

/-- Digits with an exponent have its mark, and no quotation mark. -/
theorem Digits.scientific_chars {d : Digits} (hd : ∀ c ∈ d.digits, c.isDigit) :
    'e' ∈ d.scientific ['e'] ∧ '\x22' ∉ d.scientific ['e'] := by
  have hquote : '\x22' ∉ d.digits := fun hmem => by cases hd _ hmem
  have htake : '\x22' ∉ d.digits.take 1 := fun h => hquote (List.mem_of_mem_take h)
  have htail : '\x22' ∉ d.digits.tail := fun h => hquote (List.mem_of_mem_tail h)
  unfold scientific
  dsimp only
  split
  · simp [htake, quote_not_mem_integer]
  · simp [htake, htail, quote_not_mem_integer]

end Decimal

namespace Node

/-- **How the text of a floating-point number looks**: it has a point, an exponent or a word, which
no whole number has, and no quotation mark, which every quoted text has. -/
theorem floatText_chars (x : Float) :
    (∃ c ∈ (floatText x).toList, ¬ (c.isDigit ∨ c = '-')) ∧ '\x22' ∉ (floatText x).toList := by
  unfold floatText render
  dsimp only
  rw [String.toList_ofList]
  obtain ⟨sign, hsign⟩ : ∃ sign, sign = (if x.toBits.toNat / Nat.pow 2 63 == 1 then ['-'] else []) :=
    ⟨_, rfl⟩
  have hquote : '\x22' ∉ sign := by
    rw [hsign]
    split <;> simp
  rw [← hsign]
  split
  · split
    · exact ⟨⟨'i', by simp [floatStyle], by decide⟩, by simp [floatStyle, hquote]⟩
    · exact ⟨⟨'N', by simp [floatStyle], by decide⟩, by simp [floatStyle]⟩
  split
  · exact ⟨⟨'.', by simp, by decide⟩, by simp [hquote]⟩
  · generalize hdigits : (magnitudeOfBits _ _).shortest = digits
    have hd : ∀ c ∈ digits.digits, c.isDigit := by
      rw [← hdigits]
      exact Magnitude.shortest_isDigit _
    unfold Digits.layout
    split
    · obtain ⟨hpoint, hnone⟩ := Digits.positional_chars hd
      exact ⟨⟨'.', List.mem_append_right _ hpoint, by decide⟩, by simp [hquote, hnone]⟩
    · obtain ⟨hmark, hnone⟩ := Digits.scientific_chars hd
      exact ⟨⟨'e', List.mem_append_right _ hmark, by decide⟩, by simp [floatStyle, hquote, hnone]⟩

/-! ## §2. Texts of slots. -/

theorem quote_chars (value : String) : '\x22' ∈ (Text.quote value).toList := by
  rw [Text.quote, String.toList_ofList]
  exact List.mem_cons_self

/-- The floating-point numbers in two slots differ in their texts, if both slots hold one. -/
def FloatsDiffer (c d : Child) : Prop :=
  ∀ x y, c = .float x → d = .float y → floatText x = floatText y → x = y

/-- **Numbers differ in their texts**, whatever form they have. -/
theorem number_inj {c d : Child} (hc : Form.number.holds c = true) (hd : Form.number.holds d = true)
    (hfloats : FloatsDiffer c d) (h : childSexp c = childSexp d) : c = d := by
  have hmixed : ∀ (value : Int) (x : Float), value.repr ≠ floatText x := by
    intro value x h
    obtain ⟨⟨c, hc, hno⟩, -⟩ := floatText_chars x
    exact hno (integer_chars value c (h ▸ hc))
  cases c <;> cases d <;> simp only [Form.holds, Bool.false_eq_true] at hc hd
  all_goals simp only [childSexp, Int.toString_eq_repr] at h
  · rw [Text.quote_injective h]
  · exact absurd (h ▸ quote_chars _) (quote_not_mem_integer _)
  · exact absurd (h ▸ quote_chars _) (floatText_chars _).2
  · exact absurd (h.symm ▸ quote_chars _) (quote_not_mem_integer _)
  · rw [Int.repr_injective h]
  · exact absurd h (hmixed _ _)
  · exact absurd (h.symm ▸ quote_chars _) (floatText_chars _).2
  · exact absurd h.symm (hmixed _ _)
  · rw [hfloats _ _ rfl rfl h]

/-- **Values of one form differ in their texts.** -/
theorem childSexp_inj {form : Form} (hform : form ∈ [Form.name, .text, .number]) {c d : Child}
    (hc : form.holds c = true) (hd : form.holds d = true) (hfloats : FloatsDiffer c d)
    (h : childSexp c = childSexp d) : c = d := by
  simp only [List.mem_cons, List.not_mem_nil, or_false] at hform
  rcases hform with rfl | rfl | rfl
  · cases c <;> cases hc
    cases d <;> cases hd
    have hname := (String.append_right_inj _).mp h
    rw [hname]
  · cases c <;> cases hc
    cases d <;> cases hd
    rw [Text.quote_injective h]
  · exact number_inj hc hd hfloats h

/-! ## §3. Literals. -/

/-- The kinds of the literals without parts to evaluate. -/
def literalKinds : List Kind :=
  [.int, .float, .rational, .complex, .str, .sym, .nilLit, .trueLit, .falseLit]

theorem isLiteral_iff (n : Node) : n.isLiteral = true ↔ n.kind ∈ literalKinds := by
  have hkinds : ∀ k children span,
      (Node.mk k children span).isLiteral = true ↔ k ∈ literalKinds := by
    intro k children span
    cases k <;> simp [isLiteral, literalKinds, kind]
  cases n with
  | mk k children span => exact hkinds k children span

/-- A literal has no slot, or one with a name, a text or a number. -/
theorem layouts_of_literal : ∀ k ∈ literalKinds, k.layouts = [.exactly []] ∨
    ∃ form ∈ [Form.name, .text, .number], k.layouts = [.exactly [form]] := by
  decide

theorem eq_nil_of_fits {k : Kind} {children : List Child} (hk : k.layouts = [.exactly []])
    (h : k.fits children = true) : children = [] := by
  rw [Kind.fits, hk] at h
  cases children with
  | nil => rfl
  | cons c rest => simp at h

theorem exists_of_fits {k : Kind} {children : List Child} {form : Form}
    (hk : k.layouts = [.exactly [form]]) (h : k.fits children = true) :
    ∃ c, children = [c] ∧ form.holds c = true := by
  rw [Kind.fits, hk] at h
  match children with
  | [] => simp at h
  | [c] => exact ⟨c, rfl, by simpa using h⟩
  | _ :: _ :: _ => simp at h

theorem tag_inj_of_literal : ∀ k ∈ literalKinds, ∀ l ∈ literalKinds, k.tag = l.tag → k = l := by
  decide +kernel

/-- The characters of a tag; a space or a parenthesis stands behind it. -/
theorem tag_chars_of_literal : ∀ k ∈ literalKinds, ∀ c ∈ k.tag.toList, c ≠ ' ' ∧ c ≠ ')' := by
  intro k hk
  simp only [literalKinds, List.mem_cons, List.not_mem_nil, or_false] at hk
  rcases hk with rfl | rfl | rfl | rfl | rfl | rfl | rfl | rfl | rfl <;> simp [Kind.tag]

theorem toList_sexp (kind : Kind) (children : List Child) (span : Span) :
    (Node.mk kind children span).sexp.toList =
      '(' :: (kind.tag.toList ++ (childrenSexp children ++ ")").toList) := by
  simp [sexp]

/-- What stands behind the tag of a node. -/
theorem exists_after_tag (children : List Child) :
    ∃ c rest, (childrenSexp children ++ ")").toList = c :: rest ∧ ¬ (c ≠ ' ' ∧ c ≠ ')') := by
  cases children with
  | nil => exact ⟨')', [], by simp [childrenSexp], by decide⟩
  | cons c rest => exact ⟨' ', _, by simp [childrenSexp]; rfl, by decide⟩

/-- **Literals with the same text are the same**, but for their places. -/
theorem literal_sexp_inj {m n : Node} (hm : m.isLiteral = true) (hn : n.isLiteral = true)
    (hmfits : Fits m) (hnfits : Fits n)
    (hfloats : ∀ c ∈ m.children, ∀ d ∈ n.children, FloatsDiffer c d) (h : m.sexp = n.sexp) :
    m.unplaced = n.unplaced := by
  obtain ⟨k, cs, s⟩ := m
  obtain ⟨l, ds, t⟩ := n
  have hk : k ∈ literalKinds := (isLiteral_iff _).mp hm
  have hl : l ∈ literalKinds := (isLiteral_iff _).mp hn
  -- the tag ends where a space or the parenthesis stands
  have hsexp := congrArg String.toList h
  obtain ⟨c, after, hafter, hc⟩ := exists_after_tag cs
  obtain ⟨d, after', hafter', hd⟩ := exists_after_tag ds
  rw [toList_sexp, toList_sexp, hafter, hafter'] at hsexp
  obtain ⟨htag, hrest⟩ := Text.append_cons_inj (p := fun c => c ≠ ' ' ∧ c ≠ ')') hc hd
    (tag_chars_of_literal k hk)
    (tag_chars_of_literal l hl) (List.cons.inj hsexp).2
  obtain rfl := tag_inj_of_literal k hk l hl (String.toList_injective htag)
  rw [← hafter, ← hafter'] at hrest
  have hslots : childrenSexp cs = childrenSexp ds :=
    (String.append_left_inj _).mp (String.toList_injective hrest)
  -- so both have no slot, or one slot of the same form
  have hcs : cs = ds := by
    rcases layouts_of_literal k hk with hlayouts | ⟨form, hform, hlayouts⟩
    · obtain rfl := eq_nil_of_fits hlayouts hmfits
      obtain rfl := eq_nil_of_fits hlayouts hnfits
      rfl
    · obtain ⟨c, rfl, hc⟩ := exists_of_fits hlayouts hmfits
      obtain ⟨d, rfl, hd⟩ := exists_of_fits hlayouts hnfits
      have hslot : childSexp c = childSexp d := by simpa [childrenSexp] using hslots
      rw [childSexp_inj hform hc hd (hfloats c List.mem_cons_self d List.mem_cons_self) hslot]
  rw [unplaced_mk, unplaced_mk, hcs]

/-! ## §4. Trees. -/

/-- The text of a tree does not depend on its places. -/
theorem sexp_unplaced (n : Node) : n.unplaced.sexp = n.sexp := by
  induction n using ind with
  | mk kind children span ih =>
      have hslot : ∀ c ∈ children, childSexp c.unplaced = childSexp c := by
        intro c hc
        cases c with
        | node n =>
            rw [Child.unplaced_node, childSexp, childSexp]
            exact ih n hc
        | _ => simp
      have hslots : childrenSexp (children.map Child.unplaced) = childrenSexp children := by
        clear ih
        induction children with
        | nil => rfl
        | cons c rest ihrest =>
            obtain ⟨hc, hrest⟩ := List.forall_mem_cons.mp hslot
            rw [List.map_cons, childrenSexp, childrenSexp, hc, ihrest hrest]
      rw [unplaced_mk, sexp, sexp, hslots]

end Node

end RubySyntax
