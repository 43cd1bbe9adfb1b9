/-
  RubySyntax.Proofs.Text.Quoted
  ─────────────────────────────
  **QUOTED STRINGS SHOW WHAT THEY QUOTE.**

  A quoted character is the character itself, or a backslash with one character behind it, or a
  backslash with a code point between braces.  No two characters are quoted alike, and none is
  quoted as the beginning of another one; so a text can be told from its quoted string.

  Main results:
    • `hexDigits_injective` — numbers differ in their digits,
    • `quoteChar_append_inj` — where a quoted character ends can be told from what follows,
    • `quote_injective` — texts differ in their quoted strings.
-/
import Mathlib.Logic.Function.Defs
import RubySyntax.Text.Quoted

namespace RubySyntax.Text

/-! ## §1. Where a word ends. -/

/-- Two lists begin with the same word if the words are followed by what no word contains. -/
theorem append_cons_inj {α : Type} {p : α → Prop} {a b : α} {s t : List α} (ha : ¬ p a)
    (hb : ¬ p b) : ∀ {x y : List α}, (∀ c ∈ x, p c) → (∀ c ∈ y, p c) →
      x ++ a :: s = y ++ b :: t → x = y ∧ a :: s = b :: t
  | [], [], _, _, h => ⟨rfl, h⟩
  | [], c :: _, _, hy, h => by
      cases (List.cons.inj h).1
      exact absurd (hy _ List.mem_cons_self) ha
  | c :: _, [], hx, _, h => by
      cases (List.cons.inj h).1
      exact absurd (hx _ List.mem_cons_self) hb
  | c :: x, d :: y, hx, hy, h => by
      obtain ⟨rfl, htail⟩ := List.cons.inj h
      obtain ⟨rfl, hrest⟩ := append_cons_inj ha hb (List.forall_mem_cons.mp hx).2
        (List.forall_mem_cons.mp hy).2 htail
      exact ⟨rfl, hrest⟩

/-! ## §2. Digits in base sixteen. -/

theorem digitChar_inj : ∀ a < 16, ∀ b < 16, Nat.digitChar a = Nat.digitChar b → a = b := by
  decide

theorem hexDigits_eq (n : Nat) : hexDigits n =
    if n < 16 then [n.digitChar] else hexDigits (n / 16) ++ [(n % 16).digitChar] :=
  Nat.toDigits_eq_if (by decide)

theorem hexDigits_ne_nil (n : Nat) : hexDigits n ≠ [] := by
  rw [hexDigits_eq]
  split
  · exact List.cons_ne_nil _ _
  · exact List.append_ne_nil_of_right_ne_nil _ (List.cons_ne_nil _ _)

theorem exists_digit_of_mem_hexDigits {c : Char} :
    ∀ {n : Nat}, c ∈ hexDigits n → ∃ d < 16, c = Nat.digitChar d := by
  intro n
  induction n using Nat.strongRecOn with
  | ind n ih =>
      intro h
      rw [hexDigits_eq] at h
      split at h
      next hlt => exact ⟨n, hlt, List.mem_singleton.mp h⟩
      next hle =>
        rcases List.mem_append.mp h with h | h
        · exact ih (n / 16) (by omega) h
        · exact ⟨n % 16, by omega, List.mem_singleton.mp h⟩

/-- **Numbers differ in their digits.** -/
theorem hexDigits_injective : ∀ {m n : Nat}, hexDigits m = hexDigits n → m = n := by
  intro m
  induction m using Nat.strongRecOn with
  | ind m ih =>
      intro n h
      rw [hexDigits_eq m, hexDigits_eq n] at h
      split at h
      next hm =>
        split at h
        next hn => exact digitChar_inj m hm n hn (List.singleton_inj.mp h)
        next =>
          -- one digit is no more than one
          have hlength := congrArg List.length h
          have hpos := List.length_pos_iff.mpr (hexDigits_ne_nil (n / 16))
          rw [List.length_append, List.length_singleton, List.length_singleton] at hlength
          omega
      next hm =>
        split at h
        next =>
          have hlength := congrArg List.length h
          have hpos := List.length_pos_iff.mpr (hexDigits_ne_nil (m / 16))
          rw [List.length_append, List.length_singleton, List.length_singleton] at hlength
          omega
        next hn =>
          obtain ⟨hfront, hlast⟩ := List.append_inj' h rfl
          have hdiv := ih (m / 16) (by omega) hfront
          have hmod := digitChar_inj (m % 16) (by omega) (n % 16) (by omega)
            (List.singleton_inj.mp hlast)
          omega

/-! ## §3. Quoted characters. -/

/-- The characters with a short escape, each with what stands behind the backslash. -/
def shortEscapes : List (Char × Char) :=
  [('\x00', '0'), ('\t', 't'), ('\r', 'r'), ('\n', 'n'), ('\\', '\\'), ('\x22', '\x22')]

/-- **How a character is quoted**: by a short escape, by its code point, or as itself. -/
theorem quoteChar_cases (c : Char) :
    (∃ e, (c, e) ∈ shortEscapes ∧ quoteChar c = ['\\', e]) ∨
      quoteChar c = codePoint c ∨
      quoteChar c = [c] ∧ c ≠ '\\' := by
  unfold quoteChar
  split
  next h => exact .inl ⟨'0', by simp [shortEscapes, beq_iff_eq.mp h], rfl⟩
  split
  next h => exact .inl ⟨'t', by simp [shortEscapes, beq_iff_eq.mp h], rfl⟩
  split
  next h => exact .inl ⟨'r', by simp [shortEscapes, beq_iff_eq.mp h], rfl⟩
  split
  next h => exact .inl ⟨'n', by simp [shortEscapes, beq_iff_eq.mp h], rfl⟩
  split
  next h =>
    rcases Bool.or_eq_true_iff.mp h with h | h
    · exact .inl ⟨c, by simp [shortEscapes, beq_iff_eq.mp h], rfl⟩
    · exact .inl ⟨c, by simp [shortEscapes, beq_iff_eq.mp h], rfl⟩
  next hplain =>
    split
    · exact .inr (.inl rfl)
    · exact .inr (.inr ⟨rfl, fun hc => hplain (by simp [hc])⟩)

theorem shortEscapes_inj : ∀ a ∈ shortEscapes, ∀ b ∈ shortEscapes, a.2 = b.2 → a.1 = b.1 := by
  decide

theorem shortEscapes_ne_u : ∀ a ∈ shortEscapes, a.2 ≠ 'u' := by
  decide

/-- Where a code point ends can be told from what follows. -/
theorem codePoint_append_inj {c d : Char} {s t : List Char}
    (h : codePoint c ++ s = codePoint d ++ t) : c = d ∧ s = t := by
  have hbrace : ∀ n, ∀ c ∈ hexDigits n, c ≠ '\x7d' := by
    rintro n _ hmem rfl
    obtain ⟨d, hd, heq⟩ := exists_digit_of_mem_hexDigits hmem
    revert d
    decide
  simp only [codePoint, List.cons_append, List.nil_append, List.append_assoc, List.cons.injEq,
    true_and] at h
  obtain ⟨hdigits, hrest⟩ := append_cons_inj (p := (· ≠ '\x7d')) (fun h => h rfl) (fun h => h rfl)
    (hbrace _) (hbrace _) h
  exact ⟨Char.toNat_inj.mp (hexDigits_injective hdigits), (List.cons.inj hrest).2⟩

/-- **Where a quoted character ends can be told from what follows.** -/
theorem quoteChar_append_inj {c d : Char} {s t : List Char}
    (h : quoteChar c ++ s = quoteChar d ++ t) : c = d ∧ s = t := by
  rcases quoteChar_cases c with ⟨e, he, hc⟩ | hc | ⟨hc, hplain⟩ <;>
    rcases quoteChar_cases d with ⟨f, hf, hd⟩ | hd | ⟨hd, hplain'⟩ <;>
    rw [hc, hd] at h
  · -- two short escapes
    obtain ⟨rfl, hrest⟩ := List.cons.inj (List.cons.inj h).2
    exact ⟨shortEscapes_inj _ he _ hf rfl, hrest⟩
  · exact absurd (List.cons.inj (List.cons.inj h).2).1 (shortEscapes_ne_u _ he)
  · exact absurd (List.cons.inj h).1.symm hplain'
  · exact absurd (List.cons.inj (List.cons.inj h).2).1.symm (shortEscapes_ne_u _ hf)
  · exact codePoint_append_inj h
  · exact absurd (List.cons.inj h).1.symm hplain'
  · exact absurd (List.cons.inj h).1 hplain
  · exact absurd (List.cons.inj h).1 hplain
  · obtain ⟨rfl, hrest⟩ := List.cons.inj h
    exact ⟨rfl, hrest⟩

/-! ## §4. Quoted strings. -/

theorem quoteChar_ne_nil (c : Char) : quoteChar c ≠ [] := by
  rcases quoteChar_cases c with ⟨e, -, h⟩ | h | ⟨h, -⟩
  all_goals
    rw [h]
    exact List.cons_ne_nil _ _

theorem flatMap_quoteChar_injective :
    ∀ {cs ds : List Char}, cs.flatMap quoteChar = ds.flatMap quoteChar → cs = ds
  | [], [], _ => rfl
  | [], d :: _, h => absurd (List.append_eq_nil_iff.mp h.symm).1 (quoteChar_ne_nil d)
  | c :: _, [], h => absurd (List.append_eq_nil_iff.mp h).1 (quoteChar_ne_nil c)
  | _ :: _, _ :: _, h => by
      obtain ⟨rfl, hrest⟩ := quoteChar_append_inj h
      rw [flatMap_quoteChar_injective hrest]

/-- **Texts differ in their quoted strings.** -/
theorem quote_injective : Function.Injective quote := by
  intro s t h
  have hchars := List.append_cancel_right (List.cons.inj (String.ofList_injective h)).2
  exact String.toList_injective (flatMap_quoteChar_injective hchars)

end RubySyntax.Text
