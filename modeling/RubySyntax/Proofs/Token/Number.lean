/-
  RubySyntax.Proofs.Token.Number
  ──────────────────────────────
  **A MINUS BEFORE A NUMBER THAT IS RAISED TO A POWER.**

  The minus before a number is a token of its own if the power operator follows the number.  The
  number has not been read there, so `powerFollows` looks past anything that looks like one:
  letters, digits, low lines, and points before a digit.  `numberLength` reads what is one.  The
  two stop at the same place unless

      1e-5 ** 2      the exponent has a sign, where the look ahead stops
      1.5.3 ** 2     something runs on right behind the number, which the look ahead skips

  and in the first case a power that follows is missed.

  Main results:
    • `skipped_or_halted_number` — the look ahead passes a number or stops at a sign in it,
    • `powerFollows_eq_powerAhead_iff` — exactly where it is right about what follows the number,
    • `step_minus_number` — a step at a minus before a digit,
    • `minus_number` — the tokens that the minus and the number become.
-/
import RubySyntax.Proofs.Token.Transparent

namespace RubySyntax.Token.Lexer

open RubySyntax.Text

/-! ## §1. The look ahead, part by part. -/

/-- Whether the power operator comes after any spaces and tabs. -/
def powerAhead (cs : List Char) : Bool := "**".toList.isPrefixOf (cs.dropWhile isSpaceOrTab)

/-- The sign of an exponent. -/
def isSign (c : Char) : Bool := c == '+' || c == '-'

/-- Whether a text begins with what the look ahead skips. -/
def runsOn : List Char → Bool
  | [] => false
  | c :: rest => isLetter c || isDigitOrLine c || (c == '.' && nextIs isDigit rest)

/-- The look ahead passes the first `n` characters, and no sign is among them. -/
def Skipped (cs : List Char) (n : Nat) : Prop :=
  skipNumber cs = skipNumber (cs.drop n) ∧ (cs.take n).any isSign = false

/-- The look ahead stops at a sign among the first `n` characters. -/
def Halted (cs : List Char) (n : Nat) : Prop :=
  nextIs isSign (skipNumber cs) = true ∧ (cs.take n).any isSign = true

variable {cs rest : List Char} {c : Char} {m n : Nat}

theorem skipNumber_cons_of_runsOn (h : runsOn (c :: rest) = true) :
    skipNumber (c :: rest) = skipNumber rest := by
  rw [skipNumber]
  exact if_pos h

theorem skipNumber_of_not_runsOn (h : runsOn cs = false) : skipNumber cs = cs := by
  cases cs with
  | nil => rfl
  | cons c rest => exact if_neg (Bool.not_eq_true _ ▸ h)

theorem isSign_of_runsOn (h : runsOn (c :: rest) = true) : isSign c = false := by
  rw [Bool.eq_false_iff]
  intro hsign
  rw [isSign, Bool.or_eq_true, beq_iff_eq, beq_iff_eq] at hsign
  obtain rfl | rfl := hsign <;> simp [runsOn, isLetter, isUpper, isLower, isDigitOrLine, isDigit] at h

theorem skipped_zero (cs : List Char) : Skipped cs 0 := ⟨rfl, rfl⟩

theorem Skipped.cons (h : Skipped rest n) (hc : runsOn (c :: rest) = true) :
    Skipped (c :: rest) (n + 1) := by
  refine ⟨(skipNumber_cons_of_runsOn hc).trans h.1, ?_⟩
  rw [List.take_succ_cons, List.any_cons, h.2, isSign_of_runsOn hc]
  rfl

theorem Skipped.add (h : Skipped cs m) (h' : Skipped (cs.drop m) n) : Skipped cs (m + n) := by
  refine ⟨?_, ?_⟩
  · rw [h.1, h'.1, List.drop_drop]
  · rw [List.take_add, List.any_append, h.2, h'.2]
    rfl

theorem Skipped.add_halted (h : Skipped cs m) (h' : Halted (cs.drop m) n) :
    Halted cs (m + n) := by
  refine ⟨?_, ?_⟩
  · rw [h.1]
    exact h'.1
  · rw [List.take_add, List.any_append, h'.2, Bool.or_true]

theorem Halted.mono (h : Halted cs m) (hmn : m ≤ n) : Halted cs n := by
  refine ⟨h.1, ?_⟩
  obtain ⟨c, hc, hsign⟩ := List.any_eq_true.mp h.2
  exact List.any_eq_true.mpr ⟨c, (List.take_prefix_take_left hmn).subset hc, hsign⟩

/-- A run of characters, each of which the look ahead skips. -/
theorem skipped_takeWhile {p : Char → Bool} (hp : ∀ c, p c = true → isLetter c || isDigitOrLine c) :
    ∀ cs : List Char, Skipped cs (cs.takeWhile p).length
  | [] => skipped_zero []
  | c :: rest => by
      rw [List.takeWhile_cons]
      split
      next hc =>
        refine (skipped_takeWhile hp rest).cons ?_
        rw [runsOn, hp c hc]
        rfl
      next => exact skipped_zero _

theorem skipped_digits (cs : List Char) : Skipped cs (cs.takeWhile isDigitOrLine).length :=
  skipped_takeWhile (fun _ h => by rw [h, Bool.or_true]) cs

theorem skipped_hexDigits (cs : List Char) : Skipped cs (cs.takeWhile isHexOrLine).length := by
  refine skipped_takeWhile (fun c h => ?_) cs
  simp only [isHexOrLine, isHexDigit, isDigitOrLine, isLetter, isUpper, isLower, Bool.or_eq_true,
    Bool.and_eq_true, decide_eq_true_eq] at h ⊢
  have hf : ('f' : Char) ≤ 'z' := by decide
  have hF : ('F' : Char) ≤ 'Z' := by decide
  obtain ((h | h) | h) | h := h
  · exact .inr (.inl h)
  · exact .inl (.inr ⟨h.1, Char.le_trans h.2 hf⟩)
  · exact .inl (.inl ⟨h.1, Char.le_trans h.2 hF⟩)
  · exact .inr (.inr h)

theorem skipped_fraction (cs : List Char) : Skipped cs (fractionLength cs) := by
  unfold fractionLength
  split
  next rest =>
    split
    next hdigit =>
      rw [Nat.add_comm]
      exact (skipped_digits rest).cons (by rw [runsOn, hdigit]; rfl)
    next => exact skipped_zero _
  next => exact skipped_zero _

/-- The letter of an exponent is skipped; so are the digits behind it, but not a sign. -/
theorem skipped_or_halted_exponent (cs : List Char) :
    Skipped cs (exponentLength cs) ∨ Halted cs (exponentLength cs) := by
  unfold exponentLength
  split
  next mark rest =>
    split
    next hmark =>
      have hletter : ∀ rest, runsOn (mark :: rest) = true := by
        rw [Bool.or_eq_true, beq_iff_eq, beq_iff_eq] at hmark
        obtain rfl | rfl := hmark <;> exact fun _ => rfl
      split
      next =>
        rw [Nat.add_comm]
        exact .inl ((skipped_digits rest).cons (hletter _))
      next =>
        split
        next sign digits _ =>
          split
          -- the skip does not pass a sign, though the exponent has one
          next hsign =>
            rw [Bool.and_eq_true] at hsign
            have hhalt : runsOn (sign :: digits) = false := by
              rw [Bool.eq_false_iff]
              intro hruns
              exact absurd hsign.1 (by rw [← isSign, isSign_of_runsOn hruns]; decide)
            refine .inr ⟨?_, ?_⟩
            · rw [skipNumber_cons_of_runsOn (hletter _), skipNumber_of_not_runsOn hhalt]
              exact hsign.1
            · rw [Nat.add_comm, List.take_succ_cons, List.any_cons, List.take_succ_cons,
                List.any_cons, isSign, isSign, hsign.1, Bool.true_or, Bool.or_true]
          next => exact .inl (skipped_zero _)
        next => exact .inl (skipped_zero _)
    next => exact .inl (skipped_zero _)
  next => exact .inl (skipped_zero _)

theorem skipped_or_halted_body (cs : List Char) :
    Skipped cs (bodyLength cs).2 ∨ Halted cs (bodyLength cs).2 := by
  unfold bodyLength
  split
  next hradix =>
    -- a zero and a letter, and digits of base sixteen
    rw [Bool.and_eq_true, beq_iff_eq] at hradix
    obtain ⟨rest, rfl⟩ := List.head?_eq_some_iff.mp hradix.1
    obtain ⟨letter, digits, rfl, hletter⟩ := exists_cons_of_nextIs hradix.2
    have hruns : runsOn (letter :: digits) = true := by
      simp only [isRadixLetter, Bool.or_eq_true, beq_iff_eq] at hletter
      rcases hletter with ((((((rfl | rfl) | rfl) | rfl) | rfl) | rfl) | rfl) | rfl <;> rfl
    have hmark : Skipped ('0' :: letter :: digits) 2 := ((skipped_zero digits).cons hruns).cons rfl
    exact .inl (hmark.add (skipped_hexDigits digits))
  next =>
    have hdecimal := (skipped_digits cs).add (skipped_fraction _)
    exact (skipped_or_halted_exponent _).imp hdecimal.add hdecimal.add_halted

/-- A letter behind what was read is read too. -/
theorem skipped_or_halted_letter {d : Char} (hd : isLetter d = true)
    (h : Skipped cs n ∨ Halted cs n) (hhead : (cs.drop n).head? = some d) :
    Skipped cs (n + 1) ∨ Halted cs (n + 1) := by
  obtain ⟨rest, hrest⟩ := List.head?_eq_some_iff.mp hhead
  have hone : Skipped (cs.drop n) 1 := by
    rw [hrest]
    exact (skipped_zero rest).cons (by rw [runsOn, hd]; rfl)
  exact h.imp (fun h => h.add hone) fun h => h.mono (Nat.le_succ n)

/-- **The look ahead passes a number**, unless it stops at a sign in it. -/
theorem skipped_or_halted_number (cs : List Char) :
    Skipped cs (numberLength cs).2 ∨ Halted cs (numberLength cs).2 := by
  have hbody := skipped_or_halted_body cs
  simp only [numberLength]
  split
  next hrational =>
    rw [Bool.and_eq_true, beq_iff_eq] at hrational
    have hn := skipped_or_halted_letter (by decide) hbody hrational.1
    split
    next himaginary =>
      rw [Bool.and_eq_true, beq_iff_eq] at himaginary
      exact skipped_or_halted_letter (by decide) hn himaginary.1
    next => exact hn
  next =>
    split
    next himaginary =>
      rw [Bool.and_eq_true, beq_iff_eq] at himaginary
      exact skipped_or_halted_letter (by decide) hbody himaginary.1
    next => exact hbody

/-! ## §2. The look ahead and the number. -/

/-- The characters of a number. -/
def numberText (cs : List Char) : List Char := cs.take (numberLength cs).2

/-- What follows a number. -/
def afterNumber (cs : List Char) : List Char := cs.drop (numberLength cs).2

/-- Whether a sign is in a number, which can only be that of its exponent. -/
def signed (cs : List Char) : Bool := (numberText cs).any isSign

theorem powerAhead_cons (hc : isSpaceOrTab c = false) (hstar : c ≠ '*') :
    powerAhead (c :: rest) = false := by
  have hne : ('*' == c) = false := beq_eq_false_iff_ne.mpr hstar.symm
  rw [powerAhead, List.dropWhile_cons, hc]
  simp [List.isPrefixOf, hne]

/-- Where something runs on behind a number, no power operator is next. -/
theorem powerAhead_of_runsOn (h : runsOn cs = true) : powerAhead cs = false := by
  cases cs with
  | nil => rfl
  | cons c rest =>
      refine powerAhead_cons ?_ ?_
      · rw [Bool.eq_false_iff]
        intro hblank
        rw [isSpaceOrTab, Bool.or_eq_true, beq_iff_eq, beq_iff_eq] at hblank
        obtain rfl | rfl := hblank <;>
          simp [runsOn, isLetter, isUpper, isLower, isDigitOrLine, isDigit] at h
      · rintro rfl
        simp [runsOn, isLetter, isUpper, isLower, isDigitOrLine, isDigit] at h

theorem powerAhead_of_sign (h : nextIs isSign cs = true) : powerAhead cs = false := by
  obtain ⟨c, rest, rfl, hsign⟩ := exists_cons_of_nextIs h
  rw [isSign, Bool.or_eq_true, beq_iff_eq, beq_iff_eq] at hsign
  obtain rfl | rfl := hsign <;> exact powerAhead_cons (by decide) (by decide)

/-- **What the look ahead finds**: nothing if a sign is in the number, else what is behind all that
runs on behind the number. -/
theorem powerFollows_eq (cs : List Char) :
    powerFollows cs = (!signed cs && powerAhead (skipNumber (afterNumber cs))) := by
  rw [show powerFollows cs = powerAhead (skipNumber cs) from rfl, signed, numberText]
  obtain ⟨hskip, hsign⟩ | ⟨hskip, hsign⟩ := skipped_or_halted_number cs
  · rw [hsign, hskip]
    rfl
  · rw [hsign, powerAhead_of_sign hskip]
    rfl

/-- **Exactly where the look ahead is right about what follows a number.** -/
theorem powerFollows_eq_powerAhead_iff (cs : List Char) :
    powerFollows cs = powerAhead (afterNumber cs) ↔
      ¬(signed cs = true ∧ powerAhead (afterNumber cs) = true) ∧
      ¬(signed cs = false ∧ runsOn (afterNumber cs) = true ∧
        powerAhead (skipNumber (afterNumber cs)) = true) := by
  rw [powerFollows_eq]
  cases signed cs with
  | true => simp
  | false =>
      cases hruns : runsOn (afterNumber cs) with
      | true => simp [powerAhead_of_runsOn hruns]
      | false => simp [skipNumber_of_not_runsOn hruns]

/-! ## §3. The scan. -/

section Scan

variable {text : List Char} {s : State}

/-- Blanks are passed one by one, and change what is left and nothing else that matters. -/
theorem Reachable.blanks {blanks : List Char} (hblanks : ∀ c ∈ blanks, isSpaceOrTab c = true) :
    ∀ {s : State}, Reachable text s → (∀ l modes, s.modes ≠ .literal l :: modes) →
      s.rest = blanks ++ rest → ∃ spaced atLineStart, Reachable text
        { s with rest, pos := s.pos + byteLength blanks, spaced, atLineStart } := by
  induction blanks with
  | nil =>
      intro s h _ hrest
      refine ⟨s.spaced, s.atLineStart, ?_⟩
      rw [List.nil_append] at hrest
      subst hrest
      exact h
  | cons c blanks ih =>
      intro s h hcode hrest
      rw [List.cons_append] at hrest
      obtain ⟨hc, hblanks⟩ := List.forall_mem_cons.mp hblanks
      rw [isSpaceOrTab, Bool.or_eq_true, beq_iff_eq, beq_iff_eq] at hc
      have hblank : State.blankLength? (c :: (blanks ++ rest)) = some 1 := by
        obtain rfl | rfl := hc <;> rfl
      have hstep : s.step = .next (s.blank 1) := by
        rw [step_of_cons hcode hrest (by obtain rfl | rfl := hc <;> decide), hblank]
      have hdrop : s.rest.drop 1 = blanks ++ rest := by rw [hrest]; rfl
      obtain ⟨spaced, atLineStart, hreach⟩ := ih hblanks (h.step hstep) hcode hdrop
      refine ⟨spaced, atLineStart, ?_⟩
      have hpos : (s.blank 1).pos + byteLength blanks = s.pos + byteLength (c :: blanks) := by
        show s.pos + s.bytesOfNext 1 + _ = _
        rw [bytesOfNext_eq (by simp [hrest]), hrest]
        simp [byteLength, Nat.add_assoc]
      rw [hpos] at hreach
      exact hreach

/-- What holds of ten characters holds of each digit. -/
theorem forall_digit {P : Char → Prop} (h : ∀ code < 58, 48 ≤ code → P (Char.ofNat code))
    (hc : isDigit c = true) : P c := by
  rw [isDigit, Bool.and_eq_true, decide_eq_true_eq, decide_eq_true_eq] at hc
  obtain ⟨hlow, hhigh⟩ : 48 ≤ c.toNat ∧ c.toNat ≤ 57 := hc
  have hcode := h c.toNat (by omega) hlow
  rwa [Char.ofNat_toNat] at hcode

/-- A step at a digit reads a number. -/
theorem step_digit (hcode : ∀ l modes, s.modes ≠ .literal l :: modes) (hrest : s.rest = c :: rest)
    (hc : isDigit c = true) : s.step = .next (s.number 0 false) := by
  obtain ⟨hline, hequals, hmark, hnewline, hbackslash, hspace⟩ := forall_digit
    (P := fun c => c ≠ '_' ∧ c ≠ '=' ∧ c ≠ '#' ∧ c ≠ '\n' ∧ c ≠ '\\' ∧ State.isSpace c = false)
    (by decide) hc
  have hblank : State.blankLength? (c :: rest) = none := by
    simp [State.blankLength?, hbackslash, hspace]
  rw [step_of_cons hcode hrest ⟨hline, hequals⟩, hblank]
  simp [State.token, hmark, hnewline, hc]

/-- A step at a minus before a digit, where it is no name, reads a sign or an operator. -/
theorem step_minus_digit (hcode : ∀ l modes, s.modes ≠ .literal l :: modes)
    (hrest : s.rest = '-' :: c :: rest) (hc : isDigit c = true) (hname : s.expect ≠ .definedName) :
    s.step = .next (s.plusOrMinus true) := by
  obtain ⟨hequals, harrow⟩ := forall_digit (P := fun c => c ≠ '=' ∧ c ≠ '>') (by decide) hc
  have hspelling : findSpelling plainPunctuation s.rest = none := by
    -- of the spellings tried first only one begins with a minus, and its next character is no digit
    have hheads : ∀ entry ∈ plainPunctuation, entry.1.toList.head? ≠ some '-' ∨
        entry.1.toList = ['-', '='] := by decide
    rw [findSpelling, List.find?_eq_none, hrest]
    intro entry hentry hprefix
    obtain ⟨more, hmore⟩ := List.isPrefixOf_iff_prefix.mp hprefix
    obtain hhead | hminus := hheads entry hentry
    · cases hspelt : entry.1.toList with
      | nil => exact absurd hspelt ((by decide : ∀ e ∈ plainPunctuation, e.1.toList ≠ []) _ hentry)
      | cons d ds =>
          rw [hspelt, List.cons_append] at hmore
          rw [hspelt, (List.cons.inj hmore).1] at hhead
          exact hhead rfl
    · rw [hminus] at hmore
      exact hequals (List.cons.inj (List.cons.inj hmore).2).1.symm
  have harrow' : s.sees "->" = false := by
    simp [State.sees, hrest, List.isPrefixOf, harrow.symm]
  have htoken : s.token '-' = s.punctuation '-' := by
    rw [State.token, beq_eq_false_iff_ne.mpr hname]
    rfl
  have hpunctuation : s.punctuation '-' = s.plusOrMinus true := by
    rw [State.punctuation, hspelling]
    simp [harrow']
  rw [step_of_cons hcode hrest (by decide), ← hpunctuation, ← htoken]
  rfl

/-- **What becomes of a minus before a digit** where a value may begin: the sign of the number, or a
token of its own if the look ahead finds the power operator.  A warning may come before it where an
argument begins. -/
theorem step_minus_number (hcode : ∀ l modes, s.modes ≠ .literal l :: modes)
    (hrest : s.rest = '-' :: c :: rest) (hc : isDigit c = true)
    (hvalue : s.beginsValue = true ∨ s.marksArgument 1 = true) :
    ∃ diagnostics, (s.marksArgument 1 = false → diagnostics = s.diagnostics) ∧ s.step = .next
      (if powerFollows (c :: rest) then { s with diagnostics }.operator .tUMINUS_NUM 1
        else { s with diagnostics }.number 1 true) := by
  have hname : s.expect ≠ .definedName := by
    intro hname
    simp [State.beginsValue, State.marksArgument, hname] at hvalue
  have hsigns : (s.beginsValue || s.marksArgument 1) = true := by
    rwa [Bool.or_eq_true]
  refine ⟨(if s.marksArgument 1 then s.report (.ambiguousArgument "-") 1 else s).diagnostics,
    fun hmarks => by rw [hmarks, if_neg Bool.false_ne_true], ?_⟩
  have hdigits : s.rest.drop 1 = c :: rest := by rw [hrest]; rfl
  rw [step_minus_digit hcode hrest hc hname]
  simp only [State.plusOrMinus, hsigns, hdigits, nextIs, hc, Bool.and_self, if_true, Bool.true_and]
  congr 1
  split <;> split <;> rfl

/-- The bytes of the first characters, the first one being a minus. -/
theorem bytesOfNext_minus (hrest : s.rest = '-' :: cs) (hn : n ≤ cs.length) :
    s.bytesOfNext (1 + n) = 1 + byteLength (cs.take n) := by
  rw [bytesOfNext_eq (by rw [hrest, List.length_cons]; omega), hrest, Nat.add_comm 1 n,
    List.take_succ_cons]
  rfl

/-- The token of a number, which begins at an offset and has a sign before it or none. -/
def numberToken (s : State) (start : Nat) (sign cs : List Char) : Token :=
  ⟨(numberLength cs).1, String.ofList (sign ++ numberText cs),
    s.spanOf start (start + byteLength (sign ++ numberText cs))⟩

/-- The token of the minus of a number that is raised to a power. -/
def minusToken (s : State) : Token := ⟨.tUMINUS_NUM, "-", s.spanOf s.pos (s.pos + 1)⟩

/-- The token of the power operator at an offset. -/
def powerToken (s : State) (start : Nat) : Token := ⟨.tPOW, "**", s.spanOf start (start + 2)⟩

/-- A step at the power operator, where a value is complete. -/
theorem step_power (hcode : ∀ l modes, s.modes ≠ .literal l :: modes)
    (hrest : s.rest = '*' :: '*' :: rest) (hequals : rest.head? ≠ some '=')
    (hexpect : s.expect = .operator) : s.step = .next (s.operator .tPOW 2) := by
  have hspelling : findSpelling plainPunctuation s.rest = none := by
    -- a longer spelling would need the equals sign that does not follow
    have hheads : ∀ entry ∈ plainPunctuation, ∃ d ds, entry.1.toList = d :: ds ∧
        (d ≠ '*' ∨ ds = ['*', '='] ∨ ds = ['=']) := by
      simp [plainPunctuation]
    rw [findSpelling, List.find?_eq_none, hrest]
    intro entry hentry hprefix
    obtain ⟨more, hmore⟩ := List.isPrefixOf_iff_prefix.mp hprefix
    obtain ⟨d, ds, hspelt, hd | rfl | rfl⟩ := hheads entry hentry
    all_goals rw [hspelt, List.cons_append] at hmore
    · exact hd (List.cons.inj hmore).1
    · have hrest' := (List.cons.inj (List.cons.inj hmore).2).2
      exact hequals (by rw [← hrest']; rfl)
    · exact absurd (List.cons.inj (List.cons.inj hmore).2).1 (by decide)
  have hmark : s.punctuation '*' = s.operator .tPOW 2 := by
    rw [State.punctuation, hspelling]
    simp [State.sees, hrest, List.isPrefixOf, State.argumentMark, State.beginsValue,
      State.marksArgument, hexpect]
    rfl
  rw [step_of_cons hcode hrest (by decide), ← hmark]
  simp [State.blankLength?, State.token, hexpect, State.isSpace, isDigit, isNameStart, isLetter,
    isUpper, isLower, isAscii]

/-- What a number without a sign records and leaves. -/
theorem number_eq (hrest : s.rest = cs) :
    (s.number 0 false).tokens = numberToken s s.pos [] cs :: s.tokens ∧
      (s.number 0 false).rest = afterNumber cs ∧
      (s.number 0 false).pos = s.pos + byteLength (numberText cs) := by
  subst hrest
  have hbytes : s.bytesOfNext (0 + (numberLength s.rest).2) = byteLength (numberText s.rest) := by
    rw [Nat.zero_add, bytesOfNext_eq (numberLength_le s.rest), numberText]
  have htokens : (s.number 0 false).tokens =
      ⟨(numberLength s.rest).1, String.ofList (numberText s.rest),
        s.spanOf s.pos (s.pos + s.bytesOfNext (0 + (numberLength s.rest).2))⟩ :: s.tokens := rfl
  have hrest : (s.number 0 false).rest = s.rest.drop (0 + (numberLength s.rest).2) := rfl
  have hpos : (s.number 0 false).pos = s.pos + s.bytesOfNext (0 + (numberLength s.rest).2) := rfl
  rw [htokens, hrest, hpos, hbytes, Nat.zero_add]
  exact ⟨rfl, rfl, rfl⟩

/-- What a number with a minus records and leaves. -/
theorem number_minus_eq (hrest : s.rest = '-' :: cs) :
    (s.number 1 true).tokens = numberToken s s.pos ['-'] cs :: s.tokens ∧
      (s.number 1 true).rest = afterNumber cs ∧
      (s.number 1 true).pos = s.pos + (1 + byteLength (numberText cs)) := by
  have hdigits : s.rest.drop 1 = cs := by rw [hrest]; rfl
  have hbytes := bytesOfNext_minus hrest (numberLength_le cs)
  subst hdigits
  have htokens : (s.number 1 true).tokens =
      ⟨(numberLength (s.rest.drop 1)).1, String.ofList ('-' :: numberText (s.rest.drop 1)),
        s.spanOf s.pos (s.pos + s.bytesOfNext (1 + (numberLength (s.rest.drop 1)).2))⟩ ::
          s.tokens := rfl
  have hleft : (s.number 1 true).rest = s.rest.drop (1 + (numberLength (s.rest.drop 1)).2) := rfl
  have hpos : (s.number 1 true).pos =
      s.pos + s.bytesOfNext (1 + (numberLength (s.rest.drop 1)).2) := rfl
  rw [htokens, hleft, hpos, hbytes, ← List.drop_drop]
  exact ⟨rfl, rfl, rfl⟩

/-- A step past the sign of a number, and the number. -/
theorem Reachable.sign (h : Reachable text s) (hcode : ∀ l modes, s.modes ≠ .literal l :: modes)
    (hrest : s.rest = '-' :: c :: rest) (hc : isDigit c = true)
    (hvalue : s.beginsValue = true ∨ s.marksArgument 1 = true)
    (hpower : powerFollows (c :: rest) = false) : ∃ s', Reachable text s' ∧
      s'.tokens = numberToken s s.pos ['-'] (c :: rest) :: s.tokens ∧
      s'.rest = afterNumber (c :: rest) := by
  obtain ⟨diagnostics, -, hstep⟩ := step_minus_number hcode hrest hc hvalue
  rw [hpower, if_neg Bool.false_ne_true] at hstep
  obtain ⟨htokens, hleft, -⟩ := number_minus_eq (s := { s with diagnostics }) hrest
  exact ⟨_, h.step hstep, htokens, hleft⟩

/-- A step past the minus of a number that is raised to a power, and a step past the number. -/
theorem Reachable.mark (h : Reachable text s) (hcode : ∀ l modes, s.modes ≠ .literal l :: modes)
    (hrest : s.rest = '-' :: c :: rest) (hc : isDigit c = true)
    (hvalue : s.beginsValue = true ∨ s.marksArgument 1 = true)
    (hpower : powerFollows (c :: rest) = true) : ∃ s', Reachable text s' ∧
      s'.tokens = numberToken s (s.pos + 1) [] (c :: rest) :: minusToken s :: s.tokens ∧
      s'.rest = afterNumber (c :: rest) ∧ s'.pos = s.pos + 1 + byteLength (numberText (c :: rest)) ∧
      s'.expect = .operator ∧ s'.modes = s.modes ∧ s'.lines = s.lines := by
  obtain ⟨diagnostics, -, hstep⟩ := step_minus_number hcode hrest hc hvalue
  rw [hpower, if_pos rfl] at hstep
  -- the step is two tokens: the mark, then the number from the state the mark leaves
  generalize hmarked : { s with diagnostics }.operator .tUMINUS_NUM 1 = marked at hstep
  have hdigits : marked.rest = c :: rest := by
    rw [← hmarked]
    show s.rest.drop 1 = _
    rw [hrest]
    rfl
  have hpos : marked.pos = s.pos + 1 := by
    rw [← hmarked]
    exact congrArg (s.pos + ·) (bytesOfNext_minus (n := 0) hrest (Nat.zero_le _))
  have htokens : marked.tokens = minusToken s :: s.tokens := by
    rw [← hmarked]
    show Token.mk _ (String.ofList (s.rest.take 1)) (s.spanOf s.pos (s.pos + s.bytesOfNext (1 + 0))) ::
      _ = _
    rw [bytesOfNext_minus hrest (Nat.zero_le _), hrest]
    rfl
  have hmodes : marked.modes = s.modes := by rw [← hmarked]; rfl
  have hlines : marked.lines = s.lines := by rw [← hmarked]; rfl
  obtain ⟨hnumber, hafter, hend⟩ := number_eq hdigits
  refine ⟨_, (h.step hstep).step (step_digit (hmodes ▸ hcode) hdigits hc), ?_, hafter, ?_, rfl,
    hmodes, hlines⟩
  · rw [hnumber, htokens, hpos, numberToken, numberToken, State.spanOf, State.spanOf, hlines]
  · rw [hend, hpos]

/-- Steps past blanks and the power operator. -/
theorem Reachable.power {blanks : List Char} (h : Reachable text s)
    (hcode : ∀ l modes, s.modes ≠ .literal l :: modes)
    (hblanks : ∀ c ∈ blanks, isSpaceOrTab c = true) (hrest : s.rest = blanks ++ '*' :: '*' :: rest)
    (hequals : rest.head? ≠ some '=') (hexpect : s.expect = .operator) : ∃ s', Reachable text s' ∧
      s'.tokens = powerToken s (s.pos + byteLength blanks) :: s.tokens ∧ s'.rest = rest := by
  obtain ⟨spaced, atLineStart, hreach⟩ := h.blanks hblanks hcode hrest
  exact ⟨_, hreach.step (step_power hcode rfl hequals hexpect), rfl, rfl⟩

/-- The scan of a source comes to where some tokens have been read, latest first, and some text is
left; if the source is split into tokens, these are the first of them. -/
structure Gathered (source : String) (tokens : List Token) (rest : List Char) : Prop where
  reached : ∃ s, Reachable source.toList s ∧ s.tokens = tokens ∧ s.rest = rest
  kept : ∀ lexed, (lex source).1 = .ok lexed → tokens.reverse <+: lexed.tokens

theorem Reachable.gathered {source : String} {tokens : List Token} (h : Reachable source.toList s)
    (htokens : s.tokens = tokens) (hrest : s.rest = rest) : Gathered source tokens rest := by
  refine ⟨⟨s, h, htokens, hrest⟩, fun lexed hlex => ?_⟩
  obtain ⟨n, e, hends, -, rfl⟩ := ends_of_lex hlex
  obtain ⟨m, hm⟩ := h.ends_finish hends
  rw [← htokens]
  exact List.reverse_prefix.mpr hm.suffix.1

/-- What the scan of a source makes of a minus before a text that begins with a number. -/
structure MinusBefore (source : String) (s : State) (cs : List Char) : Prop where
  /-- The look ahead answers whether the power operator follows the number, unless it follows a
  number with a sign in it, or it follows what runs on behind the number. -/
  looks : powerFollows cs = powerAhead (afterNumber cs) ↔
    ¬(signed cs = true ∧ powerAhead (afterNumber cs) = true) ∧
    ¬(signed cs = false ∧ runsOn (afterNumber cs) = true ∧
      powerAhead (skipNumber (afterNumber cs)) = true)
  /-- If the answer is no, the minus is the sign of the number. -/
  sign : powerFollows cs = false →
    Gathered source (numberToken s s.pos ['-'] cs :: s.tokens) (afterNumber cs)
  /-- If the answer is yes, it is a token of its own. -/
  mark : powerFollows cs = true →
    Gathered source (numberToken s (s.pos + 1) [] cs :: minusToken s :: s.tokens) (afterNumber cs)
  /-- A number without a sign in it that is raised to a power, with blanks in between. -/
  power : signed cs = false → ∀ blanks rest, (∀ c ∈ blanks, isSpaceOrTab c = true) →
    afterNumber cs = blanks ++ '*' :: '*' :: rest → rest.head? ≠ some '=' →
      Gathered source
        (powerToken s (s.pos + 1 + byteLength (numberText cs) + byteLength blanks) ::
          numberToken s (s.pos + 1) [] cs :: minusToken s :: s.tokens) rest

/-- **A minus before a number**, where a value may begin: it is a token of its own if the number is
raised to a power and no sign is in it.  If a sign is in it, the minus is the sign of the number
whatever follows. -/
theorem minus_number {source : String} (h : Reachable source.toList s)
    (hcode : ∀ l modes, s.modes ≠ .literal l :: modes) (hrest : s.rest = '-' :: cs)
    (hdigit : nextIs isDigit cs = true)
    (hvalue : s.beginsValue = true ∨ s.marksArgument 1 = true) : MinusBefore source s cs := by
  obtain ⟨c, digits, rfl, hc⟩ := exists_cons_of_nextIs hdigit
  refine ⟨powerFollows_eq_powerAhead_iff _, fun hpower => ?_, fun hpower => ?_, ?_⟩
  · obtain ⟨s', hs', htokens, hleft⟩ := h.sign hcode hrest hc hvalue hpower
    exact hs'.gathered htokens hleft
  · obtain ⟨s', hs', htokens, hleft, -⟩ := h.mark hcode hrest hc hvalue hpower
    exact hs'.gathered htokens hleft
  · intro hsigned blanks rest hblanks hafter hequals
    -- where blanks and the power operator follow the number, the skip stops where the number does
    have hahead : powerAhead (afterNumber (c :: digits)) = true := by
      rw [hafter, powerAhead, List.dropWhile_append_of_pos hblanks]
      rfl
    have hpower : powerFollows (c :: digits) = true := by
      have hstop : runsOn (afterNumber (c :: digits)) = false := by
        rw [Bool.eq_false_iff]
        intro hruns
        rw [powerAhead_of_runsOn hruns] at hahead
        cases hahead
      rw [powerFollows_eq, hsigned, skipNumber_of_not_runsOn hstop, hahead]
      rfl
    obtain ⟨t, ht, htokens, hleft, hpos, hexpect, hmodes, hlines⟩ :=
      h.mark hcode hrest hc hvalue hpower
    obtain ⟨u, hu, hutokens, hurest⟩ :=
      ht.power (hmodes ▸ hcode) hblanks (hleft.trans hafter) hequals hexpect
    refine hu.gathered ?_ hurest
    rw [hutokens, htokens, hpos, powerToken, powerToken, State.spanOf, State.spanOf, hlines]

/-- The exponent of the first number has a sign, and its minus is not a token of its own; that of the
second one is. -/
theorem minus_number_exponent :
    (powerAhead (afterNumber "1e-5 ** 2".toList) = true ∧
      Gathered "-1e-5 ** 2" [⟨.tFLOAT, "-1e-5", ⟨0, 5, 1, 0⟩⟩] " ** 2".toList) ∧
    Gathered "-1e5 ** 2"
      [⟨.tPOW, "**", ⟨5, 7, 1, 5⟩⟩, ⟨.tFLOAT, "1e5", ⟨1, 4, 1, 1⟩⟩, ⟨.tUMINUS_NUM, "-", ⟨0, 1, 1, 0⟩⟩]
      " 2".toList := by
  have hsigned : MinusBefore "-1e-5 ** 2" (State.start "-1e-5 ** 2".toList) "1e-5 ** 2".toList :=
    minus_number .start nofun rfl rfl (.inl rfl)
  have hplain : MinusBefore "-1e5 ** 2" (State.start "-1e5 ** 2".toList) "1e5 ** 2".toList :=
    minus_number .start nofun rfl rfl (.inl rfl)
  exact ⟨⟨by decide, hsigned.sign (by decide)⟩,
    hplain.power (by decide) [' '] " 2".toList (List.forall_mem_singleton.mpr rfl) rfl (by decide)⟩

end Scan

end RubySyntax.Token.Lexer
