/-
  RubySyntax.Proofs.Tree.Integer
  ──────────────────────────────
  **THE VALUE OF A WHOLE NUMBER.**

  A literal of a whole number has a sign or none, a mark of its base or none, and digits of that
  base with low lines between them.  Its node holds its value if the magnitude is at most the
  greatest 64-bit number, else its text.  The sign is taken off before the magnitude is read, so
  the least 64-bit number is not held either, though it would fit:

      -0x7FFF_FFFF_FFFF_FFFF     a value
      -0x8000_0000_0000_0000     a text

  Main results:
    • `WholeNumber.integerValue?_text` — the value of any literal, if it is held,
    • `WholeNumber.lex_text` — a literal alone is one token,
    • `WholeNumber.integer_text` — its node, and the program that consists of it.
-/
import Mathlib.Data.Nat.Digits.Defs
import RubySyntax.Proofs.Token.Number
import RubySyntax.Proofs.Tree.Depth

namespace RubySyntax.Node

open RubySyntax.Text

/-! ## §1. Literals. -/

/-- What stands before the digits of a whole number to name their base. -/
inductive RadixMark where
  | hexadecimal (capital : Bool)
  | binary (capital : Bool)
  | octal (capital : Bool)
  | decimal (capital : Bool)
  /-- A zero, and low lines behind it. -/
  | zero (lines : Nat)
  | none
deriving DecidableEq, Repr

namespace RadixMark

/-- The base of the digits. -/
def base : RadixMark → Nat
  | hexadecimal _ => 16
  | binary _ => 2
  | octal _ => 8
  | decimal _ => 10
  | zero _ => 8
  | none => 10

/-- The characters. -/
def chars : RadixMark → List Char
  | hexadecimal capital => ['0', if capital then 'X' else 'x']
  | binary capital => ['0', if capital then 'B' else 'b']
  | octal capital => ['0', if capital then 'O' else 'o']
  | decimal capital => ['0', if capital then 'D' else 'd']
  | zero lines => '0' :: List.replicate lines '_'
  | none => []

end RadixMark

/-- A digit of a base, and whether it is written as a capital if it is a letter. -/
structure Digit (base : Nat) where
  value : Fin base
  capital : Bool
deriving DecidableEq, Repr

/-- The character of a digit. -/
def Digit.char {base : Nat} (d : Digit base) : Char :=
  if d.capital then (Nat.digitChar d.value).toUpper else Nat.digitChar d.value

/-- A literal of a whole number. -/
structure WholeNumber where
  negative : Bool
  mark : RadixMark
  first : Digit mark.base
  /-- The other digits, each with the number of low lines before it. -/
  others : List (Nat × Digit mark.base)
  /-- Without a mark no zero stands before other digits. -/
  proper : mark = .none → first.value.val = 0 → others = []

namespace WholeNumber

/-- The digits, the most significant one first. -/
def digits (l : WholeNumber) : List (Fin l.mark.base) := l.first.value :: l.others.map (·.2.value)

/-- The characters of the digits, with low lines between them. -/
def numerals (l : WholeNumber) : List Char :=
  l.first.char :: l.others.flatMap fun (lines, d) => List.replicate lines '_' ++ [d.char]

/-- The characters of the mark and the digits. -/
def unsigned (l : WholeNumber) : List Char := l.mark.chars ++ l.numerals

/-- The characters. -/
def text (l : WholeNumber) : List Char := (if l.negative then ['-'] else []) ++ l.unsigned

/-- The magnitude: what the digits say in their base. -/
def magnitude (l : WholeNumber) : Nat :=
  Nat.ofDigits l.mark.base (l.digits.map (·.val)).reverse

/-- The value. -/
def value (l : WholeNumber) : Int := if l.negative then -l.magnitude else l.magnitude

end WholeNumber

/-! ## §2. Digits. -/

theorem base_le (m : RadixMark) : m.base ≤ 16 := by
  cases m <;> (simp only [RadixMark.base]; decide)

/-- The character of a digit, as the small letter if it is one. -/
theorem lowerCase_char {base : Nat} (hbase : base ≤ 16) (d : Digit base) :
    lowerCase d.char = Nat.digitChar d.value := by
  have hall : ∀ n < 16, lowerCase (Nat.digitChar n).toUpper = Nat.digitChar n ∧
      lowerCase (Nat.digitChar n) = Nat.digitChar n := by decide
  obtain ⟨hupper, hlower⟩ := hall d.value (Nat.lt_of_lt_of_le d.value.isLt hbase)
  unfold Digit.char
  split
  · exact hupper
  · exact hlower

theorem digitValue?_digitChar {base n : Nat} (hn : n < base) (hbase : base ≤ 16) :
    digitValue? base (Nat.digitChar n) = some n := by
  have hall : ∀ n < 16, (isDigit (Nat.digitChar n) = true ∧ (Nat.digitChar n).toNat - '0'.toNat = n) ∨
      (isDigit (Nat.digitChar n) = false ∧ isHexDigit (Nat.digitChar n) = true ∧
        (lowerCase (Nat.digitChar n)).toNat - 'a'.toNat + 10 = n) := by decide
  rw [digitValue?]
  obtain ⟨hdigit, hvalue⟩ | ⟨hdigit, hhex, hvalue⟩ := hall n (by omega)
  · rw [if_pos hdigit, hvalue, if_pos hn]
  · rw [hdigit, if_neg Bool.false_ne_true, if_pos hhex, hvalue, if_pos hn]

/-- A run of digits is read from the left. -/
theorem foldlM_digitValue? {base : Nat} (hbase : base ≤ 16) : ∀ (ds : List (Fin base)) (n : Nat),
    (ds.map fun d => Nat.digitChar d.val).foldlM
      (fun n c => (digitValue? base c).map (n * base + ·)) n =
        some (ds.foldl (fun n d => n * base + d.val) n)
  | [], _ => rfl
  | d :: ds, n => by
      rw [List.map_cons, List.foldlM_cons, digitValue?_digitChar d.isLt hbase]
      exact foldlM_digitValue? hbase ds _

/-- What is read from the left is what the digits say. -/
theorem foldl_eq_ofDigits {base : Nat} (ds : List (Fin base)) :
    ds.foldl (fun n d => n * base + d.val) 0 = Nat.ofDigits base (ds.map (·.val)).reverse := by
  rw [Nat.ofDigits_eq_foldr, List.foldr_reverse, List.foldl_map]
  simp only [Nat.cast_id, Nat.add_comm, Nat.mul_comm]

theorem baseValue?_digits {base : Nat} (hbase : base ≤ 16) (ds : List (Fin base)) (hds : ds ≠ []) :
    baseValue? base (ds.map fun d => Nat.digitChar d.val) =
      some (Nat.ofDigits base (ds.map (·.val)).reverse) := by
  have hne : (ds.map fun d => Nat.digitChar d.val).isEmpty = false := by
    rw [List.isEmpty_eq_false_iff, ne_eq, List.map_eq_nil_iff]
    exact hds
  rw [baseValue?, hne, if_neg Bool.false_ne_true, foldlM_digitValue? hbase, foldl_eq_ofDigits]

/-- Characters of digits and low lines. -/
theorem isHexDigit_char {base : Nat} (hbase : base ≤ 16) (d : Digit base) :
    isHexDigit d.char = true ∧ d.char ≠ '_' ∧ d.char ≠ '+' ∧ d.char ≠ '-' := by
  have hall : ∀ n < 16, ∀ capital : Bool,
      let c := if capital then (Nat.digitChar n).toUpper else Nat.digitChar n
      isHexDigit c = true ∧ c ≠ '_' ∧ c ≠ '+' ∧ c ≠ '-' := by decide
  exact hall d.value (Nat.lt_of_lt_of_le d.value.isLt hbase) d.capital

theorem isDigit_char {base : Nat} (hbase : base ≤ 10) (d : Digit base) : isDigit d.char = true := by
  have hall : ∀ n < 10, ∀ capital : Bool,
      isDigit (if capital then (Nat.digitChar n).toUpper else Nat.digitChar n) = true := by decide
  exact hall d.value (Nat.lt_of_lt_of_le d.value.isLt hbase) d.capital

/-! ## §3. Values. -/

namespace WholeNumber

variable (l : WholeNumber)

/-- The mark in small letters and without low lines. -/
def plainMark : RadixMark → List Char
  | .hexadecimal _ => ['0', 'x']
  | .binary _ => ['0', 'b']
  | .octal _ => ['0', 'o']
  | .decimal _ => ['0', 'd']
  | .zero _ => ['0']
  | .none => []

theorem filter_chars (m : RadixMark) : (m.chars.filter (· != '_')).map lowerCase = plainMark m := by
  cases m with
  | zero lines => simp [RadixMark.chars, plainMark, lowerCase, isUpper]
  | none => rfl
  | _ capital => cases capital <;> rfl

theorem filter_others {base : Nat} (hbase : base ≤ 16) (others : List (Nat × Digit base)) :
    (others.flatMap fun (lines, d) => List.replicate lines '_' ++ [d.char]).filter (· != '_') =
      others.map (·.2.char) := by
  induction others with
  | nil => rfl
  | cons other others ih =>
      obtain ⟨lines, d⟩ := other
      have hd : (d.char != '_') = true := bne_iff_ne.mpr (isHexDigit_char hbase d).2.1
      rw [List.flatMap_cons, List.filter_append, ih, List.filter_append]
      simp [hd]

/-- Without low lines and capitals a literal is its mark and its digits. -/
theorem filter_unsigned : (l.unsigned.filter (· != '_')).map lowerCase =
    plainMark l.mark ++ l.digits.map fun d => Nat.digitChar d.val := by
  have hbase := base_le l.mark
  have hfirst : (l.first.char != '_') = true := bne_iff_ne.mpr (isHexDigit_char hbase l.first).2.1
  rw [unsigned, List.filter_append, List.map_append, filter_chars, numerals, List.filter_cons,
    if_pos hfirst, filter_others hbase, digits]
  simp [lowerCase_char hbase]

theorem splitBase_zero {c : Char} (hc : c ≠ 'x' ∧ c ≠ 'b' ∧ c ≠ 'o' ∧ c ≠ 'd') (cs : List Char) :
    splitBase ('0' :: c :: cs) = (8, c :: cs) := by
  simp [splitBase, hc]

theorem splitBase_of_ne_zero {c : Char} (hc : c ≠ '0') (cs : List Char) :
    splitBase (c :: cs) = (10, c :: cs) := by
  simp [splitBase, hc]

/-- The mark names the base. -/
theorem splitBase_plain :
    splitBase (plainMark l.mark ++ l.digits.map fun d => Nat.digitChar d.val) =
      (l.mark.base, l.digits.map fun d => Nat.digitChar d.val) := by
  obtain ⟨negative, mark, first, others, hproper⟩ := l
  cases mark with
  | zero lines =>
      have hall : ∀ n < 8, Nat.digitChar n ≠ 'x' ∧ Nat.digitChar n ≠ 'b' ∧ Nat.digitChar n ≠ 'o' ∧
          Nat.digitChar n ≠ 'd' := by decide
      exact splitBase_zero (hall first.value first.value.isLt) _
  | none =>
      by_cases hzero : first.value.val = 0
      · -- a zero alone
        obtain rfl := hproper rfl hzero
        show splitBase [Nat.digitChar first.value.val] = (10, [Nat.digitChar first.value.val])
        rw [hzero]
        rfl
      · have hall : ∀ n < 10, n ≠ 0 → Nat.digitChar n ≠ '0' := by decide
        exact splitBase_of_ne_zero (hall first.value first.value.isLt hzero) _
  | _ capital => rfl

theorem splitSign_text : Decimal.splitSign l.text = (l.negative, l.unsigned) := by
  obtain ⟨c, rest, hunsigned, hplus, hminus⟩ :
      ∃ c rest, l.unsigned = c :: rest ∧ c ≠ '+' ∧ c ≠ '-' := by
    obtain ⟨negative, mark, first, others, -⟩ := l
    cases mark with
    | none => exact ⟨_, _, rfl, (isHexDigit_char (by decide) first).2.2⟩
    | _ => exact ⟨'0', _, rfl, by decide⟩
  rw [text, hunsigned]
  cases l.negative with
  | true => rfl
  | false => simp [Decimal.splitSign, hplus, hminus]

/-- **The value of a literal**, if its magnitude is at most the greatest whole number of a slot. -/
theorem integerValue?_text :
    integerValue? l.text = if maxInteger < l.magnitude then none else some l.value := by
  have hvalue := baseValue?_digits (base_le l.mark) l.digits (List.cons_ne_nil _ _)
  simp only [integerValue?, splitSign_text, filter_unsigned, splitBase_plain, hvalue,
    Option.bind_some]
  rfl

theorem maxInteger_lt_magnitude_iff :
    maxInteger < l.magnitude ↔ ¬(-2 ^ 63 < l.value ∧ l.value ≤ 2 ^ 63 - 1) := by
  have hmost : maxInteger = 2 ^ 63 - 1 := rfl
  rw [hmost, value]
  split <;> omega

/-- What the node of a literal holds: its value, if it is above the least 64-bit number and at most the
greatest one, else its text. -/
def slot : Child :=
  if -2 ^ 63 < l.value ∧ l.value ≤ 2 ^ 63 - 1 then .integer l.value else .text (String.ofList l.text)

theorem integer_eq (kind : Token.Kind) (span : Span) :
    integer ⟨kind, String.ofList l.text, span⟩ = .mk .int [l.slot] span := by
  rw [integer, String.toList_ofList, integerValue?_text, slot]
  simp only [maxInteger_lt_magnitude_iff]
  split <;> simp_all

theorem resolve_slot (span : Span) : (Node.mk .int [l.slot] span).resolve = .mk .int [l.slot] span := by
  rw [slot]
  split <;> rfl

end WholeNumber

end RubySyntax.Node

namespace RubySyntax.Token.Lexer

open RubySyntax.Text

/-! ## §4. The scan of a literal. -/

theorem takeWhile_all {p : Char → Bool} {cs : List Char} (h : ∀ c ∈ cs, p c = true) :
    cs.takeWhile p = cs := by
  rw [List.takeWhile_eq_self_iff]
  exact h

/-- Digits and low lines to the end are a whole number. -/
theorem numberLength_digits {cs : List Char} (h : ∀ c ∈ cs, isDigitOrLine c = true) :
    numberLength cs = (.tINTEGER, cs.length) := by
  have hradix : (cs.head? == some '0' && nextIs isRadixLetter cs.tail) = false := by
    have hall : ∀ c, isRadixLetter c = true → isDigitOrLine c = false := by
      intro c hc
      simp only [isRadixLetter, Bool.or_eq_true, beq_iff_eq] at hc
      rcases hc with ((((((rfl | rfl) | rfl) | rfl) | rfl) | rfl) | rfl) | rfl <;> decide
    rw [Bool.eq_false_iff]
    intro hradix
    rw [Bool.and_eq_true] at hradix
    obtain ⟨letter, rest, htail, hletter⟩ := exists_cons_of_nextIs hradix.2
    have hmem : letter ∈ cs := List.mem_of_mem_tail (by rw [htail]; exact List.mem_cons_self)
    exact Bool.false_ne_true ((hall letter hletter).symm.trans (h letter hmem))
  simp [numberLength, bodyLength, hradix, takeWhile_all h, fractionLength, exponentLength]

/-- A mark of a base, and digits of base sixteen and low lines to the end, are a whole number. -/
theorem numberLength_radix {letter : Char} {cs : List Char} (hletter : isRadixLetter letter = true)
    (h : ∀ c ∈ cs, isHexOrLine c = true) :
    numberLength ('0' :: letter :: cs) = (.tINTEGER, cs.length + 2) := by
  simp [numberLength, bodyLength, nextIs, hletter, takeWhile_all h, Nat.add_comm 2]

/-- A text of which the first step leaves nothing. -/
theorem lex_of_step {source : String} {s : State}
    (hs : (State.start source.toList).step = .next s) (hflat : s.depth + s.blocks ≤ maxNesting)
    (hrest : s.rest = []) (hmodes : s.modes = []) :
    lex source = (.ok ⟨s.tokens.reverse, s.comments.reverse, s.pos⟩, s.diagnostics.reverse) := by
  have hfinish := step_of_rest_eq_nil hrest hmodes
  have hstop : Ends 1 s (.finish s) := hfinish ▸ .stop fun s' => by rw [hfinish]; nofun
  exact lex_of_ends (.next hs hflat hstop) hmodes

end RubySyntax.Token.Lexer

namespace RubySyntax.Node.WholeNumber

open RubySyntax.Text Token Token.Lexer

variable (l : WholeNumber)

theorem mem_numerals {c : Char} (hc : c ∈ l.numerals) :
    c = '_' ∨ ∃ d : Digit l.mark.base, c = d.char := by
  obtain rfl | hc := List.mem_cons.mp hc
  · exact .inr ⟨_, rfl⟩
  obtain ⟨⟨lines, d⟩, -, hc⟩ := List.mem_flatMap.mp hc
  obtain hc | hc := List.mem_append.mp hc
  · exact .inl (List.eq_of_mem_replicate hc)
  · exact .inr ⟨d, List.mem_singleton.mp hc⟩

theorem isHexOrLine_numerals : ∀ c ∈ l.numerals, isHexOrLine c = true := by
  intro c hc
  obtain rfl | ⟨d, rfl⟩ := l.mem_numerals hc
  · rfl
  · rw [isHexOrLine, (isHexDigit_char (base_le l.mark) d).1]
    rfl

theorem isDigitOrLine_numerals (hbase : l.mark.base ≤ 10) :
    ∀ c ∈ l.numerals, isDigitOrLine c = true := by
  intro c hc
  obtain rfl | ⟨d, rfl⟩ := l.mem_numerals hc
  · rfl
  · exact isDigitOrLine_of_isDigit (isDigit_char hbase d)

/-- **The number reaches to the end of the literal.** -/
theorem numberLength_unsigned : numberLength l.unsigned = (.tINTEGER, l.unsigned.length) := by
  have hhex := l.isHexOrLine_numerals
  have hdecimal := l.isDigitOrLine_numerals
  cases hmark : l.mark with
  | zero lines =>
      refine numberLength_digits fun c hc => ?_
      rw [unsigned, hmark] at hc
      obtain hc | hc := List.mem_append.mp hc
      · obtain rfl | hc := List.mem_cons.mp hc
        · rfl
        · obtain rfl := List.eq_of_mem_replicate hc
          rfl
      · exact hdecimal (by simp [hmark, RadixMark.base]) c hc
  | none =>
      refine numberLength_digits fun c hc => ?_
      rw [unsigned, hmark] at hc
      exact hdecimal (by simp [hmark, RadixMark.base]) c hc
  | _ capital =>
      rw [unsigned, hmark]
      cases capital <;> exact numberLength_radix rfl hhex

theorem afterNumber_unsigned : afterNumber l.unsigned = [] := by
  rw [afterNumber, numberLength_unsigned, List.drop_length]

theorem numberText_unsigned : numberText l.unsigned = l.unsigned := by
  rw [numberText, numberLength_unsigned, List.take_length]

/-- A literal begins with a digit. -/
theorem exists_unsigned : ∃ c rest, l.unsigned = c :: rest ∧ isDigit c = true := by
  cases hmark : l.mark with
  | none =>
      refine ⟨l.first.char, l.numerals.tail, ?_, isDigit_char (by simp [hmark, RadixMark.base]) l.first⟩
      have hchars : l.mark.chars = [] := by rw [hmark]; rfl
      rw [unsigned, hchars]
      rfl
  | _ =>
      rw [unsigned, hmark]
      exact ⟨'0', _, rfl, rfl⟩

/-- No power operator follows a literal that ends the text. -/
theorem powerFollows_unsigned : powerFollows l.unsigned = false := by
  rw [powerFollows_eq, afterNumber_unsigned]
  exact Bool.and_false _

/-- The token of a literal that is a whole text. -/
def token : Token := ⟨.tINTEGER, String.ofList l.text, ⟨0, byteLength l.text, 1, 0⟩⟩

/-- The token is that of a number at the beginning of the text. -/
theorem numberToken_start (sign : List Char) (htext : l.text = sign ++ l.unsigned) :
    numberToken (State.start l.text) 0 sign l.unsigned = l.token := by
  have hlineCol : (State.start l.text).lines.lineCol 0 = (1, 0) := LineTable.lineCol_eq [] l.text
  rw [numberToken, numberLength_unsigned, numberText_unsigned, State.spanOf, hlineCol, ← htext,
    Nat.zero_add, token]

/-- The first step reads the literal. -/
theorem step_start : ∃ s, (State.start l.text).step = .next s ∧ s.tokens = [l.token] ∧ s.rest = [] ∧
    s.pos = byteLength l.text ∧ s.comments = [] ∧ s.diagnostics = [] ∧ s.modes = [] ∧
    s.nesting = 0 := by
  obtain ⟨c, rest, hunsigned, hdigit⟩ := l.exists_unsigned
  have hkind : (numberLength l.unsigned).1 = .tINTEGER := by rw [numberLength_unsigned]
  have hflat : 0 + State.countBlocks (numberLength l.unsigned).1 0 = 0 := by rw [hkind]; rfl
  -- the sign, if there is one, is part of the number and of the same step
  cases hnegative : l.negative with
  | false =>
      have htext : l.text = l.unsigned := by rw [text, hnegative]; rfl
      have hrest : (State.start l.text).rest = l.unsigned := htext
      obtain ⟨htokens, hafter, hpos⟩ := number_eq hrest
      refine ⟨_, step_digit nofun (hrest.trans hunsigned) hdigit, ?_, ?_, ?_, rfl, rfl, rfl, ?_⟩
      · rw [htokens]
        exact congrArg (· :: []) (l.numberToken_start [] htext)
      · rw [hafter, afterNumber_unsigned]
      · rw [hpos, numberText_unsigned, htext]
        exact Nat.zero_add _
      · rw [← hrest] at hflat
        exact hflat
  | true =>
      have htext : l.text = '-' :: l.unsigned := by rw [text, hnegative]; rfl
      have hrest : (State.start l.text).rest = '-' :: l.unsigned := htext
      obtain ⟨diagnostics, hnone, hstep⟩ :=
        step_minus_number (s := State.start l.text) nofun (hunsigned ▸ hrest) hdigit (.inl rfl)
      obtain rfl := hnone rfl
      rw [← hunsigned, powerFollows_unsigned, if_neg Bool.false_ne_true] at hstep
      obtain ⟨htokens, hafter, hpos⟩ := number_minus_eq hrest
      refine ⟨_, hstep, ?_, ?_, ?_, rfl, rfl, rfl, ?_⟩
      · rw [htokens]
        exact congrArg (· :: []) (l.numberToken_start ['-'] htext)
      · exact hafter.trans l.afterNumber_unsigned
      · refine hpos.trans ?_
        rw [numberText_unsigned, htext]
        exact Nat.zero_add _
      · have hdigits : (State.start l.text).rest.drop 1 = l.unsigned := by rw [hrest]; rfl
        rw [← hdigits] at hflat
        exact hflat

/-- **A literal alone is one token.** -/
theorem lex_text : lex (String.ofList l.text) = (.ok ⟨[l.token], [], byteLength l.text⟩, []) := by
  obtain ⟨s, hstep, htokens, hrest, hpos, hcomments, hdiagnostics, hmodes, hnesting⟩ := l.step_start
  have hflat : s.depth + s.blocks ≤ maxNesting := hnesting.trans_le (Nat.zero_le _)
  rw [← String.toList_ofList (l := l.text)] at hstep
  rw [lex_of_step hstep hflat hrest hmodes, htokens, hpos, hcomments, hdiagnostics]
  rfl

end RubySyntax.Node.WholeNumber

namespace RubySyntax.Grammar

open Token

/-! ## §5. Programs. -/

/-- One token of a whole number is read as its node. -/
theorem readProgram_integer {t : Token} (ht : t.kind = .tINTEGER) (version : Version) :
    readProgram [t] version = .ok (some (Node.integer t)) := by
  have hremain : Remain [t].toArray 0 [t] := rfl
  have hfirst : [t].toArray[0]?.map (·.kind) = some .tINTEGER := by rw [hremain.head, ← ht]; rfl
  have hliteral : Gives [t].toArray version (.call Symbol.literal) 0 (Node.integer t)
      [t].toArray.size :=
    gives_call (gives_orElse_first (gives_map
      (gives_token hremain.head (List.mem_singleton.mpr ht))))
  obtain ⟨hprimary, hoperand⟩ := gives_of_literal hliteral
  have hunary : ∀ u ∈ unaryLevels, leavesOut (some .tINTEGER) u.kinds = true := by decide
  have hoperation : Gives [t].toArray version operation 0 (Node.integer t) [t].toArray.size :=
    gives_operation (fun u hu => fails_of_leavesOut hfirst (hunary u hu)) stopsAt_size hoperand
  have hinert : Inert [t].toArray version :=
    .inr ⟨_, _, hprimary, rfl, rfl, fails_at_end rfl⟩
  refine readProgram_of_operation hinert (t := t) rfl ?_ hoperation
  rw [ht]
  decide

end RubySyntax.Grammar

namespace RubySyntax.Node.WholeNumber

/-- **A whole number is held as its value if it is above the least 64-bit number and at most the
greatest one**, in any base and however it is written; the least one itself is held as its text, as
all others are.  Alone it is a program in every version, of one token. -/
theorem integer_text (l : WholeNumber) :
    (∀ span, integer ⟨.tINTEGER, String.ofList l.text, span⟩ = .mk .int [l.slot] span) ∧
    ∀ version, ∃ p, (Program.read version (String.ofList l.text)).1 = .ok p ∧
      p.tokens = [l.token] ∧ p.tree = .mk .int [l.slot] l.token.span := by
  refine ⟨l.integer_eq _, fun version => ?_⟩
  have hread := Program.read_of_readProgram l.lex_text
    (Grammar.readProgram_integer (t := l.token) rfl version)
  refine ⟨_, congrArg Prod.fst hread, rfl, ?_⟩
  show (integer l.token).resolve = _
  rw [token, integer_eq, resolve_slot]

/-- The least 64-bit number is held as a text, the one above it as a value. -/
example :
    (integer ⟨.tINTEGER, "-0x8000_0000_0000_0000", .nowhere⟩).child? 0 =
      some (.text "-0x8000_0000_0000_0000") ∧
    (integer ⟨.tINTEGER, "-0x7FFF_FFFF_FFFF_FFFF", .nowhere⟩).child? 0 =
      some (.integer (-9223372036854775807)) := ⟨rfl, rfl⟩

end RubySyntax.Node.WholeNumber
