/-
  RubySyntax.Proofs.Token.Veil
  ────────────────────────────
  **NO LOOK-AHEAD TELLS A NEWLINE FROM A COMMENT OR A CARRIAGE RETURN BEFORE IT.**

  The scan looks ahead: for the mark that ends a word, the colon of a label, the letter after a
  number, the equals sign behind blanks, the point that begins the next line.  Take two texts
  that begin alike and part at the end of a line: there the one goes on with a newline, the other
  with a blank, a comment and the same newline, or with a carriage return and a newline.  As far as
  the scan stays before that place, it takes the same characters of both, and it never sees the
  difference.

      u ++ "\n" ++ after        u ++ " #" ++ c ++ "\n" ++ after        u ++ "\r\n" ++ after'

  One loop takes a blank that is not there: the list of code points in an escape allows blanks
  before the brace that is missing.

  Main results:
    • `Blurred.readWord`, `Blurred.numberLength`, … — counts are the same,
    • `Blurred.readEscape` — an escape is the same, or takes the blank,
    • `Blurred.readContent` — the content of a literal that is closed before the place is the same,
    • `Blurred.continuesWithCall` — whether the next line goes on with a call is the same.
-/
import RubySyntax.Proofs.Token.Line
import RubySyntax.Token.Lexer

namespace RubySyntax.Token.Lexer

open RubySyntax.Text

/-! ## §1. Texts that part at the end of a line. -/

/-- A text that begins with a newline, and the same text behind a comment, or another one that
begins with a carriage return and a newline, if both go on with a call behind it or neither does;
or nothing at all. -/
inductive Veiled : List Char → List Char → Prop where
  | nothing : Veiled [] []
  | comment (c after : List Char) (hc : '\n' ∉ c) :
      Veiled ('\n' :: after) (' ' :: '#' :: (c ++ '\n' :: after))
  | returns (after after' : List Char)
      (hcall : continuesWithCall false after' = continuesWithCall false after) :
      Veiled ('\n' :: after) ('\r' :: '\n' :: after')

/-- Two texts that begin alike and end with `X` and `Y`. -/
inductive Blurred (X Y : List Char) : List Char → List Char → Prop where
  | ends (h : Veiled X Y) : Blurred X Y X Y
  | cons (c : Char) {r r' : List Char} (h : Blurred X Y r r') : Blurred X Y (c :: r) (c :: r')

namespace Blurred

variable {X Y r r' : List Char} {n : Nat} {p : Char → Bool}

/-- The characters before the end are the same. -/
theorem take (h : Blurred X Y r r') (hn : X.length ≤ (r.drop n).length) : r'.take n = r.take n := by
  induction h generalizing n with
  | ends hv =>
      cases hv with
      | nothing => rfl
      | comment | returns =>
          obtain rfl : n = 0 := by
            rw [List.length_drop, List.length_cons] at hn
            omega
          rfl
  | cons c _ ih =>
      cases n with
      | zero => rfl
      | succ n => rw [List.take_succ_cons, List.take_succ_cons, ih hn]

/-- So are the texts behind them. -/
theorem drop (h : Blurred X Y r r') (hn : X.length ≤ (r.drop n).length) :
    Blurred X Y (r.drop n) (r'.drop n) := by
  induction h generalizing n with
  | ends hv =>
      cases hv with
      | nothing =>
          rw [List.drop_nil]
          exact .ends .nothing
      | comment c after hc =>
          obtain rfl : n = 0 := by
            rw [List.length_drop, List.length_cons] at hn
            omega
          exact .ends (.comment c after hc)
      | returns after after' hcall =>
          obtain rfl : n = 0 := by
            rw [List.length_drop, List.length_cons] at hn
            omega
          exact .ends (.returns after after' hcall)
  | cons c h ih =>
      cases n with
      | zero => exact .cons c h
      | succ n => exact ih hn

/-- Characters on one line are before the end. -/
theorem before_of_line (h : Blurred X Y r r') (hline : OneLine r n) (hn : n ≤ r.length) :
    X.length ≤ (r.drop n).length := by
  induction h generalizing n with
  | ends hv =>
      cases hv with
      | nothing => exact Nat.zero_le _
      | comment | returns =>
          cases n with
          | zero => exact Nat.le_refl _
          | succ n => exact absurd (by simp [OneLine] at hline) not_false
  | @cons c r _ h ih =>
      cases n with
      | zero =>
          have := ih (oneLine_zero r) (Nat.zero_le _)
          simpa using Nat.le_succ_of_le this
      | succ n =>
          refine ih (fun hmem => hline ?_) (Nat.le_of_succ_le_succ hn)
          rw [List.take_succ_cons]
          exact List.mem_cons_of_mem _ hmem

theorem drop_of_line (h : Blurred X Y r r') (hline : OneLine r n) (hn : n ≤ r.length) :
    Blurred X Y (r.drop n) (r'.drop n) :=
  h.drop (h.before_of_line hline hn)

/-! ## §2. Looks. -/

theorem nextIs (h : Blurred X Y r r') (hp : p ' ' = p '\n' ∧ p '\r' = p '\n') :
    nextIs p r' = nextIs p r := by
  cases h with
  | ends hv =>
      cases hv with
      | nothing => rfl
      | comment => exact hp.1
      | returns => exact hp.2
  | cons => rfl

theorem head? (h : Blurred X Y r r') {c : Char} (hc : c ≠ ' ' ∧ c ≠ '\r' ∧ c ≠ '\n') :
    (r'.head? == some c) = (r.head? == some c) := by
  obtain ⟨hblank, hreturn, hnewline⟩ := hc
  have hno : ∀ {b}, c ≠ b → (b == c) = false := fun hb => beq_eq_false_iff_ne.mpr (Ne.symm hb)
  cases h with
  | ends hv =>
      cases hv with
      | nothing => rfl
      | comment => exact (hno hblank).trans (hno hnewline).symm
      | returns => exact (hno hreturn).trans (hno hnewline).symm
  | cons => rfl

/-- A character, and a look at what follows it. -/
theorem head?_and (h : Blurred X Y r r') {c : Char} (hc : c ≠ ' ' ∧ c ≠ '\r' ∧ c ≠ '\n')
    {f : List Char → Bool} (hf : ∀ {t t'}, Blurred X Y t t' → f t' = f t) :
    (r'.head? == some c && f r'.tail) = (r.head? == some c && f r.tail) := by
  rw [h.head? hc]
  cases h with
  | ends hv =>
      cases hv with
      | nothing => rfl
      | comment | returns =>
          have hnewline : ('\n' == c) = false := beq_eq_false_iff_ne.mpr hc.2.2.symm
          show (('\n' == c) && _) = (('\n' == c) && _)
          rw [hnewline, Bool.false_and, Bool.false_and]
  | cons d h => rw [List.tail_cons, List.tail_cons, hf h]

theorem isPrefixOf {spelling : List Char}
    (hspelling : ' ' ∉ spelling ∧ '\r' ∉ spelling ∧ '\n' ∉ spelling)
    (h : Blurred X Y r r') : spelling.isPrefixOf r' = spelling.isPrefixOf r := by
  have hno : ∀ {b c : Char}, b ≠ c → (c == b) = false :=
    fun hb => beq_eq_false_iff_ne.mpr (Ne.symm hb)
  induction spelling generalizing r r' with
  | nil => rw [List.isPrefixOf, List.isPrefixOf]
  | cons c spelling ih =>
      simp only [List.mem_cons, not_or] at hspelling
      obtain ⟨⟨hblank, hblanks⟩, ⟨hreturn, hreturns⟩, hnewline, hnewlines⟩ := hspelling
      -- the spelling has none of the characters that the blurred part may begin with
      cases h with
      | ends hv =>
          cases hv with
          | nothing => rfl
          | comment =>
              rw [List.isPrefixOf, List.isPrefixOf, hno hblank, hno hnewline, Bool.false_and,
                Bool.false_and]
          | returns =>
              rw [List.isPrefixOf, List.isPrefixOf, hno hreturn, hno hnewline, Bool.false_and,
                Bool.false_and]
      | cons d h => rw [List.isPrefixOf, List.isPrefixOf, ih ⟨hblanks, hreturns, hnewlines⟩ h]

theorem findSpelling {α : Type} (h : Blurred X Y r r') (table : List (String × α))
    (htable : ∀ entry ∈ table,
      ' ' ∉ entry.1.toList ∧ '\r' ∉ entry.1.toList ∧ '\n' ∉ entry.1.toList) :
    findSpelling table r' = findSpelling table r := by
  induction table with
  | nil => rfl
  | cons entry table ih =>
      obtain ⟨hentry, htable⟩ := List.forall_mem_cons.mp htable
      unfold Lexer.findSpelling at ih ⊢
      rw [List.find?_cons, List.find?_cons, h.isPrefixOf hentry, ih htable]

theorem isEmpty (h : Blurred X Y r r') : r'.isEmpty = r.isEmpty := by
  cases h with
  | ends hv => cases hv <;> rfl
  | cons => rfl

theorem atSpace (h : Blurred X Y r r') : State.atSpace r' = State.atSpace r := by
  rw [State.atSpace, State.atSpace, h.isEmpty, h.nextIs (by decide)]

/-- A run of characters that are neither blanks nor newlines. -/
theorem takeWhile (h : Blurred X Y r r') (hp : p ' ' = false ∧ p '\r' = false ∧ p '\n' = false) :
    r'.takeWhile p = r.takeWhile p := by
  have hnone : ∀ {b}, p b = false → ∀ t : List Char, (b :: t).takeWhile p = [] :=
    fun hb t => List.takeWhile_cons_of_neg (Bool.eq_false_iff.mp hb)
  induction h with
  | ends hv =>
      cases hv with
      | nothing => rfl
      | comment => rw [hnone hp.1, hnone hp.2.2]
      | returns => rw [hnone hp.2.1, hnone hp.2.2]
  | cons c h ih => rw [List.takeWhile_cons, List.takeWhile_cons, ih]

theorem drop_takeWhile (h : Blurred X Y r r')
    (hp : p ' ' = false ∧ p '\r' = false ∧ p '\n' = false) :
    Blurred X Y (r.drop (r.takeWhile p).length) (r'.drop (r.takeWhile p).length) :=
  h.drop_of_line (oneLine_takeWhile hp.2.2 r) (length_takeWhile_le p r)

theorem digitsUpTo (h : Blurred X Y r r')
    (hp : p ' ' = false ∧ p '\r' = false ∧ p '\n' = false) (most : Nat) :
    digitsUpTo p most r' = digitsUpTo p most r := by
  have hnone : ∀ {b}, p b = false → ∀ (most : Nat) (t : List Char),
      ((b :: t).take most).takeWhile p = [] := by
    intro b hb most t
    cases most with
    | zero => rfl
    | succ most => exact List.takeWhile_cons_of_neg (Bool.eq_false_iff.mp hb)
  unfold Lexer.digitsUpTo
  induction h generalizing most with
  | ends hv =>
      cases hv with
      | nothing => rfl
      | comment => rw [hnone hp.1, hnone hp.2.2]
      | returns => rw [hnone hp.2.1, hnone hp.2.2]
  | cons c h ih =>
      cases most with
      | zero => rfl
      | succ most =>
          rw [List.take_succ_cons, List.take_succ_cons, List.takeWhile_cons, List.takeWhile_cons, ih]

/-- Behind the blanks there is the same character, or nothing, or a newline in the one text and in
the other the mark of the comment or the end of the line. -/
theorem dropWhile_blank (h : Blurred X Y r r') (hp : p ' ' = true ∧ p '\n' = false ∧ p '#' = false) :
    (r.dropWhile p = [] ∧ r'.dropWhile p = []) ∨
      (∃ c t t', r.dropWhile p = c :: t ∧ r'.dropWhile p = c :: t' ∧ Blurred X Y t t') ∨
      ∃ after b t', r.dropWhile p = '\n' :: after ∧ r'.dropWhile p = b :: t' ∧ p b = false ∧
        (b = '#' ∨ b = '\r' ∨ b = '\n') := by
  obtain ⟨hblank, hnewline, hmark⟩ := hp
  induction h with
  | ends hv =>
      cases hv with
      | nothing => exact .inl ⟨rfl, rfl⟩
      | comment c after hc =>
          refine .inr (.inr ⟨after, '#', c ++ '\n' :: after,
            List.dropWhile_cons_of_neg (by simp [hnewline]), ?_, hmark, .inl rfl⟩)
          rw [List.dropWhile_cons_of_pos hblank, List.dropWhile_cons_of_neg (by simp [hmark])]
      | returns after after' _ =>
          have hend : ∀ t : List Char, ('\n' :: t).dropWhile p = '\n' :: t :=
            fun t => List.dropWhile_cons_of_neg (by simp [hnewline])
          -- the carriage return is skipped too, or is itself what stops the skip
          cases hreturn : p '\r' with
          | true =>
              refine .inr (.inr ⟨after, '\n', after', hend after, ?_, hnewline, .inr (.inr rfl)⟩)
              rw [List.dropWhile_cons_of_pos hreturn, hend]
          | false =>
              exact .inr (.inr ⟨after, '\r', '\n' :: after', hend after,
                List.dropWhile_cons_of_neg (by simp [hreturn]), hreturn, .inr (.inl rfl)⟩)
  | cons c h ih =>
      rw [List.dropWhile_cons, List.dropWhile_cons]
      split
      · exact ih
      · exact .inr (.inl ⟨c, _, _, rfl, rfl, h⟩)

/-! ## §3. Numbers. -/

theorem fractionLength (h : Blurred X Y r r') : fractionLength r' = fractionLength r := by
  cases h with
  | ends hv => cases hv <;> rfl
  | cons c h =>
      rcases eq_or_ne c '.' with rfl | hc
      · rw [Lexer.fractionLength, Lexer.fractionLength, h.nextIs (by decide), h.takeWhile (by decide)]
      · have hnone : ∀ cs : List Char, Lexer.fractionLength (c :: cs) = 0 := fun cs => by
          rw [Lexer.fractionLength]
          simp [hc]
        rw [hnone, hnone]

theorem exponentLength (h : Blurred X Y r r') : exponentLength r' = exponentLength r := by
  have hdigit : isDigit ' ' = isDigit '\n' ∧ isDigit '\r' = isDigit '\n' := by decide
  have hdigits : isDigitOrLine ' ' = false ∧ isDigitOrLine '\r' = false ∧
      isDigitOrLine '\n' = false := by decide
  cases h with
  | ends hv => cases hv <;> rfl
  | cons c h =>
      simp only [Lexer.exponentLength, h.nextIs hdigit, h.takeWhile hdigits]
      cases h with
      | ends hv => cases hv <;> rfl
      | cons d h => simp only [h.nextIs hdigit, h.takeWhile hdigits]

theorem bodyLength (h : Blurred X Y r r') : bodyLength r' = bodyLength r := by
  have hdigits : isDigitOrLine ' ' = false ∧ isDigitOrLine '\r' = false ∧
      isDigitOrLine '\n' = false := by decide
  unfold Lexer.bodyLength
  rw [h.head?_and (by decide) fun h => h.nextIs (by decide)]
  split
  next hmark =>
    rw [Bool.and_eq_true, beq_iff_eq] at hmark
    obtain ⟨rest, rfl⟩ := List.head?_eq_some_iff.mp hmark.1
    obtain ⟨letter, digits, rfl, hletter⟩ := exists_cons_of_nextIs hmark.2
    have htwo : OneLine ('0' :: letter :: digits) 2 := by
      refine ((oneLine_zero digits).cons ?_).cons (by decide)
      rintro rfl
      revert hletter
      decide
    rw [(h.drop_of_line htwo (by simp)).takeWhile (by decide)]
  next =>
    have hline := (oneLine_takeWhile (p := isDigitOrLine) (by decide) r).add (fractionLength_line _)
    have hle := fractionLength_le (r.drop (r.takeWhile isDigitOrLine).length)
    have hwhole := length_takeWhile_le isDigitOrLine r
    rw [List.length_drop] at hle
    simp only [h.takeWhile hdigits, (h.drop_takeWhile hdigits).fractionLength,
      (h.drop_of_line hline (by omega)).exponentLength]

/-- A letter behind a number, where it belongs to it. -/
theorem letter (h : Blurred X Y r r') {c : Char} (hc : c ≠ ' ' ∧ c ≠ '\r' ∧ c ≠ '\n')
    (hp : p ' ' = p '\n' ∧ p '\r' = p '\n') :
    (r'.head? == some c && !Lexer.nextIs p r'.tail) = (r.head? == some c && !Lexer.nextIs p r.tail) :=
  h.head?_and hc (f := fun t => !Lexer.nextIs p t) fun h => by rw [h.nextIs hp]

theorem numberLength (h : Blurred X Y r r') : numberLength r' = numberLength r := by
  have hbody : Blurred X Y (r.drop (Lexer.bodyLength r).2) (r'.drop (Lexer.bodyLength r).2) :=
    h.drop_of_line (bodyLength_line r) (bodyLength_le r)
  have hrational := hbody.letter (c := 'r') (p := fun c => isNameChar c && c != 'i') (by decide)
    (by decide)
  simp only [Lexer.numberLength, h.bodyLength, hrational]
  split
  next hletter =>
    rw [Bool.and_eq_true, beq_iff_eq] at hletter
    have hbehind := h.drop_of_line ((bodyLength_line r).snoc hletter.1 (by decide))
      (add_one_le_of_head? (bodyLength_le r) hletter.1)
    simp only [hbehind.letter (c := 'i') (p := isNameChar) (by decide) (by decide)]
  next => simp only [hbody.letter (c := 'i') (p := isNameChar) (by decide) (by decide)]

/-- What comes behind a number. -/
theorem skipNumber (h : Blurred X Y r r') : Blurred X Y (skipNumber r) (skipNumber r') := by
  induction h with
  | ends hv =>
      cases hv with
      | nothing => exact .ends .nothing
      | comment c after hc => exact .ends (.comment c after hc)
      | returns after after' hcall => exact .ends (.returns after after' hcall)
  | cons c h ih =>
      rw [Lexer.skipNumber, Lexer.skipNumber, h.nextIs (by decide)]
      split
      · exact ih
      · exact .cons c h

theorem powerFollows (h : Blurred X Y r r') : powerFollows r' = powerFollows r := by
  unfold Lexer.powerFollows
  rcases h.skipNumber.dropWhile_blank (p := isSpaceOrTab) (by decide) with
    ⟨hr, hr'⟩ | ⟨c, t, t', hr, hr', h⟩ | ⟨after, b, t', hr, hr', -, hb⟩
  · rw [hr, hr']
  · rw [hr, hr']
    exact (Blurred.cons c h).isPrefixOf (by decide)
  · rw [hr, hr']
    rcases hb with rfl | rfl | rfl <;> rfl

/-! ## §4. Words. -/

/-- An equals sign that a mark does not belong to. -/
theorem equals (h : Blurred X Y r r') : (r'.head? != some '=' || r'.tail.head? == some '=') =
    (r.head? != some '=' || r.tail.head? == some '=') := by
  cases h with
  | ends hv => cases hv <;> rfl
  | cons c h =>
      rw [List.tail_cons, List.tail_cons, h.head? (by decide)]
      rfl

theorem readWord (h : Blurred X Y r r') : readWord r' = readWord r := by
  have hname : isNameChar ' ' = false ∧ isNameChar '\r' = false ∧ isNameChar '\n' = false := by
    decide
  have hafter := h.drop_takeWhile hname
  unfold Lexer.readWord
  rw [h.takeWhile hname]
  dsimp only
  generalize r.drop (r.takeWhile isNameChar).length = rest,
    r'.drop (r.takeWhile isNameChar).length = rest' at hafter
  cases hafter with
  | ends hv => cases hv <;> rfl
  | cons mark hmark => dsimp only; rw [hmark.equals]

/-- The text behind a word. -/
theorem drop_word (h : Blurred X Y r r') :
    Blurred X Y (r.drop (Lexer.readWord r).chars.length)
      (r'.drop (Lexer.readWord r).chars.length) :=
  h.drop_of_line (oneLine_of_isPrefix (readWord_isPrefix r) (readWord_line r))
    (readWord_isPrefix r).length_le

theorem any_isPrefixOf {spellings : List String}
    (hspellings : ∀ spelling ∈ spellings,
      ' ' ∉ spelling.toList ∧ '\r' ∉ spelling.toList ∧ '\n' ∉ spelling.toList)
    (h : Blurred X Y r r') : (spellings.any fun spelling => spelling.toList.isPrefixOf r') =
      spellings.any fun spelling => spelling.toList.isPrefixOf r := by
  induction spellings with
  | nil => rfl
  | cons spelling spellings ih =>
      obtain ⟨hspelling, hspellings⟩ := List.forall_mem_cons.mp hspellings
      rw [List.any_cons, List.any_cons, h.isPrefixOf hspelling, ih hspellings]

theorem assignmentAhead (h : Blurred X Y r r') : assignmentAhead r' = assignmentAhead r := by
  unfold Lexer.assignmentAhead
  rcases h.dropWhile_blank (p := isSpaceOrTab) (by decide) with
    ⟨hr, hr'⟩ | ⟨c, t, t', hr, hr', h⟩ | ⟨after, b, t', hr, hr', -, hb⟩
  · rw [hr, hr']
  · rw [hr, hr']
    rcases eq_or_ne c '=' with rfl | hc
    · exact congrArg (!·) (h.nextIs (by decide))
    · have hspellings : ∀ op ∈ assignmentOperators,
          ' ' ∉ op.toList ∧ '\r' ∉ op.toList ∧ '\n' ∉ op.toList := by decide
      have hother : ∀ {t rest : List Char}, c :: t ≠ '=' :: rest := fun heq =>
        hc (List.cons.inj heq).1
      split
      next heq => exact absurd heq hother
      next =>
        split
        next heq => exact absurd heq hother
        next => exact (Blurred.cons c h).any_isPrefixOf hspellings
  · rw [hr, hr']
    rcases hb with rfl | rfl | rfl <;> rfl

/-- Whether a label is the last on its line. -/
theorem labelCloses (h : Blurred X Y r r') :
    Lexer.nextIs (fun c => c == '\n' || c == '#')
        (r'.dropWhile fun c => isSpaceOrTab c || c == '\r') =
      Lexer.nextIs (fun c => c == '\n' || c == '#')
        (r.dropWhile fun c => isSpaceOrTab c || c == '\r') := by
  rcases h.dropWhile_blank (p := fun c => isSpaceOrTab c || c == '\r') (by decide) with
    ⟨hr, hr'⟩ | ⟨c, t, t', hr, hr', -⟩ | ⟨after, b, t', hr, hr', hblank, hb⟩
  · rw [hr, hr']
  · rw [hr, hr']
    rfl
  · -- a carriage return is a blank here
    rw [hr, hr']
    rcases hb with rfl | rfl | rfl
    · rfl
    · cases hblank
    · rfl

theorem symbolLength (h : Blurred X Y r r') : State.symbolLength r' = State.symbolLength r := by
  have hname : isNameChar ' ' = false ∧ isNameChar '\r' = false ∧ isNameChar '\n' = false := by
    decide
  cases h with
  | ends hv => cases hv <;> rfl
  | @cons c r r' h =>
      -- the sigils come first; each of them fixes how much further the name looks
      by_cases hat : c = '@'
      · subst hat
        cases h with
        | ends hv => cases hv <;> rfl
        | cons d h =>
            by_cases hd : d = '@'
            · subst hd
              rw [State.symbolLength, State.symbolLength, h.takeWhile hname]
            · rw [State.symbolLength.eq_2 _ (by simp [hd]), State.symbolLength.eq_2 _ (by simp [hd]),
                (Blurred.cons d h).takeWhile hname]
      by_cases hdollar : c = '$'
      · subst hdollar
        rw [State.symbolLength, State.symbolLength, h.nextIs (by decide), h.takeWhile hname, h.isEmpty]
      · -- a name, or an operator
        replace h := Blurred.cons c h
        have hafter := h.drop_takeWhile hname
        rw [State.symbolLength.eq_4 _ (by simp [hat]) (by simp [hat]) (by simp [hdollar]),
          State.symbolLength.eq_4 _ (by simp [hat]) (by simp [hat]) (by simp [hdollar]),
          h.nextIs (by decide), h.takeWhile hname, h.findSpelling methodOperators (by decide)]
        dsimp only
        generalize List.drop _ (c :: r) = rest, List.drop _ (c :: r') = rest' at hafter
        cases hafter with
        | ends hv => cases hv <;> rfl
        | cons mark hmark =>
            dsimp only
            rw [bne, bne, hmark.head? (by decide), hmark.nextIs (by decide)]

theorem globalLength? (h : Blurred X Y r r') : State.globalLength? r' = State.globalLength? r := by
  cases h with
  | ends hv => cases hv <;> rfl
  | cons c h =>
      unfold State.globalLength?
      simp only [(Blurred.cons c h).takeWhile (p := isNameChar) (by decide),
        (Blurred.cons c h).takeWhile (p := isDigit) (by decide),
        h.nextIs (p := fun d => isLetter d || isDigitOrLine d) (by decide)]

/-! ## §5. Lines. -/

/-- A line that is read to its end before the place. -/
theorem lineLength (h : Blurred X Y r r') (hbefore : X.length ≤ (r.drop (lineLength r)).length) :
    lineLength r' = lineLength r := by
  induction h with
  | ends hv =>
      cases hv with
      | nothing => rfl
      | comment | returns =>
          rw [Lexer.lineLength, if_pos (by decide), List.drop_one, List.tail_cons,
            List.length_cons] at hbefore
          omega
  | cons c h ih =>
      rw [Lexer.lineLength] at hbefore
      rw [Lexer.lineLength, Lexer.lineLength]
      split
      next => rfl
      next hc =>
        rw [if_neg hc, Nat.add_comm 1, List.drop_succ_cons] at hbefore
        rw [ih hbefore]

/-- So is a document comment. -/
theorem documentLength? (h : Blurred X Y r r') (hread : documentLength? r = some n)
    (hbefore : X.length ≤ (r.drop n).length) : documentLength? r' = some n := by
  induction h generalizing n with
  | ends hv =>
      cases hv with
      | nothing => exact hread
      | comment | returns =>
          have hpos := documentLength?_pos hread
          rw [List.length_drop, List.length_cons] at hbefore
          omega
  | @cons c r r' h ih =>
      -- the end of the document is on one line, so both texts agree on whether it stands here
      have hmark : ("=end".toList.isPrefixOf r' && State.atSpace (r'.drop 4)) =
          ("=end".toList.isPrefixOf r && State.atSpace (r.drop 4)) := by
        rw [h.isPrefixOf (by decide)]
        cases hend : "=end".toList.isPrefixOf r with
        | false => rfl
        | true =>
            have hfour := h.drop_of_line (oneLine_of_isPrefixOf (by decide) hend)
              (length_le_of_isPrefixOf hend)
            rw [show "=end".length = 4 from rfl] at hfour
            rw [hfour.atSpace]
      rw [Lexer.documentLength?, Bool.and_assoc] at hread ⊢
      rw [hmark]
      split at hread
      next hcond =>
        rw [if_pos hcond]
        cases hread
        rw [Nat.add_comm, List.drop_succ_cons] at hbefore
        rw [h.lineLength hbefore]
      next hcond =>
        obtain ⟨m, hm, rfl⟩ := Option.map_eq_some_iff.mp hread
        rw [Nat.add_comm, List.drop_succ_cons] at hbefore
        rw [if_neg hcond, ih hm hbefore]
        rfl

/-- The point that goes on with a call in the next line. -/
theorem continuesWithCall (h : Blurred X Y r r') (inComment : Bool) :
    continuesWithCall inComment r' = continuesWithCall inComment r := by
  -- the comment does not matter
  have hcomment : ∀ c after : List Char, '\n' ∉ c →
      Lexer.continuesWithCall true (c ++ '\n' :: after) = Lexer.continuesWithCall false after := by
    intro c after hc
    induction c with
    | nil => rfl
    | cons d c ih =>
        rw [List.mem_cons, not_or] at hc
        have hd : (d != '\n') = true := bne_iff_ne.mpr (Ne.symm hc.1)
        rw [List.cons_append, Lexer.continuesWithCall, if_pos rfl, hd, ih hc.2]
  induction h generalizing inComment with
  | ends hv =>
      cases hv with
      | nothing => rfl
      | comment c after hc =>
          have hafter := hcomment c after hc
          cases inComment with
          | false => exact hafter
          | true => exact hafter
      | returns after after' hcall =>
          cases inComment with
          | false => exact hcall
          | true => exact hcall
  | cons c h ih =>
      simp only [Lexer.continuesWithCall, ih, bne, h.head? (c := '.') (by decide)]

/-- A blank, or a newline that is hidden before the place. -/
theorem blankLength? (h : Blurred X Y r r') (c : Char)
    (hbefore : ∀ n, State.blankLength? (c :: r) = some n → X.length ≤ ((c :: r).drop n).length) :
    State.blankLength? (c :: r') = State.blankLength? (c :: r) := by
  -- only after a backslash does a blank look ahead
  by_cases hc : c = '\\'
  · subst hc
    cases h with
    | ends hv =>
        cases hv with
        | nothing => rfl
        | comment | returns => exact absurd (hbefore 2 rfl) (by simp)
    | cons d h =>
        by_cases hd : d = '\r'
        · subst hd
          cases h with
          | ends hv =>
              cases hv with
              | nothing => rfl
              | comment | returns => exact absurd (hbefore 3 rfl) (by simp)
          | cons e h =>
              by_cases he : e = '\n'
              · subst he
                rfl
              · simp [State.blankLength?, he]
        · by_cases hd' : d = '\n'
          · subst hd'
            rfl
          · simp [State.blankLength?, hd, hd']
  · simp [State.blankLength?, hc]

end Blurred

/-! ## §6. Escapes. -/

/-- Of two pieces at the beginning of two texts that part at the end of a line, the one ends there
and the other takes the blank before the comment.  Otherwise they are the same. -/
structure Overtakes (X Y r r' : List Char) (p p' : Piece) : Prop where
  source_eq : p'.source = p.source ++ [' ']
  line : '\n' ∉ p.source
  value_eq : p'.value = p.value
  fault_eq : p'.fault? = p.fault?
  rest : r.drop p.source.length = X
  rest' : ' ' :: r'.drop p'.source.length = Y

/-- Blanks, and a character that is none: a closing brace or a number in a list of code points, or
where the list ends. -/
theorem readCodePoints_append {blanks rest : List Char} (hblanks : ∀ b ∈ blanks, b = ' ') {c : Char}
    (hc : c ≠ ' ') : readCodePoints (blanks ++ c :: rest) =
      if c == '\x7d' then (blanks ++ [c], [], true)
      else if isHexDigit c then
        let more := digitsUpTo isHexDigit 5 rest
        let (source, value, good) := readCodePoints (rest.drop more.length)
        match charOf? (baseValue 16 (c :: more)) with
        | some ch => (blanks ++ c :: more ++ source, ch :: value, good)
        | none => (blanks ++ c :: more ++ source, value, false)
      else (blanks, [], false) := by
  have htake : (blanks ++ c :: rest).takeWhile (· == ' ') = blanks := by
    rw [List.takeWhile_append_of_pos (by simpa using hblanks),
      List.takeWhile_cons_of_neg (by simpa using hc), List.append_nil]
  rw [readCodePoints]
  split
  next hdrop =>
    rw [htake, List.drop_left] at hdrop
    cases hdrop
  next hdrop =>
    rw [htake, List.drop_left] at hdrop
    cases hdrop
    generalize (blanks ++ c :: rest).takeWhile (· == ' ') = start at htake ⊢
    subst htake
    rfl

namespace Blurred

variable {X Y r r' : List Char} {n : Nat}

/-- The blanks at the beginning of two texts, with what follows, or up to the place. -/
theorem blanks (h : Blurred X Y r r') :
    (∃ blanks c t t', (∀ b ∈ blanks, b = ' ') ∧ c ≠ ' ' ∧ r = blanks ++ c :: t ∧
      r' = blanks ++ c :: t' ∧ Blurred X Y t t') ∨
    ∃ blanks, (∀ b ∈ blanks, b = ' ') ∧ r = blanks ++ X ∧ r' = blanks ++ Y ∧ Veiled X Y := by
  induction h with
  | ends hv => exact .inr ⟨[], nofun, rfl, rfl, hv⟩
  | cons c h ih =>
      by_cases hc : c = ' '
      · subst hc
        have hmore : ∀ {blanks : List Char}, (∀ b ∈ blanks, b = ' ') → ∀ b ∈ ' ' :: blanks, b = ' ' :=
          fun h => List.forall_mem_cons.mpr ⟨rfl, h⟩
        rcases ih with ⟨blanks, c, t, t', hblanks, hc, rfl, rfl, ht⟩ | ⟨blanks, hblanks, rfl, rfl, hv⟩
        · exact .inl ⟨' ' :: blanks, c, t, t', hmore hblanks, hc, rfl, rfl, ht⟩
        · exact .inr ⟨' ' :: blanks, hmore hblanks, rfl, rfl, hv⟩
      · exact .inl ⟨[], c, _, _, nofun, hc, rfl, rfl, h⟩

/-- Lists of code points in two texts are the same, or they have no end, and the second one takes
the blank. -/
def SamePoints (X Y r r' : List Char) : Prop :=
  Lexer.readCodePoints r' = Lexer.readCodePoints r ∨
    (Lexer.readCodePoints r').1 = (Lexer.readCodePoints r).1 ++ [' '] ∧
      (Lexer.readCodePoints r').2 = (Lexer.readCodePoints r).2 ∧
      r.drop (Lexer.readCodePoints r).1.length = X ∧
      ' ' :: r'.drop (Lexer.readCodePoints r').1.length = Y

/-- Where the texts part, the newline ends the list; so does the mark of the comment, behind the
blank. -/
theorem samePoints_of_veiled (hv : Veiled X Y) {blanks : List Char} (hblanks : ∀ b ∈ blanks, b = ' ') :
    SamePoints X Y (blanks ++ X) (blanks ++ Y) := by
  cases hv with
  | nothing => exact .inl rfl
  | comment c after hc =>
      have hmore : ∀ b ∈ blanks ++ [' '], b = ' ' :=
        List.forall_mem_append.mpr ⟨hblanks, by simp⟩
      have hY : blanks ++ ' ' :: '#' :: (c ++ '\n' :: after) =
          (blanks ++ [' ']) ++ '#' :: (c ++ '\n' :: after) := by simp
      unfold SamePoints
      rw [hY, readCodePoints_append hblanks (by decide), readCodePoints_append hmore (by decide)]
      exact .inr ⟨rfl, rfl, List.drop_left, congrArg (' ' :: ·) List.drop_left⟩
  | returns after after' _ =>
      unfold SamePoints
      rw [readCodePoints_append hblanks (by decide), readCodePoints_append hblanks (by decide)]
      exact .inl rfl

/-- A number in the list is the same. -/
theorem samePoints_of_digit {blanks t t' : List Char} (hblanks : ∀ b ∈ blanks, b = ' ') {c : Char}
    (hc : isHexDigit c = true) (ht : Blurred X Y t t')
    (hrest : SamePoints X Y (t.drop (Lexer.digitsUpTo isHexDigit 5 t).length)
      (t'.drop (Lexer.digitsUpTo isHexDigit 5 t).length)) :
    SamePoints X Y (blanks ++ c :: t) (blanks ++ c :: t') := by
  have hblank : c ≠ ' ' := by
    rintro rfl
    revert hc
    decide
  have hbrace : ¬ (c == '\x7d') = true := fun hbrace => by
    rw [beq_iff_eq.mp hbrace] at hc
    revert hc
    decide
  unfold SamePoints at hrest ⊢
  rw [readCodePoints_append hblanks hblank, readCodePoints_append hblanks hblank, if_neg hbrace,
    if_neg hbrace, if_pos hc, if_pos hc, ht.digitsUpTo (by decide)]
  dsimp only
  generalize Lexer.digitsUpTo isHexDigit 5 t = more at hrest ⊢
  generalize Lexer.readCodePoints (t.drop more.length) = points,
    Lexer.readCodePoints (t'.drop more.length) = points' at hrest ⊢
  obtain ⟨source, value, good⟩ := points
  obtain ⟨source', value', good'⟩ := points'
  -- the points after this one are the same, or run into the blurred part together
  rcases hrest with heq | ⟨hsource, hvalue, hX, hY⟩
  · cases heq
    exact .inl rfl
  · cases hsource
    cases hvalue
    have hdrop : ∀ cs more' : List Char, (blanks ++ c :: cs).drop
        (blanks ++ c :: more ++ more').length = (cs.drop more.length).drop more'.length := by
      intro cs more'
      simp [List.drop_append]
    have happend := List.append_assoc (blanks ++ c :: more) source [' ']
    dsimp only at hX hY ⊢
    split
    · exact .inr ⟨happend.symm, rfl, (hdrop t source).trans hX,
        (congrArg (' ' :: ·) (hdrop t' _)).trans hY⟩
    · exact .inr ⟨happend.symm, rfl, (hdrop t source).trans hX,
        (congrArg (' ' :: ·) (hdrop t' _)).trans hY⟩

/-- **A list of code points is the same, or it has no end and takes the blank.** -/
theorem readCodePoints : ∀ {r r' : List Char}, Blurred X Y r r' → SamePoints X Y r r'
  | r, r', h => by
      rcases h.blanks with ⟨blanks, c, t, t', hblanks, hc, hr, hr', ht⟩ |
        ⟨blanks, hblanks, hr, hr', hv⟩
      · rw [hr, hr']
        by_cases hdigit : isHexDigit c = true
        · have hstart := digitsUpTo_isPrefix isHexDigit 5 t
          have hline := oneLine_of_isPrefix hstart (not_mem_digitsUpTo (by decide) 5 t)
          exact samePoints_of_digit hblanks hdigit ht
            (readCodePoints (ht.drop_of_line hline hstart.length_le))
        · unfold SamePoints
          rw [readCodePoints_append hblanks hc, readCodePoints_append hblanks hc, if_neg hdigit,
            if_neg hdigit]
          exact .inl rfl
      · rw [hr, hr']
        exact samePoints_of_veiled hv hblanks
termination_by r => r.length
decreasing_by
  rw [hr]
  simp only [List.length_drop, List.length_append, List.length_cons]
  omega

/-- An escape by code point is the same, or takes the blank. -/
theorem readUnicode (h : Blurred X Y r r') {mark : List Char} (hmark : '\n' ∉ mark) :
    readUnicode mark r' = readUnicode mark r ∨
      Overtakes X Y (mark ++ r) (mark ++ r') (readUnicode mark r) (readUnicode mark r') := by
  -- a code point without a brace
  have hdigits : ∀ {r r' : List Char}, Blurred X Y r r' → (∀ rest, r = '\x7b' :: rest → False) →
      (∀ rest, r' = '\x7b' :: rest → False) → Lexer.readUnicode mark r' = Lexer.readUnicode mark r := by
    intro r r' h hr hr'
    rw [Lexer.readUnicode.eq_2 _ _ hr, Lexer.readUnicode.eq_2 _ _ hr', h.digitsUpTo (by decide)]
  cases h with
  | ends hv => exact .inl (hdigits (.ends hv) (by cases hv <;> simp) (by cases hv <;> simp))
  | @cons c r r' h =>
      by_cases hc : c = '\x7b'
      · subst hc
        rw [Lexer.readUnicode, Lexer.readUnicode]
        rcases h.readCodePoints with heq | ⟨hsource, hvalue, hX, hY⟩
        · rw [heq]
          exact .inl rfl
        · right
          have hline : '\n' ∉ mark ++ '\x7b' :: (Lexer.readCodePoints r).1 := by
            rw [List.mem_append, List.mem_cons]
            exact not_or.mpr ⟨hmark, not_or.mpr ⟨by decide, readCodePoints_line r⟩⟩
          generalize Lexer.readCodePoints r = points, Lexer.readCodePoints r' = points' at *
          obtain ⟨source, value, good⟩ := points
          obtain ⟨source', value', good'⟩ := points'
          cases hsource
          cases hvalue
          dsimp only
          have hdrop : ∀ cs more : List Char, (mark ++ '\x7b' :: cs).drop
              (mark ++ '\x7b' :: more).length = cs.drop more.length := by
            intro cs more
            simp [List.drop_append]
          have happend := List.append_assoc mark ('\x7b' :: source) [' ']
          exact ⟨happend.symm, hline, rfl, rfl, (hdrop r source).trans hX,
            (congrArg (' ' :: ·) (hdrop r' _)).trans hY⟩
      · exact .inl (hdigits (.cons c h) (by simp [hc]) (by simp [hc]))

theorem readHex (h : Blurred X Y r r') (mark : List Char) : readHex mark r' = readHex mark r := by
  rw [Lexer.readHex, Lexer.readHex, h.digitsUpTo (by decide)]

/-- **An escape is the same, or takes the blank**, if a character follows the backslash. -/
theorem readEscape (h : Blurred X Y r r') (c : Char) (style : EscapeStyle) :
    readEscape style (c :: r') = readEscape style (c :: r) ∨
      Overtakes X Y ('\\' :: c :: r) ('\\' :: c :: r') (readEscape style (c :: r))
        (readEscape style (c :: r')) := by
  cases style with
  | raw close => exact .inl rfl
  | regexp close => exact .inl rfl
  | full =>
      simp only [Lexer.readEscape]
      split
      next hc =>
        rw [beq_iff_eq.mp hc]
        exact h.readUnicode (by decide)
      split
      · exact .inl (h.readHex _)
      split
      · rw [(Blurred.cons c h).digitsUpTo (by decide)]
        exact .inl rfl
      · exact .inl rfl

/-- What follows a question mark is a character in both texts or in none. -/
theorem characterPiece?_eq_none (h : Blurred X Y r r') (hnone : State.characterPiece? r = none) :
    State.characterPiece? r' = none := by
  cases h with
  | ends hv => cases hv <;> rfl
  | @cons c r r' h =>
      by_cases hc : c = '\\'
      · subst hc
        rw [State.characterPiece?] at hnone
        cases hnone
      · rw [State.characterPiece?.eq_3 _ _ (by simpa using hc)] at hnone ⊢
        rwa [h.nextIs (by decide)]

/-- A character is the same, or takes the blank. -/
theorem characterPiece?_eq_some (h : Blurred X Y r r') {piece : Piece}
    (hpiece : State.characterPiece? r = some piece)
    (hbefore : X.length ≤ (r.drop piece.source.length).length) :
    State.characterPiece? r' = some piece ∨
      ∃ piece', State.characterPiece? r' = some piece' ∧ Overtakes X Y r r' piece piece' := by
  cases h with
  | ends hv => cases hv <;> cases hpiece
  | @cons c r r' h =>
      by_cases hc : c = '\\'
      · subst hc
        rw [State.characterPiece?, Option.some.injEq] at hpiece
        subst hpiece
        rw [State.characterPiece?]
        cases h with
        | ends hv =>
            cases hv with
            | nothing => exact .inl rfl
            | comment | returns =>
                have hplain : isOctalDigit '\n' = false := by decide
                exact absurd hbefore (by simp [Lexer.readEscape, hplain])
        | cons d h =>
            rcases h.readEscape d .full with heq | hovertakes
            · rw [heq]
              exact .inl rfl
            · exact .inr ⟨_, rfl, hovertakes⟩
      · rw [State.characterPiece?.eq_3 _ _ (by simpa using hc)] at hpiece ⊢
        rw [h.nextIs (by decide)]
        exact .inl hpiece

/-- A piece of a content with more behind it before the place. -/
theorem piece (h : Blurred X Y r r') (c : Char) (style : EscapeStyle)
    (hbefore : X.length < ((c :: r).drop
      (if c == '\\' then Lexer.readEscape style r else .plain c).source.length).length) :
    (if c == '\\' then Lexer.readEscape style r' else .plain c) =
      if c == '\\' then Lexer.readEscape style r else .plain c := by
  by_cases hc : c = '\\'
  · subst hc
    rw [if_pos (by decide), if_pos (by decide)]
    rw [if_pos (by decide)] at hbefore
    cases h with
    | ends hv =>
        obtain ⟨p, source, hsource⟩ := List.exists_cons_of_ne_nil (readEscape_source_ne_nil style X)
        rw [hsource, List.length_cons, List.drop_succ_cons, List.length_drop] at hbefore
        omega
    | cons d h =>
        refine (h.readEscape d style).resolve_right fun hovertakes => ?_
        rw [hovertakes.rest] at hbefore
        exact Nat.lt_irrefl _ hbefore
  · have hplain : (c == '\\') = false := beq_eq_false_iff_ne.mpr hc
    simp only [hplain]
    rfl

/-- **The content of a literal is the same**, if the literal goes on or ends before the place. -/
theorem readContent (l : Literal) : ∀ {r r' : List Char}, Blurred X Y r r' →
    (readContent l r).2 ≠ .endOfText →
    X.length < (r.drop (sourceOf (readContent l r).1).length).length →
    readContent l r' = readContent l r
  | [], _, _, hend, _ => absurd (by rw [Lexer.readContent]) hend
  | c :: r, r', h, hend, hbefore => by
      cases h with
      | ends hv =>
          rw [List.length_drop] at hbefore
          omega
      | @cons _ _ r' h =>
          rw [Lexer.readContent] at hend hbefore
          rw [Lexer.readContent, Lexer.readContent, h.head? (by decide)]
          split
          next => rfl
          next hclose =>
            rw [if_neg hclose] at hend hbefore
            split
            next => rfl
            next hmark =>
              rw [if_neg hmark] at hend hbefore
              have hsame := h.piece c l.escapes
              obtain ⟨hne, -⟩ := piece_source l.escapes c r
              generalize (if c == '\\' then Lexer.readEscape l.escapes r else .plain c) = first
                at hend hbefore hne hsame ⊢
              dsimp only at hend hbefore ⊢
              -- what comes behind the first piece
              obtain ⟨d, source, hsource⟩ := List.exists_cons_of_ne_nil hne
              have hfirst : first.source.length - 1 = source.length := by rw [hsource]; rfl
              rw [hfirst] at hend hbefore ⊢
              have hdrop : ∀ pieces, (c :: r).drop (sourceOf (first :: pieces)).length =
                  (r.drop source.length).drop (sourceOf pieces).length := by
                intro pieces
                rw [sourceOf, List.flatMap_cons, hsource, List.length_append, List.length_cons,
                  Nat.add_right_comm, List.drop_succ_cons, List.drop_drop]
                rfl
              rcases hrest : Lexer.readContent l (r.drop source.length) with ⟨pieces, ending⟩
              rw [hrest] at hend hbefore
              rw [hdrop pieces] at hbefore
              have hlength := List.length_drop (i := (sourceOf pieces).length) (l := r.drop source.length)
              have hbehind := h.drop (n := source.length) (by omega)
              have hmore := readContent l hbehind (by rwa [hrest]) (by rwa [hrest])
              have hone : X.length < ((c :: r).drop first.source.length).length := by
                rw [hsource, List.length_cons, List.drop_succ_cons]
                omega
              rw [hsame hone, hfirst, hmore, hrest]
termination_by r => r.length
decreasing_by
  simp only [List.length_drop, List.length_cons]
  omega

end Blurred

end RubySyntax.Token.Lexer
