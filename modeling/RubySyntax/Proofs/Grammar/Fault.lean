/-
  RubySyntax.Proofs.Grammar.Fault
  ───────────────────────────────
  **WHERE TOKENS STOP MAKING SENSE.**

  The index at which a faulty program is reported depends on the tokens before it only.  For most
  rules this is read off the rule.  Four rules look ahead and leave no trace, and for each of them
  there is a reason why no more than the tokens before the index has been looked at:

    • `defined` before a parenthesis, and three points before a closing one: another alternative
      reads the same word and looks at the token behind it,
    • a constant behind two colons: if a parenthesis follows, another alternative reads that,
    • the value of a pattern: other alternatives look at the token at the place of the name.

  One lookahead is left over.  No name can be the bound of a range in a pattern, and where the
  range has no lower bound, nothing else looks at the token behind its points.

      x in ..a

  Main results:
    • `language_carries` — every symbol carries over what it finds,
    • `fault_determined` — the fault of a program is determined by the tokens before it.
-/
import RubySyntax.Program
import RubySyntax.Proofs.Grammar.Horizon

namespace RubySyntax.Grammar

open Token Grammar.Expr

section Rules

variable {tokens tokens' : Array Token} {version : Version} {m i : Nat} {α : Type} {t : Trace}

/-! ## §1. Lookaheads. -/

theorem not_behind (tokens : Array Token) (i : Nat) : false = true → Behind tokens i := by
  intro h
  cases h

/-- A failure that leaves a trace has looked at a token before the horizon. -/
theorem before_of_fails (h : Agree tokens tokens' m) {e : Rule α}
    (he : (⟨1, 0, 0⟩ : Extent).le (e.extent none) = true)
    (hfound : e.Finds (carrying tokens tokens' version m) i none t) (ht : t.farthest ≤ m) :
    i < m := by
  have hlook : Extent.Holds ⟨1, 0, 0⟩ tokens.size i (none : Option (α × Nat)) t :=
    (extent_of_finds (derived_of_carrying hfound)).of_le he
  have hfar : min (i + 1) tokens.size ≤ t.farthest := hlook.1 (by decide)
  have := h.lt_size
  omega

/-- A lookahead before the horizon fails alike. -/
theorem carried_next (h : Agree tokens tokens' m) {kinds : List Kind} (hi : i < m)
    (hfound : (Expr.next kinds : Rule Unit).Finds (carrying tokens tokens' version m) i none t) :
    Carried m ((Expr.next kinds : Rule Unit).Finds (language.derived tokens' version) i) none t := by
  cases hfound with
  | fails hnot =>
      exact ⟨_, .fails fun hs => hnot ((h.stands_iff hi).mp hs), .refl (Nat.zero_le _)⟩

theorem carried_notNext (h : Agree tokens tokens' m) {kinds : List Kind} (hi : i < m)
    (hfound : (Expr.notNext kinds : Rule Unit).Finds (carrying tokens tokens' version m) i none t) :
    Carried m ((Expr.notNext kinds : Rule Unit).Finds (language.derived tokens' version) i)
      none t := by
  cases hfound with
  | fails hnot =>
      exact ⟨_, .fails fun hs => hnot fun hstands => hs ((h.stands_iff hi).mpr hstands),
        .refl (Nat.zero_le _)⟩

/-- A token of one kind and a lookahead behind it, which looks at a token before the horizon. -/
theorem carried_look (h : Agree tokens tokens' m) {kind : Kind} {f : Token → α} {look : Rule Unit}
    (hlook : ∀ k t, k < m → look.Finds (carrying tokens tokens' version m) k none t →
      Carried m (look.Finds (language.derived tokens' version) k) none t)
    (hinside : Stands tokens [kind] i → i + 1 < m)
    (hfound : (f <$> tok kind <* look : Rule α).Finds (carrying tokens tokens' version m) i none t)
    (ht : t.farthest ≤ m) :
    Carried m ((f <$> tok kind <* look : Rule α).Finds (language.derived tokens' version) i)
      none t := by
  -- the token itself may be missing, or what has to follow it
  have htok := carry_holds h version ((fun a (_ : Unit) => a) <$> (f <$> tok kind : Rule α)) i
    (not_behind tokens i)
  cases hfound with
  | first hf =>
      obtain ⟨t', hf', ht'⟩ := htok.carried hf ht rfl
      exact ⟨t', .first hf', ht'⟩
  | second hf hx =>
      obtain ⟨_, ⟨tok, hread, -⟩, -⟩ := hf.reads
      obtain ⟨hstands, hkind, rfl⟩ := hread.tok
      have hi : i + 1 < m := hinside ⟨tok, hstands, List.mem_singleton.mpr hkind⟩
      rw [Trace.farthest_append] at ht
      obtain ⟨t', hf', ht'⟩ := htok.carried hf (by omega) (.inr ⟨rfl, hi⟩)
      obtain ⟨u', hx', hu'⟩ := hlook _ _ hi hx
      exact ⟨t' ++ u', .second hf' hx', ht'.append hu'⟩

theorem stands_of_look {kind : Kind} {f : Token → α} {kinds : List Kind} {v : α} {j : Nat}
    (hfound : (f <$> tok kind <* .next kinds : Rule α).Finds
      (carrying tokens tokens' version m) i (some (v, j)) t) :
    Stands tokens [kind] i ∧ j = i + 1 := by
  obtain ⟨k, _, hword, hlook⟩ := hfound.reads.seqLeft
  obtain ⟨tok, htok, -⟩ := hword
  obtain ⟨hstands, hkind, rfl⟩ := htok.tok
  exact ⟨⟨tok, hstands, List.mem_singleton.mpr hkind⟩, hlook.1⟩

/-- A choice, where the second alternative looks at the token behind the first one. -/
theorem holds_orBehind (h : Agree tokens tokens' m) {kind : Kind} (hkind : some kind ∈ leading)
    {a b : Rule α} {behind : Bool} (hbehind : behind = true → Behind tokens i)
    (ha : ∀ t, a.Finds (carrying tokens tokens' version m) i none t → t.farthest ≤ m →
      (Stands tokens [kind] i → i + 1 < m) →
      Carried m (a.Finds (language.derived tokens' version) i) none t)
    (hextent : (⟨2, 2, 0⟩ : Extent).le (b.extent (some kind)) = true) :
    (Expr.orElse a b).CarriesAt tokens tokens' version m i
      ((a.carry behind).orAfter (b.carry behind)) := by
  refine (carry_holds h version a i hbehind).orAfter (carry_holds h version b i hbehind) ?_
  intro o t u hfails hfound ht hu hcovers
  refine ha t hfails ht fun ⟨tok, htok, hmem⟩ => ?_
  -- the second reading begins with the same token, and looks at the one behind it
  have hbegins : Begins tokens (some kind) i := by
    rintro kind' ⟨⟩
    exact ⟨tok, htok, List.mem_singleton.mp hmem⟩
  have hlooks : Extent.Holds ⟨2, 2, 0⟩ tokens.size i o u :=
    (extent_holds derived_extent hkind hbegins (derived_of_carrying hfound)).of_le hextent
  have := h.lt_size
  cases o with
  | none =>
      have hfar : min (i + 2) tokens.size ≤ u.farthest := hlooks.1 (by decide)
      omega
  | some found =>
      obtain ⟨-, hlook, -⟩ := hlooks
      simp only [Carry.Covers] at hcovers hlook
      omega

/-! ## §2. Words that need a second look. -/

/-- `defined` before what it asks for. -/
def definedWord : Rule (Node → Node) :=
  (fun kw value => Node.defined kw value none) <$> tok .kDEFINED <* .notNext parens

theorem argumentRule_eq :
    argumentRule = .orElse (definedWord <*> argument) (.call Symbol.ternary) := rfl

/-- `defined` is followed by no parenthesis, or its value is read. -/
theorem holds_argument (h : Agree tokens tokens' m) :
    argumentRule.CarriesAt tokens tokens' version m i .all := by
  rw [argumentRule_eq]
  have hall : Carry.all.le (((definedWord <*> argument).carry false).orAfter
      ((Expr.call Symbol.ternary : Rule Node).carry false)) = true := rfl
  have hleading : some .kDEFINED ∈ leading := by decide
  refine (holds_orBehind h hleading (not_behind tokens i) ?_ rfl).of_le hall
  intro t hfails ht hinside
  cases hfails with
  | first hf =>
      -- the word is not there, or a parenthesis stands behind it
      obtain ⟨t', hf', ht'⟩ := carried_look h (fun k t hk => carried_notNext h hk) hinside hf ht
      exact ⟨t', .first hf', ht'⟩
  | @second g k t u hf hx =>
      -- the word is there and no argument behind it, so the failure is behind the word
      rw [Trace.farthest_append] at ht
      have hword := carry_holds h version definedWord i (not_behind tokens i)
      have hvalue := carry_holds h version argument k (not_behind tokens k)
      obtain ⟨t', hf', ht'⟩ := hword.carried hf (by omega)
        (.inr ⟨rfl, before_of_fails h rfl hx (by omega)⟩)
      obtain ⟨u', hx', hu'⟩ := hvalue.carried hx (by omega) rfl
      exact ⟨t' ++ u', .second hf' hx', ht'.append hu'⟩

/-- Three points that stand for what was passed on. -/
def passedOn : Rule Node.Argument :=
  (fun dots => .positional (Node.bare .forwardedArgs dots)) <$> tok .tBDOT3 <* .next [.tRPAREN]

/-- The other elements of an argument list. -/
def otherArgument : Rule Node.Argument :=
  match callArgumentRule with
  | .orElse _ others => others
  | other => other

theorem callArgumentRule_eq : callArgumentRule =
    .orElse (.since Version.Feature.argumentForwarding.since passedOn) otherArgument := rfl

/-- Three points are followed by a closing parenthesis, or what they bound is read. -/
theorem holds_callArgument (h : Agree tokens tokens' m) :
    callArgumentRule.CarriesAt tokens tokens' version m i .within := by
  rw [callArgumentRule_eq]
  have hle : Carry.within.le (((Expr.since Version.Feature.argumentForwarding.since passedOn).carry false).orAfter
        (otherArgument.carry false)) = true := rfl
  have hleading : some .tBDOT3 ∈ leading := by decide
  refine (holds_orBehind h hleading (not_behind tokens i) ?_ rfl).of_le hle
  intro t hfails ht hinside
  cases hfails with
  | fails hx =>
      obtain ⟨t', hx', ht'⟩ := carried_look h (fun k t hk => carried_next h hk) hinside hx ht
      exact ⟨t', .fails hx', ht'⟩
  | refuses hx hv =>
      have hpoints := carry_holds h version passedOn i (not_behind tokens i)
      obtain ⟨hstands, rfl⟩ := stands_of_look hx
      have hi := hinside hstands
      simp only [Trace.farthest_append, Trace.farthest_refusal] at ht
      obtain ⟨t', hx', ht'⟩ := hpoints.carried hx (by omega) (.inr ⟨rfl, hi⟩)
      exact ⟨_, .refuses hx' hv, ht'.append (.refl (by rw [Trace.farthest_refusal]; omega))⟩

/-! ## §3. Constants behind two colons. -/

/-- Two colons and a constant. -/
def colonsConstant : Rule Node.Suffix :=
  .constant <$> (tok .tCOLON2 *> tok .tCONSTANT) <* .notNext [.tLPAREN2]

/-- Two colons and the name of a method, perhaps with arguments. -/
def colonsMethod : Rule Node.Suffix :=
  .method <$> tok .tCOLON2 <*> .token methodNames <*> opt parenArguments

/-- What else may follow a primary expression. -/
def otherSuffix : Rule Node.Suffix :=
  .index <$> (tok .tLBRACK2 *> argumentList) <*> tok .tRBRACK <|> .block <$> braceBlock

theorem suffixRule_eq : suffixRule =
    .orElse (.method <$> .token [.tDOT, .tANDDOT] <*> .token methodNames <*> opt parenArguments)
      (.orElse (.unnamed <$> .token [.tDOT, .tANDDOT] <*> parenArguments)
        (.orElse colonsConstant (.orElse colonsMethod otherSuffix))) := rfl

/-- A constant behind two colons can be read as the name of a method. -/
theorem not_colonsMethod_fails (hcolons : Stands tokens [.tCOLON2] i)
    (hconstant : Stands tokens [.tCONSTANT] (i + 1)) :
    ¬ colonsMethod.Finds (language.derived tokens version) i none t := by
  obtain ⟨colons, hcolons, hkind⟩ := hcolons
  obtain ⟨name, hname, hkind'⟩ := hconstant
  have hmethod : name.kind ∈ methodNames := by
    rw [List.mem_singleton.mp hkind']
    decide
  have hhead : (.method <$> tok .tCOLON2 <*> .token methodNames :
      Rule (Option Node.ParenArguments → Node.Suffix)).Finds (language.derived tokens version) i
        (some (.method colons name, i + 2)) (.none ++ .none) :=
    .both (.finds (.here hcolons hkind)) (.here hname hmethod)
  intro hfound
  cases hfound with
  | first hf => cases Rules.derived_unique_expr hhead hf
  | second hf hx =>
      -- what is optional does not fail
      cases hx with
      | second _ hdone => cases hdone.1

theorem colonsConstant_stands {β : Type} {f : Node.Suffix → β} {v : β} {k : Nat}
    (hfound : (f <$> (.constant <$> (tok .tCOLON2 *> tok .tCONSTANT)) : Rule β).Finds
      (carrying tokens tokens' version m) i (some (v, k)) t) :
    Stands tokens [.tCOLON2] i ∧ Stands tokens [.tCONSTANT] (i + 1) ∧ k = i + 2 := by
  obtain ⟨_, ⟨_, hread, -⟩, -⟩ := hfound.reads
  obtain ⟨k', _, hcolons, hconstant⟩ := hread.seqRight
  obtain ⟨htok, hkind, rfl⟩ := hcolons.tok
  obtain ⟨htok', hkind', rfl⟩ := hconstant.tok
  exact ⟨⟨_, htok, List.mem_singleton.mpr hkind⟩, ⟨_, htok', List.mem_singleton.mpr hkind'⟩, rfl⟩

/-- Two colons and a constant fail before a parenthesis only if that is looked at. -/
theorem carried_colonsConstant (h : Agree tokens tokens' m)
    (hinside : Stands tokens [.tCOLON2] i → Stands tokens [.tCONSTANT] (i + 1) → i + 2 < m)
    (hfound : colonsConstant.Finds (carrying tokens tokens' version m) i none t)
    (ht : t.farthest ≤ m) :
    Carried m (colonsConstant.Finds (language.derived tokens' version) i) none t := by
  have hname := carry_holds h version
    ((fun a (_ : Unit) => a) <$> (.constant <$> (tok .tCOLON2 *> tok .tCONSTANT) :
      Rule Node.Suffix)) i (not_behind tokens i)
  cases hfound with
  | first hf =>
      obtain ⟨t', hf', ht'⟩ := hname.carried hf ht rfl
      exact ⟨t', .first hf', ht'⟩
  | second hf hx =>
      rw [Trace.farthest_append] at ht
      obtain ⟨hcolons, hconstant, rfl⟩ := colonsConstant_stands hf
      have hi := hinside hcolons hconstant
      obtain ⟨t', hf', ht'⟩ := hname.carried hf (by omega) (.inr ⟨rfl, hi⟩)
      obtain ⟨u', hx', hu'⟩ := carried_notNext h hi hx
      exact ⟨t' ++ u', .second hf' hx', ht'.append hu'⟩

/-- A constant behind two colons is followed by no parenthesis, or that is read. -/
theorem holds_suffix (h : Agree tokens tokens' m) :
    suffixRule.CarriesAt tokens tokens' version m i .within := by
  rw [suffixRule_eq]
  have hlast := (carry_holds h version colonsConstant i (not_behind tokens i)).orAfter
    (carry_holds h version (.orElse colonsMethod otherSuffix) i (not_behind tokens i)) ?_
  · have hunnamed := carry_holds h version
      (.unnamed <$> .token [.tDOT, .tANDDOT] <*> parenArguments : Rule Node.Suffix) i
        (not_behind tokens i)
    have hmethod := carry_holds h version (.method <$> .token [.tDOT, .tANDDOT] <*>
      .token methodNames <*> opt parenArguments : Rule Node.Suffix) i (not_behind tokens i)
    exact (hmethod.or (hunnamed.or hlast)).of_le rfl
  · -- where a constant is refused for what follows it, the second reading looks as far
    intro o t u hfails hfound ht hu hcovers
    refine carried_colonsConstant h (fun hcolons hconstant => ?_) hfails ht
    have := h.lt_size
    cases hfound with
    | @first s j u ha =>
        have hlooks : Extent.Holds ⟨1, 3, 0⟩ tokens.size i (some (s, j)) u :=
          (extent_of_finds (derived_of_carrying ha)).of_le rfl
        obtain ⟨-, hlook, -⟩ := hlooks
        simp only [Carry.Covers] at hcovers hlook
        omega
    | second ha _ => exact absurd (derived_of_carrying ha) (not_colonsMethod_fails hcolons hconstant)

/-! ## §4. Values of patterns. -/

/-- A range between two values of a pattern. -/
def patternRange : Rule Node :=
  (fun lhs op rhs => Node.range (some lhs) op (some rhs)) <$> patternScalar <*> .token rangePoints
    <*> patternScalar

/-- A range with a lower bound. -/
def patternRangeFrom : Rule Node :=
  (fun lhs op => Node.range (some lhs) op none) <$> patternScalar <*> .token rangePoints

/-- A range with an upper bound. -/
def patternRangeTo : Rule Node :=
  (fun op rhs => Node.range none op (some rhs)) <$> .token openPoints <*> patternScalar

theorem patternValue_eq : patternValue =
    .orElse patternRange (.orElse patternRangeFrom (.orElse patternRangeTo patternScalar)) := rfl

/-- A value fails before a name without a trace. -/
theorem scalar_fails (h : Agree tokens tokens' m)
    (hfound : patternScalar.Finds (carrying tokens tokens' version m) i none t)
    (ht : t.farthest ≤ m) : i < m ∨ (Stands tokens [.tIDENTIFIER] i ∧ t = .none) := by
  cases hfound with
  | first hf =>
      cases hf with
      | fails hf =>
          cases hf with
          | fails hnot => exact .inr ⟨Classical.not_not.mp hnot, rfl⟩
  | second hf hx =>
      rw [Trace.farthest_append] at ht
      cases hf with
      | finds hf =>
          cases hf with
          | holds => exact .inl (before_of_fails h rfl hx (by omega))

/-- Before the horizon a value fails alike. -/
theorem carried_scalar (h : Agree tokens tokens' m) (hi : i < m)
    (hfound : patternScalar.Finds (carrying tokens tokens' version m) i none t)
    (ht : t.farthest ≤ m) :
    Carried m (patternScalar.Finds (language.derived tokens' version) i) none t := by
  cases hfound with
  | first hf =>
      cases hf with
      | fails hf =>
          obtain ⟨t', hf', ht'⟩ := carried_notNext h hi hf
          exact ⟨t', .first (.fails hf'), ht'⟩
  | @second g k t u hf hx =>
      have hnext := carry_holds h version
        ((fun (_ : Unit) (n : Node) => n) <$> (.notNext [.tIDENTIFIER] : Rule Unit)) i
        (not_behind tokens i)
      have hvalue := carry_holds h version primaryNode k (not_behind tokens k)
      rw [Trace.farthest_append] at ht
      have hk := before_of_fails h rfl hx (by omega)
      obtain ⟨t', hf', ht'⟩ := hnext.carried hf (by omega) (.inr ⟨rfl, hk⟩)
      obtain ⟨u', hx', hu'⟩ := hvalue.carried hx (by omega) rfl
      exact ⟨t' ++ u', .second hf' hx', ht'.append hu'⟩

/-- Nothing can be read at the end of the tokens, and that leaves its index. -/
theorem primaryNode_fails_at_end (tokens : Array Token) (version : Version) :
    ∃ t, primaryNode.Finds (language.derived tokens version) tokens.size none t ∧
      t.farthest = tokens.size := by
  obtain ⟨o, t, hfound⟩ : ∃ o t,
      (language.derived tokens version).finds .primary tokens.size o t :=
    exists_derived .primary (Nat.le_refl _)
  cases o with
  | none =>
      obtain ⟨hlook, hend⟩ := derived_extent hfound none (by decide) (begins_none _ _)
      have := hlook (by decide)
      have := hend (Nat.le_refl _)
      refine ⟨t, .fails hfound, ?_⟩
      omega
  | some found =>
      obtain ⟨hlength, -, hend⟩ := derived_extent hfound none (by decide) (begins_none _ _)
      have := hend (Nat.le_refl _)
      simp only [Symbol.extent] at hlength
      omega

/-- On the horizon a value fails alike before a name behind the points of a range. -/
theorem carried_scalar_at_horizon (h : Agree tokens tokens' m) (hi : i + 1 = m)
    (hbehind : Behind tokens i) (hpoints : Stands tokens openPoints i)
    (hname : Stands tokens [.tIDENTIFIER] m) :
    Carried m (patternScalar.Finds (language.derived tokens' version) m) none .none := by
  by_cases hm : m < tokens'.size
  · have hname' := h.name i hi hbehind hpoints hname hm
    exact ⟨_, .first (.fails (.fails fun hnot => hnot hname')), .refl (Nat.zero_le _)⟩
  · -- no name is there, but no value either
    have hsize : tokens'.size = m := Nat.le_antisymm (Nat.not_lt.mp hm) h.le_size
    obtain ⟨t, hfails, ht⟩ := primaryNode_fails_at_end tokens' version
    rw [hsize] at hfails ht
    have hnext : ¬ Stands tokens' [.tIDENTIFIER] m := by
      rintro ⟨tok, htok, -⟩
      have := (Array.getElem?_eq_some_iff.mp htok).1
      omega
    refine ⟨Trace.none ++ t, .second (.finds (TestFinds.holds hnext)) hfails, ?_, ?_⟩
    · exact Nat.zero_le _
    · rw [Trace.farthest_append, ht, Trace.farthest_none]
      omega

/-- A value and the points of a range behind it fail alike before the horizon. -/
theorem carried_bound (h : Agree tokens tokens' m) (hi : i < m) {f : Node → Token → α}
    (hfound : (f <$> patternScalar <*> .token rangePoints : Rule α).Finds
      (carrying tokens tokens' version m) i none t) (ht : t.farthest ≤ m) :
    Carried m ((f <$> patternScalar <*> .token rangePoints : Rule α).Finds
      (language.derived tokens' version) i) none t := by
  cases hfound with
  | first hf =>
      cases hf with
      | fails hf =>
          obtain ⟨t', hf', ht'⟩ := carried_scalar h hi hf ht
          exact ⟨t', .first (.fails hf'), ht'⟩
  | @second g k t u hf hx =>
      -- the value is there and the points are not, so the failure is behind the value
      have hvalue := carry_holds h version (f <$> patternScalar : Rule (Token → α)) i
        (not_behind tokens i)
      have hpoints := carry_holds h version (.token rangePoints : Rule Token) k
        (not_behind tokens k)
      rw [Trace.farthest_append] at ht
      obtain ⟨t', hf', ht'⟩ := hvalue.carried hf (by omega)
        (.inr ⟨rfl, before_of_fails h rfl hx (by omega)⟩)
      obtain ⟨u', hx', hu'⟩ := hpoints.carried hx (by omega) rfl
      exact ⟨t' ++ u', .second hf' hx', ht'.append hu'⟩

/-- Where a bound and its points are read, the range with that bound alone ends behind them. -/
theorem rangeFrom_of_bound {f : Node → Token → α} {g : α} {k : Nat} {o : Option (Node × Nat)}
    {u : Trace}
    (hbound : (f <$> patternScalar <*> .token rangePoints : Rule α).Finds
      (language.derived tokens version) i (some (g, k)) t)
    (hfound : patternRangeFrom.Finds (language.derived tokens version) i o u) :
    ∃ n, o = some (n, k) := by
  cases hbound with
  | both hf hpoints =>
      cases hf with
      | finds hvalue =>
          have hfrom : patternRangeFrom.Finds (language.derived tokens version) i _ _ :=
            .both (.finds hvalue) hpoints
          cases Rules.derived_unique_expr hfrom hfound
          exact ⟨_, rfl⟩

/-- A range between two values fails alike, if a range with one of them does not end beyond the
horizon. -/
theorem carried_range (h : Agree tokens tokens' m) (hi : i < m) {rest : Finding Node}
    {o : Option (Node × Nat)} {u : Trace}
    (hfails : patternRange.Finds (carrying tokens tokens' version m) i none t)
    (hfound : ChoiceFinds (patternRangeFrom.Finds (carrying tokens tokens' version m) i) rest o u)
    (ht : t.farthest ≤ m) (ho : Carry.within.Covers m o) :
    Carried m (patternRange.Finds (language.derived tokens' version) i) none t := by
  cases hfails with
  | first hf =>
      obtain ⟨t', hf', ht'⟩ := carried_bound h hi hf ht
      exact ⟨t', .first hf', ht'⟩
  | @second g k t u' hf hx =>
      rw [Trace.farthest_append] at ht
      have hk : k < m := by
        rcases scalar_fails h hx (by omega) with hk | -
        · exact hk
        · -- a name stands behind the points, so the range with one bound has ended there
          cases hfound with
          | first hfrom =>
              obtain ⟨n, heq⟩ := rangeFrom_of_bound (derived_of_carrying hf)
                (derived_of_carrying hfrom)
              cases heq
              exact Carry.covers_within.mp ho
          | second hfrom _ =>
              obtain ⟨n, heq⟩ := rangeFrom_of_bound (derived_of_carrying hf)
                (derived_of_carrying hfrom)
              cases heq
      have hbound := carry_holds h version
        ((fun lhs op rhs => Node.range (some lhs) op (some rhs)) <$> patternScalar <*>
          .token rangePoints : Rule (Node → Node)) i (not_behind tokens i)
      obtain ⟨t', hf', ht'⟩ := hbound.carried hf (by omega) (.inr ⟨rfl, hk⟩)
      obtain ⟨v', hx', hv'⟩ := carried_scalar h hk hx (by omega)
      exact ⟨t' ++ v', .second hf' hx', ht'.append hv'⟩

/-- A range with an upper bound fails alike. -/
theorem carried_rangeTo (h : Agree tokens tokens' m) (hi : i < m) (hbehind : Behind tokens i)
    (hfound : patternRangeTo.Finds (carrying tokens tokens' version m) i none t)
    (ht : t.farthest ≤ m) :
    Carried m (patternRangeTo.Finds (language.derived tokens' version) i) none t := by
  have hpoints := carry_holds h version ((fun op rhs => Node.range none op (some rhs)) <$>
    .token openPoints : Rule (Node → Node)) i (not_behind tokens i)
  cases hfound with
  | first hf =>
      obtain ⟨t', hf', ht'⟩ := hpoints.carried hf ht rfl
      exact ⟨t', .first hf', ht'⟩
  | @second g k t u hf hx =>
      rw [Trace.farthest_append] at ht
      obtain ⟨op, ⟨htok, hkind, rfl⟩, -⟩ := hf.reads
      -- the points are there, so it is the value behind them that fails
      have hx' : Carried m (patternScalar.Finds (language.derived tokens' version) (i + 1))
          none u := by
        rcases scalar_fails h hx (by omega) with hk | ⟨hname, rfl⟩
        · exact carried_scalar h hk hx (by omega)
        · by_cases hk : i + 1 < m
          · exact carried_scalar h hk hx (by omega)
          · have hm : i + 1 = m := by omega
            rw [hm] at hname ⊢
            exact carried_scalar_at_horizon h hm hbehind ⟨op, htok, hkind⟩ hname
      obtain ⟨t', hf', ht'⟩ := hpoints.carried hf (by omega) (.inl ⟨rfl, hi⟩)
      obtain ⟨u', hx', hu'⟩ := hx'
      exact ⟨t' ++ u', .second hf' hx', ht'.append hu'⟩

/-- The value of a pattern looks at its first token: for points, or for what is no name. -/
theorem before_patternValue (h : Agree tokens tokens' m) {o : Option (Node × Nat)}
    (hfound : patternValue.Finds (carrying tokens tokens' version m) i o t)
    (ht : t.farthest ≤ m) (ho : Carry.within.Covers m o) : i < m := by
  rw [patternValue_eq] at hfound
  cases o with
  | some found =>
      obtain ⟨hlength, -, -⟩ := extent_of_finds (derived_of_carrying hfound)
      rw [Carry.covers_within] at ho
      omega
  | none =>
      -- all four readings have failed, and the last one is that of a value alone
      cases hfound with
      | second _ hrest =>
          cases hrest with
          | second _ hrest =>
              cases hrest with
              | second hto hvalue =>
                  simp only [Trace.farthest_append] at ht
                  rcases scalar_fails h hvalue (by omega) with hi | ⟨⟨name, hname, hkind⟩, -⟩
                  · exact hi
                  · cases hto with
                    | first hf => exact before_of_fails h rfl hf (by omega)
                    | second hf _ =>
                        obtain ⟨op, ⟨htok, hmem, -⟩, -⟩ := hf.reads
                        cases hname.symm.trans htok
                        rw [List.mem_singleton.mp hkind] at hmem
                        exact absurd hmem (by decide)

/-- The value of a pattern carries over what ends before the horizon. -/
theorem holds_patternValue (h : Agree tokens tokens' m) (hbehind : Behind tokens i) :
    patternValue.CarriesAt tokens tokens' version m i .within := by
  constructor
  intro o t hfound ht ho
  have hi := before_patternValue h hfound ht ho
  have hinner : ∀ {e : Rule Node}, (e.carry false).inner = true →
      (∀ t, e.Finds (carrying tokens tokens' version m) i none t → t.farthest ≤ m →
        Carried m (e.Finds (language.derived tokens' version) i) none t) →
      e.CarriesAt tokens tokens' version m i .within := fun {e} he hfailure =>
    (carry_holds h version e i (not_behind tokens i)).withFailure he hfailure
  have hscalar := hinner (e := patternScalar) rfl fun t => carried_scalar h hi
  have hto := hinner (e := patternRangeTo) rfl fun t => carried_rangeTo h hi hbehind
  have hfrom := hinner (e := patternRangeFrom) rfl fun t => carried_bound h hi
  have hrest := hfrom.within_or (hto.within_or hscalar)
  have hrange := carry_holds h version patternRange i (not_behind tokens i)
  refine ((hrange.orAfter hrest ?_).of_le (rfl : Carry.within.le _ = true)).carried hfound ht ho
  intro o t u hfails hfound ht _ ho
  exact carried_range h hi hfails hfound ht ho

/-! ## §5. Patterns. -/

theorem holds_patternPrimary (h : Agree tokens tokens' m) (hbehind : Behind tokens i) :
    patternPrimary.CarriesAt tokens tokens' version m i .within := by
  have hcarry : ∀ e : Rule Node, Carry.within.le (e.carry true) = true →
      e.CarriesAt tokens tokens' version m i .within := fun e he =>
    (carry_holds h version e i fun _ => hbehind).of_le he
  exact .within_or (hcarry _ rfl) (.within_or (hcarry _ rfl) (.within_or (hcarry _ rfl)
    (.within_or (hcarry _ rfl) (.within_or (hcarry _ rfl)
      (.within_or (holds_patternValue h hbehind) (hcarry _ rfl))))))

/-- Each bar, and what stands behind the last pattern, looks at the token where a pattern has
ended. -/
theorem holds_patternAlternatives (h : Agree tokens tokens' m) (hbehind : Behind tokens i) :
    patternAlternatives.CarriesAt tokens tokens' version m i .all := by
  have hprimary : ∀ k, i ≤ k → patternPrimary.CarriesAt tokens tokens' version m k .within :=
    fun k hk => holds_patternPrimary h (hbehind.mono hk)
  have hother : ∀ k, i ≤ k →
      (tok .tPIPE *> patternPrimary : Rule Node).CarriesAt tokens tokens' version m k .within := by
    intro k hk
    have hbar := carry_holds h version ((fun _ n => n) <$> tok .tPIPE : Rule (Node → Node)) k
      (not_behind tokens k)
    exact (carriesAt_seq h hbar fun l hl => hprimary l (by omega)).of_le rfl
  have hothers := fun (k : Nat) (hk : i ≤ k) =>
    carriesAt_star h fun l hl => hother l (Nat.le_trans hk hl)
  exact (carriesAt_seq h (hprimary i (Nat.le_refl i)).changed hothers).of_le rfl

theorem holds_pattern (h : Agree tokens tokens' m) (hbehind : Behind tokens i) :
    patternRule.CarriesAt tokens tokens' version m i .all := by
  have hpattern : patternAlternatives.CarriesAt tokens tokens' version m i .all :=
    holds_patternAlternatives h hbehind
  have harrow := fun k (_ : i ≤ k) =>
    carry_holds h version (tok .tASSOC : Rule Token) k (not_behind tokens k)
  have hname := fun k (_ : i ≤ k) =>
    carry_holds h version (tok .tIDENTIFIER : Rule Token) k (not_behind tokens k)
  have hleft : ((fun f (_ : Token) => f) <$> (Node.matchAs <$> patternAlternatives) :
      Rule (Token → Token → Node)).CarriesAt tokens tokens' version m i .all :=
    hpattern.changed.changed
  exact ((carriesAt_seq h (carriesAt_seq h hleft harrow) hname).or hpattern).of_le rfl

/-! ## §6. All symbols. -/

/-- **Every symbol carries over what it finds.** -/
theorem language_carries (h : Agree tokens tokens' m) (version : Version) {s : Symbol} {i : Nat}
    {o : Option (s.Result × Nat)} {t : Trace}
    (hfound : (language.derived tokens version).finds s i o t) :
    s.Carries tokens tokens' version m i o t := by
  refine Rules.derived_induction (P := Symbol.Carries tokens tokens' version m) ?_ hfound
  intro s i o t hfound behind hbehind ht hcovers
  -- most rules are settled by what is read off them; those with a lookahead have a lemma each
  have hrule : (rule s).CarriesAt tokens tokens' version m i (s.carry behind) := by
    cases s with
    | argument => exact (holds_argument h).of_le rfl
    | callArgument => exact (holds_callArgument h).of_le rfl
    | suffix => exact (holds_suffix h).of_le rfl
    | operation level =>
        exact (carry_holds h version _ i (not_behind tokens i)).of_le <|
          forall_operationRule (P := fun e => Carry.all.le (e.carry false) = true) (by decide) level
    | expression level =>
        exact (carry_holds h version _ i (not_behind tokens i)).of_le <|
          forall_expressionRule (P := fun e => Carry.all.le (e.carry false) = true) (by decide)
            level
    | param ofBlock =>
        refine (carry_holds h version _ i (not_behind tokens i)).of_le ?_
        cases ofBlock <;> rfl
    | pattern =>
        cases behind with
        | false => exact (carry_holds h version patternRule i (not_behind tokens i)).of_le rfl
        | true => exact (holds_pattern h (hbehind rfl)).of_le rfl
    | topPattern =>
        refine (carry_holds h version topPatternRule i hbehind).of_le ?_
        cases behind <;> rfl
    | keyPattern =>
        refine (carry_holds h version keyPatternRule i hbehind).of_le ?_
        cases behind <;> rfl
    | _ => exact (carry_holds h version _ i (not_behind tokens i)).of_le rfl
  obtain ⟨t', hfound', ht'⟩ := hrule.carried hfound ht hcovers
  exact ⟨t', Rules.upholds_derived language tokens' version s i o t' hfound', ht'⟩

/-! ## §7. Programs. -/

/-- Behind statements a terminator is looked for. -/
theorem statements_end (h : Agree tokens tokens' m) {ns : List Node} {j : Nat}
    (hfound : (language.derived tokens version).finds .statements i (some (ns, j)) t)
    (ht : t.farthest ≤ m) : j < m := by
  cases Rules.derived_iff.mp hfound with
  | both _ hterms =>
      obtain ⟨as, k, heq, hstar⟩ := hterms
      cases heq
      obtain ⟨u, hterm, hu⟩ := hstar.stops
      rw [Trace.farthest_append] at ht
      have hlook : min (j + 1) tokens.size ≤ u.farthest := (extent_of_finds hterm).1 (by decide)
      have := h.lt_size
      omega

/-- A program that fails at the horizon fails alike. -/
theorem carried_program (h : Agree tokens tokens' m)
    (hfound : program.Finds (language.derived tokens version) 0 none t) (ht : t.farthest ≤ m) :
    Carried m (program.Finds (language.derived tokens' version) 0) none t := by
  cases hfound with
  | first hblock =>
      -- the statements themselves fail
      cases hblock with
      | fails hblock =>
          cases hblock with
          | fails hstatements =>
              obtain ⟨t', hfound', ht'⟩ := language_carries h version hstatements false
                (not_behind tokens 0) ht rfl
              exact ⟨t', .first (.fails (.fails hfound')), ht'⟩
  | second hblock hend =>
      cases hblock with
      | finds hblock =>
          cases hblock with
          | finds hstatements =>
              cases hend with
              | fails _ =>
                  rw [Trace.farthest_append] at ht
                  -- the statements end before the end of the tokens, and so they do in the other
                  -- text
                  have hj := statements_end h hstatements (by omega)
                  obtain ⟨t', hfound', ht'⟩ := language_carries h version hstatements false
                    (not_behind tokens 0) (by omega) (.inr ⟨rfl, hj⟩)
                  have := h.le_size
                  have hmore : ¬ tokens'.size ≤ _ := Nat.not_le.mpr (Nat.lt_of_lt_of_le hj this)
                  exact ⟨t' ++ Trace.none, .second (.finds (.finds hfound')) (TestFinds.fails hmore),
                    ht'.append (.refl (Nat.zero_le _))⟩

end Rules

end RubySyntax.Grammar

namespace RubySyntax.Program

open Token Grammar

/-- Where the points of a range without a lower bound stand right before an index, and a name at
it, and a pattern may be meant, other tokens have a name there too, or end there. -/
def NameStays (tokens tokens' : List Token) (m : Nat) : Prop :=
  ∀ k mark points name name', k + 1 = m →
    mark ∈ tokens.take k → mark.kind ∈ patternMarks →
    tokens[k]? = some points → points.kind ∈ openPoints →
    tokens[m]? = some name → name.kind = .tIDENTIFIER →
    tokens'[m]? = some name' → name'.kind = .tIDENTIFIER

/-- **The fault of a program is determined by the tokens before it.**  Where tokens stop making
sense at one of them, all tokens that begin with those before it stop making sense at the same
index, be it at a token or at the end; except behind the points of a range that might be a
pattern, where it has to be a name. -/
theorem fault_determined {version : Version} {tokens tokens' : List Token} {m : Nat}
    (h : readProgram tokens version = .error m) (hm : m < tokens.length) (hm' : m ≤ tokens'.length)
    (hsame : tokens'.take m = tokens.take m) (hname : NameStays tokens tokens' m) :
    readProgram tokens' version = .error m ∧ ∀ text,
      (∀ t, tokens'[m]? = some t → treeOf tokens' version text = .error (.token t)) ∧
      (tokens'.length = m → treeOf tokens' version text = .error (.finish (endOf text))) := by
  have hagree : Agree tokens.toArray tokens'.toArray m := by
    refine ⟨by simpa using hm, by simpa using hm', fun k hk => ?_, ?_⟩
    · have := congrArg (·[k]?) hsame
      simpa [List.getElem?_take, hk] using this
    · -- at the place itself the texts may differ, but behind open points a name stays a name
      rintro k hk ⟨l, hl, mark, hmark, hmarks⟩ ⟨points, hpoints, hopen⟩ ⟨name, hat, hkind⟩ hsize
      have hsize' : m < tokens'.length := by simpa using hsize
      rw [List.getElem?_toArray] at hmark hpoints hat
      have hbefore : mark ∈ tokens.take k := List.mem_of_getElem? (i := l) <| by
        rw [List.getElem?_take, if_pos hl, hmark]
      refine ⟨tokens'[m], by simp [hsize'], ?_⟩
      exact List.mem_singleton.mpr <| hname k mark points name _ hk hbefore hmarks hpoints hopen hat
        (List.mem_singleton.mp hkind) (List.getElem?_eq_getElem hsize')
  have hread : readProgram tokens' version = .error m := by
    obtain ⟨t, hfound, ht⟩ := finds_of_readProgram_error h
    obtain ⟨t', hfound', hle, hle'⟩ := carried_program hagree hfound (Nat.le_of_eq ht)
    rw [readProgram_eq_of_finds hfound', Finding.result]
    exact congrArg Except.error (by omega)
  refine ⟨hread, fun text => ?_⟩
  have hfault : treeOf tokens' version text = .error (faultAt tokens' text m) := by
    unfold treeOf
    rw [hread]
  rw [hfault]
  refine ⟨fun t ht => ?_, fun hlength => ?_⟩
  · rw [faultAt, ht]
  · rw [faultAt, List.getElem?_eq_none_iff.mpr (by omega)]

/-- The tokens of `x in ..a`. -/
def nameBound : List Token :=
  [⟨.tIDENTIFIER, "x", ⟨0, 1, 1, 0⟩⟩, ⟨.kIN, "in", ⟨2, 4, 1, 2⟩⟩, ⟨.tBDOT2, "..", ⟨5, 7, 1, 5⟩⟩,
    ⟨.tIDENTIFIER, "a", ⟨7, 8, 1, 7⟩⟩]

/-- The tokens of `x in ..b`. -/
def otherNameBound : List Token :=
  [⟨.tIDENTIFIER, "x", ⟨0, 1, 1, 0⟩⟩, ⟨.kIN, "in", ⟨2, 4, 1, 2⟩⟩, ⟨.tBDOT2, "..", ⟨5, 7, 1, 5⟩⟩,
    ⟨.tIDENTIFIER, "b", ⟨7, 8, 1, 7⟩⟩]

/-- The tokens of `x in ..1`. -/
def numberBound : List Token :=
  [⟨.tIDENTIFIER, "x", ⟨0, 1, 1, 0⟩⟩, ⟨.kIN, "in", ⟨2, 4, 1, 2⟩⟩, ⟨.tBDOT2, "..", ⟨5, 7, 1, 5⟩⟩,
    ⟨.tINTEGER, "1", ⟨7, 8, 1, 7⟩⟩]

/-- The index at which tokens stop making sense, if they do. -/
def faultIndex? (tokens : List Token) (version : Version) : Option Nat :=
  match readProgram tokens version with
  | .ok _ => none
  | .error m => some m

theorem readProgram_eq_error_iff {tokens : List Token} {version : Version} {m : Nat} :
    readProgram tokens version = .error m ↔ faultIndex? tokens version = some m := by
  unfold faultIndex?
  split
  next root h => simp [h]
  next m' h => simp [h]

theorem nameBound_fault : readProgram nameBound ⟨3, 4⟩ = .error 3 :=
  readProgram_eq_error_iff.mpr (by decide +kernel)

/-- Another name behind the points is reported as well. -/
theorem fault_determined_at_name : readProgram otherNameBound ⟨3, 4⟩ = .error 3 ∧ ∀ text,
    treeOf otherNameBound ⟨3, 4⟩ text =
      .error (.token ⟨.tIDENTIFIER, "b", ⟨7, 8, 1, 7⟩⟩) := by
  have hname : NameStays nameBound otherNameBound 3 := by
    intro k mark points name name' _ _ _ _ _ _ _ hname'
    cases hname'
    rfl
  have hsame : otherNameBound.take 3 = nameBound.take 3 := rfl
  obtain ⟨hread, hreport⟩ := fault_determined nameBound_fault (by decide) (by decide) hsame hname
  exact ⟨hread, fun text => (hreport text).1 _ rfl⟩

/-- A number behind the points makes sense, though the same tokens stand before it. -/
theorem not_fault_determined_by_number : readProgram nameBound ⟨3, 4⟩ = .error 3 ∧
    3 < nameBound.length ∧ 3 ≤ numberBound.length ∧
    numberBound.take 3 = nameBound.take 3 ∧ ∀ m, readProgram numberBound ⟨3, 4⟩ ≠ .error m := by
  refine ⟨nameBound_fault, by decide, by decide, rfl, fun m hm => ?_⟩
  rw [readProgram_eq_error_iff] at hm
  have hnone : faultIndex? numberBound ⟨3, 4⟩ = none := by decide +kernel
  cases hm.symm.trans hnone

end RubySyntax.Program
