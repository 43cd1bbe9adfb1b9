/-
  RubySyntax.Proofs.Tree.Loop
  ───────────────────────────
  **LOOPS WITH AND WITHOUT `do`.**

  `hasDo` looks for the word `do` in the text between the header and the body of a loop.  The tokens
  know better whether it is there: the grammar reads a `do` of a loop, or newlines and semicolons,
  between the two.

  A loop is written as a modifier, behind its body, or begins with its keyword.  In the latter case
  the header reaches to the end of the tokens that it was read from, but for a comma at the end of a
  pattern, and the body begins with its first statement.  So between the two stand this comma, the
  `do`, newlines and semicolons, and, if there is no body, the `end`.  In a modified statement there
  is nothing between the body and the header that follows.

  So what looks like the word `do` in the text is a token.  But a `do` is missed if anything but
  blanks stands before it: the backslash of a line that goes on, a comment, the comma of a pattern.

  Main results:
    • `Arranged.resolve` — resolving names keeps the places of headers and bodies,
    • `language_arranging` — how the grammar arranges loops,
    • `Program.hasDo_iff` — which loops have a `do`.
-/
import RubySyntax.Proofs.Position
import RubySyntax.Proofs.Token.Tile
import RubySyntax.Proofs.Tree.Fill.Rules
import RubySyntax.Proofs.Tree.Kept.Rules
import RubySyntax.Proofs.Tree.Place.Program

namespace RubySyntax

open Token Text

/-! ## §1. Headers and bodies. -/

namespace Node

/-- Where the header of a loop stands, after which `do` may come. -/
def headerSpan? (n : Node) : Option Span := (n.headerSlot?.bind n.childNode?).map span

/-- Where the body of a loop stands, if it has one. -/
def bodySpan? (n : Node) : Option Span := (n.lastChild?.bind Child.node?).map span

/-- Where the gap between the header and the body of a loop begins and ends: at the end of the
header, and where the body begins or, without a body, at the end of the loop. -/
def gap? (n : Node) : Option (Nat × Nat) :=
  n.headerSpan?.map fun header => (header.stop, (n.bodySpan?.map (·.start)).getD n.span.stop)

/-- A token stands between the header and the body of a loop. -/
def SeparatedBy (n : Node) (t : Token) : Prop :=
  ∃ a b, n.gap? = some (a, b) ∧ a ≤ t.span.start ∧ t.span.stop ≤ b

/-- Between the header of a loop and a token stand only blanks. -/
def BlankUpTo (n : Node) (text : String) (t : Token) : Prop :=
  ∀ a b, n.gap? = some (a, b) → (slice text.toList a t.span.start).all isBlank = true

section Forms

variable (tokens : List Token) (n : Node)

/-- A loop that begins with its keyword: then come the header and, if there is one, the body. -/
def IsKeywordForm : Prop :=
  ∃ header, n.headerSpan? = some header ∧
    (∃ kw ∈ tokens, kw.kind ∈ [Token.Kind.kWHILE, .kUNTIL, .kFOR] ∧
      kw.span.start = n.span.start ∧ kw.span.stop ≤ header.start) ∧
    ∀ body, n.bodySpan? = some body → header.stop ≤ body.start

/-- A loop that is written as a modifier: first the body, then the keyword and the header. -/
def IsModifier : Prop :=
  ∃ header body, n.headerSpan? = some header ∧ n.bodySpan? = some body ∧
    ∃ kw ∈ tokens, kw.kind ∈ [Token.Kind.kWHILE_MOD, .kUNTIL_MOD] ∧
      body.stop ≤ kw.span.start ∧ kw.span.stop ≤ header.start

/-- Between the header and the body of a loop stand only quiet tokens and `do`. -/
def QuietGap : Prop :=
  ∀ a b, n.gap? = some (a, b) → ∀ t ∈ tokens, a ≤ t.span.start → t.span.stop ≤ b →
    t.span.start < t.span.stop → t.kind ∈ Lexer.quietKinds ∨ t.kind = .kDO_COND

/-- A loop has one of three forms, and a quiet gap. -/
structure Arranged : Prop where
  form : n.isLoop = true → n.isPostCondition = true ∨ n.IsModifier tokens ∨ n.IsKeywordForm tokens
  quiet : n.QuietGap tokens

end Forms

/-! ## §2. The text in the gap. -/

/-- A text that would end before it begins is empty. -/
theorem slice_eq_nil {cs : List Char} {a b : Nat} (h : b ≤ a) : slice cs a b = [] := by
  unfold slice slice?
  split
  next hle =>
    have hnone : b - a = 0 := by omega
    cases dropBytes? cs a with
    | none => rfl
    | some rest =>
        rw [hnone, Option.bind_some]
        cases rest <;> rfl
  next => rfl

/-- **The text that is looked at is the one of the gap.** -/
theorem hasDo_eq (n : Node) (text : String) :
    n.hasDo text = n.gap?.any fun gap => beginsWithDo (slice text.toList gap.1 gap.2) := by
  unfold hasDo gap? headerSpan? bodySpan?
  cases n.headerSlot?.bind n.childNode? with
  | none => rfl
  | some header =>
      cases n.lastChild?.bind Child.node? with
      | none => rfl
      | some body =>
          show (decide (header.span.stop ≤ body.span.start) && _) =
            beginsWithDo (slice text.toList header.span.stop body.span.start)
          by_cases hle : header.span.stop ≤ body.span.start
          · rw [decide_eq_true hle, Bool.true_and]
          · -- the body begins before the header ends
            rw [decide_eq_false hle, Bool.false_and, slice_eq_nil (by omega)]
            rfl

theorem isLoop_of_headerSlot? {n : Node} {i : Nat} (h : n.headerSlot? = some i) :
    n.isLoop = true := by
  unfold headerSlot? at h
  unfold isLoop loopKeyword?
  split at h
  next hkind =>
    rw [hkind]
    rfl
  next hkind =>
    rw [hkind]
    rfl
  next hkind =>
    rw [hkind]
    rfl
  next => cases h

theorem gap?_of_not_isLoop {n : Node} (h : n.isLoop = false) : n.gap? = none := by
  cases hslot : n.headerSlot? with
  | none =>
      rw [gap?, headerSpan?, hslot]
      rfl
  | some i =>
      rw [isLoop_of_headerSlot? hslot] at h
      cases h

theorem arranged_of_not_isLoop (tokens : List Token) {n : Node} (hn : n.isLoop = false) :
    Arranged tokens n := by
  refine ⟨fun hloop => ?_, fun a b hgap => ?_⟩
  · rw [hn] at hloop
    cases hloop
  · rw [gap?_of_not_isLoop hn] at hgap
    cases hgap

theorem arranged_aboutWatched (tokens : List Token) : AboutWatched (Arranged tokens) :=
  fun _ hn => arranged_of_not_isLoop tokens (isLoop_eq_false_of_not_watched hn)

/-! ## §3. Resolving names. -/

theorem SlotsResolve.span_getElem? {before after : List Child} (h : SlotsResolve before after)
    (i : Nat) : (after[i]?.bind Child.node?).map span = (before[i]?.bind Child.node?).map span := by
  induction h generalizing i with
  | nil => rfl
  | cons hc _ ih =>
      cases i with
      | zero =>
          cases hc with
          | node names n => simp [Child.node?]
          | other c h => rfl
      | succ i => exact ih i

theorem SlotsResolve.span_getLast? {before after : List Child} (h : SlotsResolve before after) :
    (after.getLast?.bind Child.node?).map span = (before.getLast?.bind Child.node?).map span := by
  rw [List.getLast?_eq_getElem?, List.getLast?_eq_getElem?, h.length_eq]
  exact h.span_getElem? _

theorem headerSpan?_of_slotsResolve (kind : Kind) {before after : List Child} (s : Span)
    (h : SlotsResolve before after) :
    (Node.mk kind after s).headerSpan? = (Node.mk kind before s).headerSpan? := by
  have hslot : (Node.mk kind after s).headerSlot? = (Node.mk kind before s).headerSlot? := rfl
  unfold headerSpan?
  rw [hslot]
  cases (Node.mk kind before s).headerSlot? with
  | none => rfl
  | some i => exact h.span_getElem? i

/-- **Resolving names keeps the places of headers and bodies.** -/
theorem Arranged.resolve {tokens : List Token} {n : Node} (h : Everywhere (Arranged tokens) n) :
    Everywhere (Arranged tokens) n.resolve := by
  refine Everywhere.resolveIn ?_ ?_ h []
  · intro kind before after s hslots harranged
    have hheader := headerSpan?_of_slotsResolve kind s hslots
    have hbody : (Node.mk kind after s).bodySpan? = (Node.mk kind before s).bodySpan? :=
      hslots.span_getLast?
    obtain ⟨hform, hquiet⟩ := harranged
    refine ⟨?_, ?_⟩
    · rw [IsModifier, IsKeywordForm, hheader, hbody]
      exact hform
    · rw [QuietGap, gap?, hheader, hbody]
      exact hquiet
  · exact fun _ _ _ => arranged_of_not_isLoop tokens rfl

/-! ## §4. Loops. -/

section Loops

variable {tokens : List Token} {kw closing : Token} {body : Option Node}

theorem headerSpan?_conditionLoop {cond : Node} :
    (conditionLoop kw cond body closing).headerSpan? = some cond.span := by
  rw [← span_condition cond]
  unfold conditionLoop
  dsimp only
  split
  · rfl
  · rfl

theorem bodySpan?_conditionLoop {cond : Node} :
    (conditionLoop kw cond body closing).bodySpan? = body.map span := by
  cases body <;> rfl

theorem bodySpan?_forLoop {var elements : Node} :
    (forLoop kw var elements body closing).bodySpan? = body.map span := by
  cases body <;> rfl

/-- The body of a modified loop begins before the header ends, so that there is nothing between. -/
theorem IsModifier.le {n : Node} {a b : Nat} (h : n.IsModifier tokens) (hgap : n.gap? = some (a, b))
    (hproper : ∀ t ∈ tokens, t.span.start ≤ t.span.stop)
    (hheader : ∀ s, n.headerSpan? = some s → s.start ≤ s.stop)
    (hbody : ∀ s, n.bodySpan? = some s → s.start ≤ s.stop) : b ≤ a := by
  obtain ⟨header, body, hheader?, hbody?, kw, hkw, -, hbefore, hafter⟩ := h
  rw [gap?, hheader?, hbody?] at hgap
  cases hgap
  have hheader := hheader header hheader?
  have hbody := hbody body hbody?
  have hkw := hproper kw hkw
  show body.start ≤ header.stop
  omega

/-- No token has its place in a gap that would end before it begins. -/
theorem quietGap_of_le {n : Node} (h : ∀ a b, n.gap? = some (a, b) → b ≤ a) :
    n.QuietGap tokens := by
  intro a b hgap t _ ha hb hwide
  have hle := h a b hgap
  omega

/-- A loop that is written as a modifier, unless it looks at its condition after its body. -/
theorem modified_arranged {body value : Node} (hproper : ∀ t ∈ tokens, t.span.start ≤ t.span.stop)
    (hkw : kw ∈ tokens) (hbody : body.span.start ≤ body.span.stop)
    (hvalue : value.span.start ≤ value.span.stop) (hbefore : body.span.stop ≤ kw.span.start)
    (hafter : kw.span.stop ≤ value.span.start) : Arranged tokens (modified body kw value) := by
  have hplain : ∀ kind, kind = .whileLoop ∨ kind = .untilLoop →
      kw.kind ∈ [Token.Kind.kWHILE_MOD, .kUNTIL_MOD] → Arranged tokens
        (.mk kind [.node (condition value), .node body] (body.span.join value.span)) := by
    intro kind hkind hmod
    have hheader : headerSpan? (.mk kind [.node (condition value), .node body]
        (body.span.join value.span)) = some value.span := by
      rw [← span_condition value]
      rcases hkind with rfl | rfl <;> rfl
    have hmodifier : IsModifier tokens (.mk kind [.node (condition value), .node body]
        (body.span.join value.span)) :=
      ⟨value.span, body.span, hheader, rfl, kw, hkw, hmod, hbefore, hafter⟩
    refine ⟨fun _ => .inr (.inl hmodifier), quietGap_of_le fun a b hgap => ?_⟩
    refine hmodifier.le hgap hproper (fun s hs => ?_) fun s hs => ?_
    · cases hheader.symm.trans hs
      exact hvalue
    · cases hs
      exact hbody
  have hpost : ∀ kind, kind = .whilePost ∨ kind = .untilPost → Arranged tokens
      (.mk kind [.node (condition value), .node body] (body.span.join value.span)) := by
    rintro kind (rfl | rfl)
    · exact ⟨fun _ => .inl rfl, fun a b hgap => nomatch hgap⟩
    · exact ⟨fun _ => .inl rfl, fun a b hgap => nomatch hgap⟩
  -- a loop whose body is between `begin` and `end` tests its condition after it
  unfold modified
  dsimp only
  split
  next => exact arranged_of_not_isLoop tokens rfl
  next => exact arranged_of_not_isLoop tokens rfl
  next hmod =>
    split
    · exact hpost _ (.inl rfl)
    · exact hplain _ (.inl rfl) (by simp [hmod])
  next hmod =>
    split
    · exact hpost _ (.inr rfl)
    · exact hplain _ (.inr rfl) (by simp [hmod])
  next => exact arranged_of_not_isLoop tokens rfl

end Loops

end Node

/-! ## §5. What the grammar lets stand in a gap. -/

namespace Grammar

open Grammar.Expr Node

variable {ts : OrderedTokens} {version : Version} {i j k k' : Nat}

theorem quiet_of_terminator {t : Token} (h : IsTerminator t) :
    t.kind ∈ Lexer.quietKinds ∨ t.kind = .kDO_COND := by
  rcases h with hkind | hkind
  · rw [hkind]
    exact .inl (by decide)
  · rw [hkind]
    exact .inl (by decide)

/-- Before the body of a loop stand a `do`, or newlines and semicolons. -/
theorem doMark_kinds {u : Unit} (h : doMark.Reads (filling ts version) i u j) {m : Nat} {t : Token}
    (hi : i ≤ m) (hj : m < j) (ht : ts.list[m]? = some t) :
    t.kind ∈ Lexer.quietKinds ∨ t.kind = .kDO_COND := by
  rcases h with ⟨mark, hmark, -⟩ | ⟨marks, hmarks, -⟩
  · obtain ⟨hat, hkind, rfl⟩ := getElem?_of_token hmark
    obtain rfl : m = i := by omega
    cases hat.symm.trans ht
    exact .inr (List.mem_singleton.mp hkind)
  · obtain ⟨first, rest, l, -, hfirst, hrest⟩ := hmarks.plus
    exact quiet_of_terminator (terms_idle (.cons hfirst hrest) m t hi hj ht)

/-- What stands behind a header and before the body, or before the end of a loop without one. -/
theorem quiet_of_reads {header : Span} {body : Option Node} {closing : Token} {u : Unit}
    (hheader : ts.Ends i header) (hmark : doMark.Reads (filling ts version) i u j)
    (hbody : block.Reads (filling ts version) j body k)
    (hclosing : (tok .kEND : Rule Token).Reads (filling ts version) k closing k')
    {t : Token} (ht : t ∈ ts.list) (hstart : header.stop ≤ t.span.start)
    (hstop : t.span.stop ≤ (body.map (·.span.start)).getD closing.span.stop)
    (hwide : t.span.start < t.span.stop) : t.kind ∈ Lexer.quietKinds ∨ t.kind = .kDO_COND := by
  obtain ⟨m, ht⟩ := List.getElem?_of_mem ht
  rcases Nat.lt_or_ge m i with hi | hi
  · -- in the header: the comma at its end
    rcases hheader m t hi ht with hkind | hle
    · rw [hkind]
      exact .inl (by decide)
    · omega
  rcases Nat.lt_or_ge m j with hj | hj
  · exact doMark_kinds hmark hi hj ht
  obtain ⟨ns, ⟨l, hidle, hfirst, hnil⟩, rfl⟩ := hbody
  rcases Nat.lt_or_ge m l with hl | hl
  · -- between the separator and the first statement
    exact quiet_of_terminator (hidle m t hj hl ht)
  cases ns with
  | nil =>
      -- there is no statement, and the loop ends with the next token
      obtain rfl := hnil rfl
      obtain ⟨hat, hkind, -⟩ := getElem?_of_token hclosing
      have hle : t.span.stop ≤ closing.span.stop := hstop
      rcases Nat.lt_or_eq_of_le hl with hl | rfl
      · have hordered := OrderedTokens.stop_le_stop hl hat ht
        omega
      · cases hat.symm.trans ht
        rw [List.mem_singleton.mp hkind]
        exact .inl (by decide)
  | cons n ns =>
      -- the body begins with its first statement, and no token before it is left
      obtain ⟨b, hb⟩ : ∃ b, Node.ofStatements? (n :: ns) = some b := by
        cases ns <;> exact ⟨_, rfl⟩
      have hcontains := Node.ofStatements?_contains b hb n List.mem_cons_self
      have hbegins := ((hfirst n rfl).of_contains hcontains).start_le hl ht
      rw [hb] at hstop
      have hle : t.span.stop ≤ b.span.start := hstop
      omega

/-! ## §6. The rules that make loops. -/

/-- Readings in which every symbol fills the place where it was read and stands there, and all loops
are arranged. -/
def arranging (ts : OrderedTokens) (version : Version) : Context Symbol Symbol.Result :=
  ⟨ts.list.toArray, version, fun s i v j => s.Fills ts i j v ∧
    s.Stands ts.list (ts.reached i) (ts.reached j) v ∧ s.AllNodes (Arranged ts.list) v⟩

section Projections

variable {α : Type} {e : Rule α} {v : α} (h : e.Reads (arranging ts version) i v j)
include h

theorem filling_of_arranging : e.Reads (filling ts version) i v j := by
  refine Reads.mono ?_ ?_ (fun s i v j hgives => ?_) h
  · rfl
  · rfl
  · exact hgives.1

theorem standing_of_arranging : e.Reads (standing ts version) i v j := by
  refine Reads.mono ?_ ?_ (fun s i v j hgives => ?_) h
  · rfl
  · rfl
  · exact hgives.2.1

/-- No rule leads back. -/
theorem le_of_arranging : ts.reached i ≤ ts.reached j :=
  (standing_of_arranging h).forward standing_forward

end Projections

theorem token_of_arranging {kinds : List Token.Kind} {t : Token}
    (h : (Expr.token kinds).Reads (arranging ts version) i t j) :
    t ∈ ts.list ∧ t.kind ∈ kinds ∧ t.span.Stands ts.list (ts.reached i) (ts.reached j) :=
  ⟨token_mem (standing_of_arranging h), h.2.1, token_stands (standing_of_arranging h)⟩

theorem retaining_arranging : Retaining (arranging ts version) (Arranged ts.list) :=
  ⟨arranged_aboutWatched ts.list, fun _ _ _ _ h => h.2.2⟩

/-- **A loop that begins with its keyword is arranged.** -/
theorem arranged_of_reads {n header : Node} {body : Option Node} {kw closing : Token} {u : Unit}
    {kinds : List Token.Kind} {i' j' l : Nat} (hspan : n.span = kw.span.join closing.span)
    (hheaderSpan : n.headerSpan? = some header.span) (hbodySpan : n.bodySpan? = body.map Node.span)
    (hkinds : ∀ kind ∈ kinds, kind ∈ [Token.Kind.kWHILE, .kUNTIL, .kFOR])
    (hkw : (Expr.token kinds).Reads (arranging ts version) i' kw j')
    (hle : ts.reached j' ≤ ts.reached i)
    (hheader : expression.Reads (arranging ts version) i header j)
    (hmark : doMark.Reads (arranging ts version) j u k)
    (hbody : block.Reads (arranging ts version) k body k')
    (hclosing : (tok .kEND : Rule Token).Reads (arranging ts version) k' closing l) :
    Arranged ts.list n := by
  obtain ⟨hmem, hkind, hkwstands⟩ := token_of_arranging hkw
  obtain ⟨-, -, hclosingstands⟩ := token_of_arranging hclosing
  have hmark' := le_of_arranging hmark
  have hbody' := le_of_arranging hbody
  have hheaderstands := Stands.span hheader.2.1
  obtain ⟨hkwlo, hkwle, hkwhi, -⟩ := hkwstands
  obtain ⟨hclosinglo, hclosingle, -, -⟩ := hclosingstands
  obtain ⟨hheaderlo, hheaderle, hheaderhi, -⟩ := hheaderstands
  refine ⟨fun _ => .inr (.inr ⟨header.span, hheaderSpan, ⟨kw, hmem, hkinds _ hkind, ?_, ?_⟩, ?_⟩),
    ?_⟩
  · -- the loop begins with its first token
    rw [hspan, Span.join_start]
    omega
  · omega
  · intro s hs
    obtain ⟨b, hb, rfl⟩ := Option.map_eq_some_iff.mp (hbodySpan.symm.trans hs)
    have hlo := (block_stands.reads (standing_of_arranging hbody) b hb).span.lo_le
    omega
  · intro a b hgap t ht ha hb hwide
    rw [gap?, hheaderSpan, hbodySpan, Option.map_map] at hgap
    cases hgap
    -- it ends with its last token
    have hstop : n.span.stop = closing.span.stop := by
      rw [hspan, Span.join_stop]
      omega
    rw [hstop] at hb
    exact quiet_of_reads (OrderedTokens.Fills.ends hheader.1) (filling_of_arranging hmark)
      (filling_of_arranging hbody) (filling_of_arranging hclosing) ht ha hb hwide

theorem loopExpression_retains :
    loopExpression.Retains (arranging ts version) (Arranged ts.list) := by
  have hyields : ∀ i, loopExpression.Yields (arranging ts version) i fun n _ =>
      Everywhere (Arranged ts.list) n := by
    intro i kw k hkw cond k₁ hcond _ k₂ hmark body k₃ hbody closing k₄ hclosing
    have hbody' := block_retains retaining_arranging _ _ _ hbody
    exact (arranged_aboutWatched ts.list).conditionLoop hbody' hcond.2.2
      (arranged_of_reads rfl headerSpan?_conditionLoop bodySpan?_conditionLoop (by simp) hkw
        (Nat.le_refl _) hcond hmark hbody hclosing)
  exact fun i v j h => (hyields i).reads h

theorem forExpression_retains :
    forExpression.Retains (arranging ts version) (Arranged ts.list) := by
  have hyields : ∀ i, forExpression.Yields (arranging ts version) i fun n _ =>
      Everywhere (Arranged ts.list) n := by
    intro i kw k hkw var k₁ hvar _ k₂ hin elements k₃ helements _ k₄ hmark body k₅ hbody
      closing k₆ hclosing
    have hvar' := loopVariables_retains retaining_arranging _ _ _ hvar
    have hbody' := block_retains retaining_arranging _ _ _ hbody
    -- the variables and the word `in` stand between the keyword and the header
    have hle := Nat.le_trans (le_of_arranging hvar) (le_of_arranging hin)
    exact AboutWatched.forLoop hbody' hvar' helements.2.2
      (arranged_of_reads rfl rfl bodySpan?_forLoop (by simp) hkw hle helements hmark hbody hclosing)
  exact fun i v j h => (hyields i).reads h

/-- What is modified stands before the keyword, and the keyword before its value. -/
theorem modifier_arranged {s : Node} {mod : Token × Node} (hs : Everywhere (Arranged ts.list) s)
    (hstands : ts.Frames i s j) (hmod : modifier.Reads (arranging ts version) j mod k) :
    Everywhere (Arranged ts.list) (Node.modified s mod.1 mod.2) := by
  obtain ⟨k', _, ⟨kw, hkw, rfl⟩, value, hvalue, rfl⟩ := hmod
  obtain ⟨hmem, -, hkwstands⟩ := token_of_arranging hkw
  have hvaluestands := Stands.span hvalue.2.1
  refine (arranged_aboutWatched ts.list).modified hs hvalue.2.2
    (modified_arranged ts.proper hmem hstands.span.le hvaluestands.le ?_ ?_)
  · exact Nat.le_trans hstands.span.le_hi hkwstands.lo_le
  · exact Nat.le_trans hkwstands.le_hi hvaluestands.lo_le

theorem multipleAssignment_arranged :
    multipleAssignment.Retains (arranging ts version) (Arranged ts.list) :=
  multipleAssignment_retains retaining_arranging fun _ _ => arranged_of_not_isLoop ts.list rfl

theorem statementRule_retains :
    statementRule.Retains (arranging ts version) (Arranged ts.list) := by
  rintro i _ j ⟨k, _, ⟨s, hs, rfl⟩, mods, hmods, rfl⟩
  have hall : Everywhere (Arranged ts.list) s :=
    plainStatement_retains retaining_arranging multipleAssignment_arranged _ _ _ hs
  have hstands := plainStatement_stands.reads (standing_of_arranging hs)
  clear hs
  -- modifiers are added one after the other
  induction (show Repeats (modifier.Reads (arranging ts version)) k mods j from hmods)
    generalizing s with
  | nil k => exact hall
  | @cons k k' j mod mods head tail ih =>
      obtain ⟨hkw, hvalue⟩ := modifier_stands.reads (standing_of_arranging head)
      have hlo := hstands.bounds
      have hhi := hvalue.bounds
      exact ih _ tail (modifier_arranged hall hstands head)
        (Node.modified_stands (hstands.mono (by omega)) (hkw.mono (by omega))
          (hvalue.mono (by omega)))

/-- **How the grammar arranges loops** is closed under its rules. -/
theorem language_arranging : language.Closed (arranging ts version) := by
  intro s i v j h
  exact ⟨language_fills s i v j (filling_of_arranging h),
    language_stands s i v j (standing_of_arranging h),
    rule_retains retaining_arranging loopExpression_retains forExpression_retains
      statementRule_retains h⟩

/-- The loops in the tree of a program are arranged. -/
theorem readProgram_arranged {root : Option Node} (h : readProgram ts.list version = .ok root) :
    ∀ n ∈ root, Everywhere (Arranged ts.list) n := by
  obtain ⟨j, h⟩ := Rules.reads_of_parse (g := language) (c := arranging ts version)
    language_arranging h
  obtain ⟨_, _, h, -⟩ := h.seqLeft
  exact block_retains retaining_arranging _ _ _ h

end Grammar

/-! ## §7. Programs. -/

namespace Node

variable {tokens : List Token} {n : Node} {a b : Nat}

theorem Placed.ends (h : Placed tokens n) : ∃ t ∈ tokens, t.span.stop = n.span.stop := by
  rcases h.located with hlocated | hunwritten
  · exact hlocated.ends
  · exact hunwritten.ends

theorem Placed.begins (h : Placed tokens n) :
    ∃ t ∈ tokens, t.span.start = n.span.start ∨ t.span.stop = n.span.start := by
  rcases h.located with hlocated | hunwritten
  · obtain ⟨t, ht, hstart⟩ := hlocated.begins
    exact ⟨t, ht, .inl hstart⟩
  · obtain ⟨t, ht, hstop⟩ := hunwritten.ends
    exact ⟨t, ht, .inr (hstop.trans hunwritten.empty.symm)⟩

theorem mem_children_of_lastChild? {m : Node} (h : n.lastChild?.bind Child.node? = some m) :
    Child.node m ∈ n.children := by
  obtain ⟨c, hc, hnode⟩ := Option.bind_eq_some_iff.mp h
  cases c <;> cases hnode
  exact List.mem_of_getLast? hc

/-- The gap of a loop begins and ends where tokens do. -/
theorem gap?_of_placed (h : Everywhere (Placed tokens) n) (hgap : n.gap? = some (a, b)) :
    (∃ t ∈ tokens, t.span.stop = a) ∧ ∃ t ∈ tokens, t.span.start = b ∨ t.span.stop = b := by
  obtain ⟨s, hs, heq⟩ := Option.map_eq_some_iff.mp hgap
  cases heq
  obtain ⟨header, hheader, rfl⟩ := Option.map_eq_some_iff.mp hs
  obtain ⟨i, -, hheader⟩ := Option.bind_eq_some_iff.mp hheader
  refine ⟨(h.childNode? hheader).here.ends, ?_⟩
  cases hbody : n.lastChild?.bind Child.node? with
  | none =>
      rw [bodySpan?, hbody]
      obtain ⟨t, ht, hstop⟩ := h.here.ends
      exact ⟨t, ht, .inr hstop⟩
  | some body =>
      rw [bodySpan?, hbody]
      exact (h.child (mem_children_of_lastChild? hbody)).here.begins

/-- A node without a gap has no `do`, in the text or among the tokens. -/
theorem hasDo_iff_of_no_gap {text : String} (hgap : n.gap? = none) :
    n.hasDo text = true ↔
      ∃ t ∈ tokens, t.kind = .kDO_COND ∧ n.SeparatedBy t ∧ n.BlankUpTo text t := by
  rw [hasDo_eq, hgap]
  refine ⟨nofun, ?_⟩
  rintro ⟨t, -, -, ⟨a, b, hab, -⟩, -⟩
  rw [hgap] at hab
  cases hab

theorem not_hasDo_of_le {text : String} (hgap : n.gap? = some (a, b)) (hle : b ≤ a) :
    n.hasDo text = false := by
  rw [hasDo_eq, hgap]
  show beginsWithDo (slice text.toList a b) = false
  rw [slice_eq_nil hle]
  rfl

theorem not_hasDo_of_isPostCondition {text : String} (h : n.isPostCondition = true) :
    n.hasDo text = false := by
  have hslot : n.headerSlot? = none := by
    unfold isPostCondition at h
    unfold headerSlot?
    rcases Bool.or_eq_true_iff.mp h with h | h
    · rw [beq_iff_eq.mp h]
    · rw [beq_iff_eq.mp h]
  rw [hasDo_eq, gap?, headerSpan?, hslot]
  rfl

/-- There is nothing between the body of a modified loop and its header. -/
theorem IsModifier.not_hasDo {text : String} (h : n.IsModifier tokens)
    (hplaced : Everywhere (Placed tokens) n)
    (hproper : ∀ t ∈ tokens, t.span.start ≤ t.span.stop) : n.hasDo text = false := by
  cases hgap : n.gap? with
  | none =>
      rw [hasDo_eq, hgap]
      rfl
  | some gap =>
      refine not_hasDo_of_le hgap (h.le hgap hproper (fun s hs => ?_) fun s hs => ?_)
      · obtain ⟨header, hheader, rfl⟩ := Option.map_eq_some_iff.mp hs
        obtain ⟨i, -, hheader⟩ := Option.bind_eq_some_iff.mp hheader
        exact (hplaced.childNode? hheader).here.le
      · obtain ⟨body, hbody, rfl⟩ := Option.map_eq_some_iff.mp hs
        exact (hplaced.child (mem_children_of_lastChild? hbody)).here.le

/-- **The word `do` in a quiet gap is a token**, and only blanks stand before it. -/
theorem hasDo_iff_of_quietGap {text : String} {lexed : Lexed} (hlex : (lex text).1 = .ok lexed)
    (hplaced : Everywhere (Placed lexed.tokens) n) (hquiet : n.QuietGap lexed.tokens) :
    n.hasDo text = true ↔
      ∃ t ∈ lexed.tokens, t.kind = .kDO_COND ∧ n.SeparatedBy t ∧ n.BlankUpTo text t := by
  have hseparated : ∀ {a b : Nat} {t : Token}, n.gap? = some (a, b) →
      (n.SeparatedBy t ↔ a ≤ t.span.start ∧ t.span.stop ≤ b) := by
    intro a b t hgap
    simp [SeparatedBy, hgap]
  have hblank : ∀ {a b : Nat} {t : Token}, n.gap? = some (a, b) →
      (n.BlankUpTo text t ↔ (slice text.toList a t.span.start).all isBlank = true) := by
    intro a b t hgap
    simp [BlankUpTo, hgap]
  cases hgap : n.gap? with
  | none => exact hasDo_iff_of_no_gap hgap
  | some gap =>
      obtain ⟨a, b⟩ := gap
      obtain ⟨ha, hb⟩ := gap?_of_placed hplaced hgap
      have hdo : n.hasDo text = beginsWithDo (slice text.toList a b) := by
        rw [hasDo_eq, hgap]
        rfl
      rcases Nat.lt_or_ge b a with hlt | hle
      · -- a token would have to end before it begins
        rw [not_hasDo_of_le hgap (Nat.le_of_lt hlt)]
        refine ⟨nofun, ?_⟩
        rintro ⟨t, ht, -, hsep, -⟩
        obtain ⟨hstart, hstop⟩ := (hseparated hgap).mp hsep
        obtain ⟨ts, hts⟩ := exists_ordered hlex
        rw [← hts] at ht
        have hproper := ts.proper t ht
        omega
      · rw [hdo, lex_beginsWithDo hlex ha hb hle (hquiet a b hgap)]
        simp only [hseparated hgap, hblank hgap, and_assoc]

end Node

namespace Program

open Node

variable {version : Version} {text : String} {p : Program}

/-- The nodes of a program are placed and arranged.  The root of a program without statements has no
place, but it is no loop either. -/
theorem placed_and_arranged (h : (read version text).1 = .ok p) :
    ∃ lexed, (lex text).1 = .ok lexed ∧ p.tokens = lexed.tokens ∧ ∀ n ∈ p.tree.preorder,
      n.isLoop = false ∨ Everywhere (Placed p.tokens) n ∧ Arranged p.tokens n := by
  obtain ⟨lexed, found, hlex, htokens, -, htree⟩ := eq_of_read h
  obtain ⟨ts, hts⟩ := Token.exists_ordered (congrArg Prod.fst hlex)
  obtain ⟨root, hroot, htree⟩ := eq_of_treeOf htree
  refine ⟨lexed, congrArg Prod.fst hlex, htokens, fun n hn => ?_⟩
  rw [htokens, ← hts]
  rw [← hts] at hroot
  rw [htree] at hn
  cases root with
  | none =>
      obtain rfl := List.mem_singleton.mp hn
      exact .inl rfl
  | some root =>
      have hplaced := Placed.resolve (Grammar.readProgram_placed hroot root rfl)
      have harranged := Arranged.resolve (Grammar.readProgram_arranged hroot root rfl)
      exact .inr ⟨everywhere_iff_preorder.mp hplaced.everywhere n hn,
        everywhere_iff_preorder.mp harranged n hn⟩

/-- **Which loops have a `do`**: those that begin with their keyword and have a `do` of a loop
between header and body, with nothing but blanks before it.  All other loops are written as
modifiers or look at their condition after their body, and have none. -/
theorem hasDo_iff (h : (read version text).1 = .ok p) :
    ∀ n ∈ p.tree.preorder,
      (n.hasDo text = true ↔ n.IsKeywordForm p.tokens ∧
        ∃ t ∈ p.tokens, t.kind = .kDO_COND ∧ n.SeparatedBy t ∧ n.BlankUpTo text t) ∧
      (n.isLoop = true →
        n.isPostCondition = true ∨ n.IsModifier p.tokens ∨ n.IsKeywordForm p.tokens) ∧
      (n.isPostCondition = true ∨ n.IsModifier p.tokens → n.hasDo text = false) := by
  obtain ⟨lexed, hlex, htokens, hall⟩ := placed_and_arranged h
  intro n hn
  rcases hall n hn with hloop | ⟨hplaced, harranged⟩
  · have hgap := gap?_of_not_isLoop hloop
    have hnone : n.hasDo text = false := by
      rw [hasDo_eq, hgap]
      rfl
    refine ⟨⟨fun hdo => ?_, fun hdo => (hasDo_iff_of_no_gap hgap).mpr hdo.2⟩, fun h => ?_,
      fun _ => hnone⟩
    · rw [hnone] at hdo
      cases hdo
    · rw [hloop] at h
      cases h
  · rw [htokens] at hplaced harranged ⊢
    obtain ⟨ts, hts⟩ := Token.exists_ordered hlex
    have hproper : ∀ t ∈ lexed.tokens, t.span.start ≤ t.span.stop := by
      rw [← hts]
      exact ts.proper
    have hiff := hasDo_iff_of_quietGap hlex hplaced harranged.quiet
    have hnone : n.isPostCondition = true ∨ n.IsModifier lexed.tokens → n.hasDo text = false := by
      rintro (hpost | hmodifier)
      · exact not_hasDo_of_isPostCondition hpost
      · exact hmodifier.not_hasDo hplaced hproper
    refine ⟨⟨fun hdo => ⟨?_, hiff.mp hdo⟩, fun hdo => hiff.mpr hdo.2⟩, harranged.form, hnone⟩
    -- it is a loop, and of the other forms none has a `do`
    have hloop : n.isLoop = true := by
      by_contra hloop
      rw [hasDo_eq, gap?_of_not_isLoop (Bool.eq_false_iff.mpr hloop)] at hdo
      cases hdo
    rcases harranged.form hloop with hpost | hmodifier | hkeyword
    · rw [hnone (.inl hpost)] at hdo
      cases hdo
    · rw [hnone (.inr hmodifier)] at hdo
      cases hdo
    · exact hkeyword

/-- A `do` on a line that goes on after a backslash separates the header from the body, but is not
found. -/
theorem hasDo_iff_of_continuation : ∃ p, (read ⟨3, 4⟩ "while foo \\\ndo\nbar\nend").1 = .ok p ∧
    (p.tree.kind = .whileLoop ∧ p.tree.hasDo "while foo \\\ndo\nbar\nend" = false ∧
      ∃ t ∈ p.tokens, t.kind = .kDO_COND) ∧
    ∀ n ∈ p.tree.preorder,
      (n.hasDo "while foo \\\ndo\nbar\nend" = true ↔ n.IsKeywordForm p.tokens ∧
        ∃ t ∈ p.tokens, t.kind = .kDO_COND ∧ n.SeparatedBy t ∧
          n.BlankUpTo "while foo \\\ndo\nbar\nend" t) ∧
      (n.isLoop = true →
        n.isPostCondition = true ∨ n.IsModifier p.tokens ∨ n.IsKeywordForm p.tokens) ∧
      (n.isPostCondition = true ∨ n.IsModifier p.tokens →
        n.hasDo "while foo \\\ndo\nbar\nend" = false) := by
  have hread : ((read ⟨3, 4⟩ "while foo \\\ndo\nbar\nend").1.toOption.any fun p =>
      p.tree.kind == .whileLoop && !p.tree.hasDo "while foo \\\ndo\nbar\nend" &&
        p.tokens.any fun t => t.kind == .kDO_COND) = true := by decide +kernel
  obtain ⟨p, hp, hfacts⟩ := exists_of_any hread
  exact ⟨p, hp, by simpa [and_assoc] using hfacts, hasDo_iff hp⟩

end Program

end RubySyntax
