/-
  RubySyntax.Proofs.Source.Directive
  ──────────────────────────────────
  **ON WHICH LINES A RULE IS OFF.**

  The ranges of a rule come from one pass over the directives that keeps the line since which the
  rule is off.  Read line by line, they say what each directive does:

      `disable` after code         its own line
      `disable` alone on its line  from its line to that of the next `enable`, or to the end

  A rule that is off already is not switched off again, which a reader of the lines cannot see —
  but for one line: a `disable` behind the end still switches its rule off on its own line, unless
  the rule is off already.

  Main results:
    • `covered_rangesFrom` — the ranges, read line by line,
    • `disabledRangesOf_iff` — the same for comments, and in which form the ranges come.
-/
import Mathlib.Data.List.Nodup
import RubySyntax.Source.Directive

namespace RubySyntax.Source

/-! ## §1. Directives that switch a rule off. -/

/-- Whether a directive switches a rule off on its own line only. -/
def Directive.trails (d : Directive) (rule : String) : Bool :=
  !d.enables && !d.alone && d.rules.contains rule

/-- Whether a rule is still off after some directives. -/
def StillOff (rule : String) (ds : List Directive) : Prop :=
  ∃ before d after, ds = before ++ d :: after ∧ d.opens rule ∧ ∀ e ∈ after, ¬ e.closes rule

/-- Whether a directive, with those before and after it, switches a rule off on a line.  After code
it does on its own line.  Alone on its line it does up to the next directive that switches the rule
on, or to the last line.  Behind the last line it does on its own line, unless the rule is still
off. -/
def OffBy (lastLine : Nat) (rule : String) (n : Nat) (before : List Directive) (d : Directive)
    (after : List Directive) : Prop :=
  (d.trails rule ∧ d.line = n) ∨
    d.opens rule ∧ d.line ≤ n ∧
      match after.find? (·.closes rule) with
      | some e => n ≤ e.line
      | none => n ≤ lastLine ∨ n = d.line ∧ ¬ StillOff rule before

/-- Whether some directives switch a rule off on a line. -/
def OffAt (lastLine : Nat) (rule : String) (n : Nat) (ds : List Directive) : Prop :=
  ∃ before d after, ds = before ++ d :: after ∧ OffBy lastLine rule n before d after

/-- Whether a line lies in one of some ranges. -/
def Covered (n : Nat) (ranges : List LineRange) : Prop :=
  ∃ range ∈ ranges, range.first ≤ n ∧ n ≤ range.last

variable {lastLine n : Nat} {rule : String} {d e : Directive} {ds : List Directive}

theorem covered_nil : ¬ Covered n [] := fun ⟨_, h, _⟩ => nomatch h

theorem covered_cons {range : LineRange} {ranges : List LineRange} :
    Covered n (range :: ranges) ↔ range.first ≤ n ∧ n ≤ range.last ∨ Covered n ranges := by
  simp only [Covered, List.exists_mem_cons_iff]

theorem covered_append {ranges others : List LineRange} :
    Covered n (ranges ++ others) ↔ Covered n ranges ∨ Covered n others := by
  simp only [Covered, List.mem_append, or_and_right, exists_or]

theorem Directive.covered_lineRanges :
    Covered n (d.lineRanges rule) ↔ d.trails rule ∧ d.line = n := by
  unfold lineRanges trails Covered
  cases henables : !d.enables && !d.alone
  · simp
  · simp only [if_true, List.mem_replicate, Bool.true_and, List.contains_iff_mem]
    constructor
    · rintro ⟨range, ⟨hcount, rfl⟩, hfirst, hlast⟩
      exact ⟨List.count_pos_iff.mp (Nat.pos_of_ne_zero hcount), Nat.le_antisymm hfirst hlast⟩
    · rintro ⟨hmem, rfl⟩
      exact ⟨_, ⟨Nat.pos_iff_ne_zero.mp (List.count_pos_iff.mpr hmem), rfl⟩, Nat.le_refl _, Nat.le_refl _⟩

/-- A directive that switches a rule off for long does not switch it off for its line only. -/
theorem Directive.not_trails_of_opens (h : d.opens rule) : ¬ d.trails rule := by
  simp only [opens, trails, Bool.and_eq_true, Bool.not_eq_true'] at h ⊢
  exact fun htrails => by rw [h.1.2] at htrails; exact Bool.noConfusion htrails.1.2

theorem Directive.not_closes_of_opens (h : d.opens rule) : ¬ d.closes rule := by
  simp only [opens, closes, Bool.and_eq_true, Bool.not_eq_true'] at h ⊢
  exact fun hcloses => by rw [h.1.1] at hcloses; exact Bool.noConfusion hcloses.1

theorem Directive.not_trails_of_closes (h : d.closes rule) : ¬ d.trails rule := by
  simp only [trails, closes, Bool.and_eq_true, Bool.not_eq_true'] at h ⊢
  exact fun htrails => by rw [h.1] at htrails; exact Bool.noConfusion htrails.1.1

/-! ## §2. One directive more. -/

/-- An element of a list is the first one or one of the others. -/
theorem exists_split_cons {α : Type} {x : α} {xs : List α} {P : List α → α → List α → Prop} :
    (∃ before y after, x :: xs = before ++ y :: after ∧ P before y after) ↔
      P [] x xs ∨ ∃ before y after, xs = before ++ y :: after ∧ P (x :: before) y after := by
  constructor
  · rintro ⟨before, y, after, hxs, h⟩
    cases before with
    | nil =>
        cases hxs
        exact .inl h
    | cons z before =>
        cases hxs
        exact .inr ⟨before, y, after, rfl, h⟩
  · rintro (h | ⟨before, y, after, rfl, h⟩)
    · exact ⟨[], x, xs, rfl, h⟩
    · exact ⟨x :: before, y, after, rfl, h⟩

theorem stillOff_cons :
    StillOff rule (d :: ds) ↔
      (d.opens rule ∧ ∀ e ∈ ds, ¬ e.closes rule) ∨ StillOff rule ds :=
  exists_split_cons
    (P := fun _ (d : Directive) after => d.opens rule ∧ ∀ e ∈ after, ¬ e.closes rule)

theorem not_stillOff_nil : ¬ StillOff rule [] := by
  rintro ⟨before, d, after, h, -⟩
  cases before <;> cases h

theorem offAt_nil : ¬ OffAt lastLine rule n [] := by
  rintro ⟨before, d, after, h, -⟩
  cases before <;> cases h

theorem offAt_cons :
    OffAt lastLine rule n (d :: ds) ↔
      OffBy lastLine rule n [] d ds ∨
        ∃ before e after, ds = before ++ e :: after ∧ OffBy lastLine rule n (d :: before) e after :=
  exists_split_cons

/-- What was said before matters only through whether the rule is off. -/
theorem offBy_congr {before before' after : List Directive}
    (h : StillOff rule before ↔ StillOff rule before') :
    OffBy lastLine rule n before d after ↔ OffBy lastLine rule n before' d after := by
  unfold OffBy
  rw [h]

theorem offBy_of_not_opens {before : List Directive} (hd : ¬ d.opens rule) :
    OffBy lastLine rule n before d ds ↔ d.trails rule ∧ d.line = n :=
  or_iff_left fun h => hd h.1

theorem offBy_of_opens {before : List Directive} (hd : d.opens rule) :
    OffBy lastLine rule n before d ds ↔
      d.line ≤ n ∧
        match ds.find? (·.closes rule) with
        | some e => n ≤ e.line
        | none => n ≤ lastLine ∨ n = d.line ∧ ¬ StillOff rule before := by
  rw [OffBy, or_iff_right fun h => Directive.not_trails_of_opens hd h.1, and_iff_right hd]

/-- While a rule is on, a directive that does not switch it off for long counts for itself. -/
theorem offAt_cons_of_not_opens (hd : ¬ d.opens rule) :
    OffAt lastLine rule n (d :: ds) ↔
      (d.trails rule ∧ d.line = n) ∨ OffAt lastLine rule n ds := by
  have hsame (before : List Directive) : StillOff rule (d :: before) ↔ StillOff rule before := by
    rw [stillOff_cons, or_iff_right fun h => hd h.1]
  rw [offAt_cons, offBy_of_not_opens hd]
  simp only [offBy_congr (hsame _)]
  rfl

/-- At the end a rule is off to the last line, and on the line of the directive in any case. -/
theorem offAt_singleton (hd : d.opens rule) :
    OffAt lastLine rule n [d] ↔ d.line ≤ n ∧ n ≤ max lastLine d.line := by
  have hrest : ¬ ∃ before e after, [] = before ++ e :: after ∧
      OffBy lastLine rule n (d :: before) e after := by
    rintro ⟨before, e, after, h, -⟩
    cases before <;> cases h
  rw [offAt_cons, or_iff_left hrest, offBy_of_opens hd, List.find?_nil]
  simp only [not_stillOff_nil, not_false_eq_true, and_true]
  omega

/-- Between a directive that switches a rule off and the next that switches it on the rule is off;
what follows counts as if neither had been there. -/
theorem offAt_cons_of_closes (hd : d.opens rule) (he : e.closes rule) :
    OffAt lastLine rule n (d :: e :: ds) ↔
      (d.line ≤ n ∧ n ≤ e.line) ∨ OffAt lastLine rule n ds := by
  have hopens : ¬ e.opens rule := fun h => Directive.not_closes_of_opens h he
  have hsame (before : List Directive) :
      StillOff rule (d :: e :: before) ↔ StillOff rule before := by
    rw [stillOff_cons, stillOff_cons, or_iff_right fun h => h.2 e List.mem_cons_self he,
      or_iff_right fun h => hopens h.1]
  have hfind : (e :: ds).find? (·.closes rule) = some e := List.find?_cons_of_pos he
  have hnot : ¬ (e.trails rule ∧ e.line = n) := fun h => Directive.not_trails_of_closes he h.1
  rw [offAt_cons, exists_split_cons, offBy_of_opens hd, hfind, offBy_of_not_opens hopens,
    or_iff_right hnot]
  simp only [offBy_congr (hsame _)]
  rfl

/-- While a rule is off it cannot be switched off once more. -/
theorem offAt_cons_of_not_closes (hd : d.opens rule) (he : ¬ e.closes rule)
    (hline : d.line ≤ e.line) :
    OffAt lastLine rule n (d :: e :: ds) ↔
      (e.trails rule ∧ e.line = n) ∨ OffAt lastLine rule n (d :: ds) := by
  have hfind : (e :: ds).find? (·.closes rule) = ds.find? (·.closes rule) :=
    List.find?_cons_of_neg he
  have hsame (before : List Directive) :
      StillOff rule (d :: e :: before) ↔ StillOff rule (d :: before) := by
    simp only [stillOff_cons, List.forall_mem_cons, he]
    tauto
  -- what the second directive would switch off is off by the first
  have hagain : OffBy lastLine rule n [d] e ds ∨ OffBy lastLine rule n [] d ds ↔
      (e.trails rule ∧ e.line = n) ∨ OffBy lastLine rule n [] d ds := by
    by_cases hopens : e.opens rule
    · have hstill : StillOff rule [d] := stillOff_cons.mpr (.inl ⟨hd, fun _ h => nomatch h⟩)
      have hnot : ¬ (e.trails rule ∧ e.line = n) := fun h =>
        Directive.not_trails_of_opens hopens h.1
      rw [or_iff_right hnot, offBy_of_opens hopens, offBy_of_opens hd]
      refine or_iff_right_of_imp fun ⟨hle, h⟩ => ⟨Nat.le_trans hline hle, ?_⟩
      split at h
      · exact h
      · exact .inl (h.resolve_right fun h => h.2 hstill)
    · rw [offBy_of_not_opens hopens]
  have hfirst : OffBy lastLine rule n [] d (e :: ds) ↔ OffBy lastLine rule n [] d ds := by
    unfold OffBy
    rw [hfind]
  rw [offAt_cons, exists_split_cons, hfirst, or_left_comm, ← or_assoc, hagain, or_assoc,
    offAt_cons]
  simp only [offBy_congr (hsame _)]

/-! ## §3. All ranges. -/

/-- **The ranges of a rule hold the lines on which directives switch it off**, be it that the rule
was on before or has been off since a directive. -/
theorem covered_rangesFrom (hds : ds.Pairwise (·.line ≤ ·.line)) :
    (Covered n (rangesFrom lastLine rule none ds) ↔ OffAt lastLine rule n ds) ∧
    ∀ d : Directive, d.opens rule → (∀ e ∈ ds, d.line ≤ e.line) →
      (Covered n (rangesFrom lastLine rule (some d.line) ds) ↔
        OffAt lastLine rule n (d :: ds)) := by
  -- on the directives, for both states at once: each directive leads from one to the other, or
  -- leaves the rule as it is and turns it off on its own lines
  induction ds with
  | nil =>
      refine ⟨iff_of_false covered_nil offAt_nil, fun d hd _ => ?_⟩
      rw [rangesFrom, covered_cons, offAt_singleton hd, or_iff_left covered_nil]
  | cons e ds ih =>
      obtain ⟨hlines, hds⟩ := List.pairwise_cons.mp hds
      obtain ⟨hnone, hsome⟩ := ih hds
      constructor
      · rw [rangesFrom]
        by_cases he : e.opens rule
        · rw [if_pos he, hsome e he hlines]
        · rw [if_neg he, covered_append, Directive.covered_lineRanges, hnone,
            offAt_cons_of_not_opens he]
      · intro d hd hle
        rw [List.forall_mem_cons] at hle
        rw [rangesFrom]
        by_cases he : e.closes rule
        · rw [if_pos he, covered_cons, hnone, offAt_cons_of_closes hd he]
        · rw [if_neg he, covered_append, Directive.covered_lineRanges, hsome d hd hle.2,
            offAt_cons_of_not_closes hd he hle.1]

/-- No range ends before it begins. -/
theorem first_le_last {since? : Option Nat} (hds : ds.Pairwise (·.line ≤ ·.line))
    (hsince : ∀ since ∈ since?, ∀ d ∈ ds, since ≤ d.line) :
    ∀ range ∈ rangesFrom lastLine rule since? ds, range.first ≤ range.last := by
  -- a range begins at the directive that opens it, and none of those behind it is on an earlier
  -- line
  have hown (d : Directive) : ∀ range ∈ d.lineRanges rule, range.first ≤ range.last := by
    intro range hrange
    unfold Directive.lineRanges at hrange
    split at hrange
    · have hline := List.eq_of_mem_replicate hrange
      exact hline ▸ Nat.le_refl d.line
    · cases hrange
  induction ds generalizing since? with
  | nil =>
      cases since? with
      | none => exact fun _ h => nomatch h
      | some since => exact List.forall_mem_singleton.mpr (Nat.le_max_right _ _)
  | cons d ds ih =>
      obtain ⟨hlines, hds⟩ := List.pairwise_cons.mp hds
      have hon : ∀ range ∈ rangesFrom lastLine rule none ds, range.first ≤ range.last :=
        ih hds fun _ h => nomatch h
      cases since? with
      | none =>
          rw [rangesFrom]
          split
          · refine ih hds fun since hmem => ?_
            cases hmem
            exact hlines
          · exact List.forall_mem_append.mpr ⟨hown d, hon⟩
      | some since =>
          have hle := List.forall_mem_cons.mp (hsince since rfl)
          rw [rangesFrom]
          split
          · exact List.forall_mem_cons.mpr ⟨hle.1, hon⟩
          · refine List.forall_mem_append.mpr ⟨hown d, ih hds fun other hmem => ?_⟩
            cases hmem
            exact hle.2

/-- A rule that some directive switches off, or that is off, has a range. -/
theorem rangesFrom_ne_nil {since? : Option Nat}
    (h : since?.isSome ∨ ∃ d ∈ ds, d.enables = false ∧ rule ∈ d.rules) :
    rangesFrom lastLine rule since? ds ≠ [] := by
  induction ds generalizing since? with
  | nil =>
      obtain h | ⟨d, hd, -⟩ := h
      · obtain ⟨since, rfl⟩ := Option.isSome_iff_exists.mp h
        exact List.cons_ne_nil _ _
      · cases hd
  | cons d ds ih =>
      -- a range that is open at the end is closed there, so it is never lost
      cases since? with
      | some since =>
          rw [rangesFrom]
          split
          · exact List.cons_ne_nil _ _
          · exact List.append_ne_nil_of_right_ne_nil _ (ih (.inl rfl))
      | none =>
          obtain h | ⟨e, he, henables, hrule⟩ := h
          · cases h
          · rw [rangesFrom]
            split
            · exact ih (.inl rfl)
            · obtain rfl | he := List.mem_cons.mp he
              · -- the directive names the rule and is not alone, so it has a range of its own
                rename_i hopens
                refine List.append_ne_nil_of_left_ne_nil ?_ _
                have halone : e.alone = false := by
                  simpa [Directive.opens, henables, hrule] using hopens
                simp only [Directive.lineRanges, henables, halone, Bool.not_false, Bool.and_self,
                  if_true, ne_eq, List.replicate_eq_nil_iff]
                exact Nat.pos_iff_ne_zero.mp (List.count_pos_iff.mpr hrule)
              · exact List.append_ne_nil_of_right_ne_nil _ (ih (.inr ⟨e, he, henables, hrule⟩))

/-- Ranges come in the order of their first lines. -/
theorem pairwise_rangesOf (rule : String) (ds : List Directive) :
    (rangesOf lastLine ds rule).Pairwise (·.first ≤ ·.first) := by
  have hsorted : (rangesOf lastLine ds rule).Pairwise
      fun a b => decide (a.first ≤ b.first) = true := by
    refine List.pairwise_mergeSort (fun a b c hab hbc => ?_) (fun a b => ?_) _
    · rw [decide_eq_true_eq] at hab hbc ⊢
      exact Nat.le_trans hab hbc
    · rw [Bool.or_eq_true, decide_eq_true_eq, decide_eq_true_eq]
      exact Nat.le_total a.first b.first
  exact hsorted.imp of_decide_eq_true

theorem mem_disabledRules :
    rule ∈ disabledRules ds ↔ ∃ d ∈ ds, d.enables = false ∧ rule ∈ d.rules := by
  simp only [disabledRules, List.mem_mergeSort, List.mem_eraseDups, List.mem_flatMap,
    List.mem_filter, Bool.not_eq_true', and_assoc]

/-- A rule that is off on a line has been switched off by a directive that names it. -/
theorem OffAt.mem_disabledRules (h : OffAt lastLine rule n ds) : rule ∈ disabledRules ds := by
  rw [Source.mem_disabledRules]
  obtain ⟨before, d, after, rfl, h⟩ := h
  refine ⟨d, List.mem_append_right _ List.mem_cons_self, ?_⟩
  obtain ⟨htrails, -⟩ | ⟨hopens, -⟩ := h
  · simp only [Directive.trails, Bool.and_eq_true, Bool.not_eq_true', List.contains_iff_mem]
      at htrails
    exact ⟨htrails.1.1, htrails.2⟩
  · simp only [Directive.opens, Bool.and_eq_true, Bool.not_eq_true', List.contains_iff_mem]
      at hopens
    exact ⟨hopens.1.1, hopens.2⟩

/-- Keeping the first of equal ones keeps no two. -/
theorem nodup_eraseDups : ∀ names : List String, names.eraseDups.Nodup
  | [] => List.nodup_nil
  | name :: names => by
      rw [List.eraseDups_cons, List.nodup_cons, List.mem_eraseDups, List.mem_filter]
      exact ⟨fun h => by simp at h, nodup_eraseDups _⟩
termination_by names => names.length
decreasing_by exact Nat.lt_succ_of_le (List.length_filter_le _ _)

theorem nodup_disabledRules (ds : List Directive) : (disabledRules ds).Nodup :=
  (List.mergeSort_perm _ _).nodup_iff.mpr (nodup_eraseDups _)

/-- The directives of comments in order are in order. -/
theorem Directive.pairwise_ofComments {comments : List Comment}
    (h : comments.Pairwise (·.line ≤ ·.line)) (lines : List String) :
    (ofComments lines comments).Pairwise (·.line ≤ ·.line) := by
  have hline {c : Comment} {d : Directive} (hd : ofComment? lines c = some d) :
      d.line = c.line := by
    obtain ⟨_, -, rfl⟩ := Option.map_eq_some_iff.mp hd
    rfl
  refine List.Pairwise.filterMap _ (fun c c' hle d hd d' hd' => ?_) h
  rw [hline hd, hline hd']
  exact hle

/-- **On which lines comments switch a rule off.**  A `disable` after code switches it off on its
line.  A `disable` alone on its line switches it off from its line to that of the next directive
that switches it on, or else to the last line; behind the last line on its own line, unless the
rule is still off.  Each rule has one entry, with at least one range; ranges are not empty, and
come in the order of their first lines. -/
theorem disabledRangesOf_iff {comments : List Comment} (h : comments.Pairwise (·.line ≤ ·.line))
    (lines : List String) :
    (∀ rule n, (∃ ranges, (rule, ranges) ∈ disabledRangesOf comments lines ∧ Covered n ranges) ↔
      OffAt (max lines.length 1) rule n (Directive.ofComments lines comments)) ∧
    ((disabledRangesOf comments lines).map Prod.fst).Nodup ∧
    ∀ rule ranges, (rule, ranges) ∈ disabledRangesOf comments lines →
      ranges ≠ [] ∧ ranges.Pairwise (·.first ≤ ·.first) ∧
        ∀ range ∈ ranges, range.first ≤ range.last := by
  have hds := Directive.pairwise_ofComments h lines
  unfold disabledRangesOf
  generalize Directive.ofComments lines comments = ds at hds
  -- the ranges are sorted, which changes neither what they cover nor how many there are
  have hsort (rule : String) := List.mergeSort_perm
    (rangesFrom (max lines.length 1) rule none ds) fun a b => a.first ≤ b.first
  refine ⟨fun rule n => ?_, ?_, fun rule ranges hmem => ?_⟩
  · rw [← (covered_rangesFrom hds).1]
    have hcovered : Covered n (rangesOf (max lines.length 1) ds rule) ↔
        Covered n (rangesFrom (max lines.length 1) rule none ds) := by
      simp only [Covered, rangesOf, (hsort rule).mem_iff]
    constructor
    · rintro ⟨ranges, hmem, hn⟩
      obtain ⟨_, -, heq⟩ := List.mem_map.mp hmem
      cases heq
      exact hcovered.mp hn
    · intro hn
      have hrule := ((covered_rangesFrom hds).1.mp hn).mem_disabledRules
      exact ⟨_, List.mem_map_of_mem hrule, hcovered.mpr hn⟩
  · rw [List.map_map]
    exact (List.map_id (disabledRules ds)).symm ▸ nodup_disabledRules ds
  · obtain ⟨_, hrule, heq⟩ := List.mem_map.mp hmem
    cases heq
    refine ⟨?_, ?_, fun range hrange => ?_⟩
    · intro hnil
      rw [rangesOf, ← List.length_eq_zero_iff, (hsort rule).length_eq,
        List.length_eq_zero_iff] at hnil
      exact rangesFrom_ne_nil (.inr (mem_disabledRules.mp hrule)) hnil
    · exact pairwise_rangesOf rule ds
    · have hall : ∀ range ∈ rangesFrom (max lines.length 1) rule none ds,
          range.first ≤ range.last := first_le_last hds fun _ h => nomatch h
      exact hall range ((hsort rule).mem_iff.mp hrange)

/-- Two comments behind the last line: by the second one the rule is not off on the second line. -/
theorem disabledRangesOf_iff_twice :
    OffAt 1 "A" 5 (Directive.ofComments []
      [⟨"# rubocop:disable A", ⟨20, 39, 5, 0⟩⟩, ⟨"# rubocop:disable A", ⟨40, 59, 6, 0⟩⟩]) ∧
    ¬ OffAt 1 "A" 6 (Directive.ofComments []
      [⟨"# rubocop:disable A", ⟨20, 39, 5, 0⟩⟩, ⟨"# rubocop:disable A", ⟨40, 59, 6, 0⟩⟩]) := by
  have hline : [(⟨"# rubocop:disable A", ⟨20, 39, 5, 0⟩⟩ : Comment),
      ⟨"# rubocop:disable A", ⟨40, 59, 6, 0⟩⟩].Pairwise (·.line ≤ ·.line) := by decide
  have hranges : disabledRangesOf [(⟨"# rubocop:disable A", ⟨20, 39, 5, 0⟩⟩ : Comment),
      ⟨"# rubocop:disable A", ⟨40, 59, 6, 0⟩⟩] [] = [("A", [⟨5, 5⟩])] := by decide +kernel
  have hiff := (disabledRangesOf_iff hline []).1 "A"
  rw [hranges] at hiff
  constructor
  · exact (hiff 5).mp ⟨_, List.mem_singleton_self _, ⟨5, 5⟩, by decide⟩
  · rintro hoff
    obtain ⟨ranges, hmem, range, hrange, hlast⟩ := (hiff 6).mpr hoff
    cases List.mem_singleton.mp hmem
    cases List.mem_singleton.mp hrange
    exact absurd hlast.2 (by decide)

end RubySyntax.Source
