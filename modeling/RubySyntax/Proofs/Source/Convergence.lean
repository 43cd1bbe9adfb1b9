/-
  RubySyntax.Proofs.Source.Convergence
  ────────────────────────────────────
  **A VERDICT IS DUE TO THE WHOLE HISTORY.**

  Of the passes seen so far the record keeps the latest checksum and the set of those before it.
  That is enough: the verdict about a pass is the one that is due to it among all passes before it,
  whatever repeats, returns and claims they were.

      latest?  ~  the last of `before`        earlier  ~  the others

  Main results:
    • `Recalls.verdict` — a record that stands for some passes gives the verdict that is due,
    • `Recalls.record` — with one more pass it stands for one more,
    • `verdicts_due` — the verdicts of a whole run, its length, and its number of new checksums.
-/
import Mathlib.Data.Finset.Card
import Mathlib.Data.List.TakeWhile
import RubySyntax.Source.Convergence

namespace RubySyntax.Source

/-! ## §1. What is due. -/

/-- The verdict that is due to a pass after all those before it. -/
def Pass.due (before : List Pass) (p : Pass) : Verdict :=
  if p.checksum ∉ before.map Pass.checksum then .progress
  else if p.claimed ∨ before.getLast?.map Pass.checksum ≠ some p.checksum then .loop
  else if p.diagnostics = [] then .fixedPoint
  else .stalled

/-- The verdicts that are due to passes one after another, behind some others. -/
def Pass.dues (before : List Pass) : List Pass → List Verdict
  | [] => []
  | p :: ps => p.due before :: dues (before ++ [p]) ps

theorem Pass.due_eq_progress_iff {before : List Pass} {p : Pass} :
    p.due before = .progress ↔ p.checksum ∉ before.map Pass.checksum := by
  unfold due
  constructor
  · intro h
    by_contra hmem
    rw [if_neg (not_not_intro hmem)] at h
    split at h
    · cases h
    · split at h <;> cases h
  · exact fun h => if_pos h

theorem Pass.length_dues (before ps : List Pass) : (dues before ps).length = ps.length := by
  induction ps generalizing before with
  | nil => rfl
  | cons p ps ih => rw [dues, List.length_cons, List.length_cons, ih]

/-- Each of them is due to the passes behind and those in between. -/
theorem Pass.dues_getElem? {before ps : List Pass} {i : Nat} {p : Pass} (h : ps[i]? = some p) :
    (dues before ps)[i]? = some (p.due (before ++ ps.take i)) := by
  induction ps generalizing before i with
  | nil => cases h
  | cons q ps ih =>
      cases i with
      | zero =>
          cases h
          rw [dues, List.getElem?_cons_zero, List.take_zero, List.append_nil]
      | succ i =>
          rw [List.getElem?_cons_succ] at h
          rw [dues, List.getElem?_cons_succ, ih h, List.take_succ_cons, List.append_assoc,
            List.singleton_append]

theorem Pass.take_dues (before ps : List Pass) (i : Nat) :
    (dues before ps).take i = dues before (ps.take i) := by
  induction ps generalizing before i with
  | nil => rw [dues, List.take_nil, List.take_nil, dues]
  | cons p ps ih =>
      cases i with
      | zero => rfl
      | succ i => rw [dues, List.take_succ_cons, List.take_succ_cons, dues, ih]

/-- The checksums of some passes, each once. -/
def checksums (ps : List Pass) : Finset String := (ps.map Pass.checksum).toFinset

theorem mem_checksums {ps : List Pass} {h : String} :
    h ∈ checksums ps ↔ h ∈ ps.map Pass.checksum :=
  List.mem_toFinset

theorem checksums_snoc (ps : List Pass) (p : Pass) :
    checksums (ps ++ [p]) = insert p.checksum (checksums ps) := by
  ext h
  simp only [Finset.mem_insert, mem_checksums, List.map_append, List.mem_append, List.map_cons,
    List.map_nil, List.mem_singleton]
  exact or_comm

/-- Progress is made as often as there is a new checksum. -/
theorem count_progress_dues (before ps : List Pass) :
    (Pass.dues before ps).count .progress + (checksums before).card =
      (checksums (before ++ ps)).card := by
  induction ps generalizing before with
  | nil => rw [Pass.dues, List.count_nil, Nat.zero_add, List.append_nil]
  | cons p ps ih =>
      have hrest := ih (before ++ [p])
      rw [checksums_snoc, List.append_assoc, List.singleton_append] at hrest
      rw [Pass.dues, ← hrest]
      by_cases hmem : p.checksum ∈ checksums before
      · have hdue : p.due before ≠ .progress := fun hdue =>
          Pass.due_eq_progress_iff.mp hdue (mem_checksums.mp hmem)
        rw [List.count_cons_of_ne hdue, Finset.insert_eq_of_mem hmem]
      · have hdue : p.due before = .progress :=
          Pass.due_eq_progress_iff.mpr fun h => hmem (mem_checksums.mpr h)
        rw [hdue, List.count_cons_self, Finset.card_insert_of_notMem hmem]
        omega

/-- As long as there is progress no checksum comes again. -/
theorem nodup_of_progress {before ps : List Pass} (hbefore : (before.map Pass.checksum).Nodup)
    (h : ∀ v ∈ Pass.dues before ps, v = .progress) :
    ((before ++ ps).map Pass.checksum).Nodup := by
  induction ps generalizing before with
  | nil => rwa [List.append_nil]
  | cons p ps ih =>
      rw [Pass.dues, List.forall_mem_cons] at h
      have hnew := Pass.due_eq_progress_iff.mp h.1
      have hsnoc : ((before ++ [p]).map Pass.checksum).Nodup := by
        rw [List.map_append, List.map_singleton]
        exact List.nodup_append.mpr ⟨hbefore, List.nodup_singleton _, fun h hh h' hh' heq =>
          hnew (List.mem_singleton.mp hh' ▸ heq ▸ hh)⟩
      have hall := ih hsnoc h.2
      rwa [List.append_assoc, List.singleton_append] at hall

/-! ## §2. What the record keeps. -/

namespace Convergence

/-- A record stands for the passes that it has seen. -/
structure Recalls (c : Convergence) (before : List Pass) : Prop where
  latest : c.latest? = before.getLast?.map Pass.checksum
  earlier : ∀ h, h ∈ c.earlier ↔ h ∈ before.dropLast.map Pass.checksum
  passes : c.passes = before.length

variable {c : Convergence} {before : List Pass}

theorem recalls_start : start.Recalls [] := ⟨rfl, fun _ => Iff.rfl, rfl⟩

/-- A checksum has been seen if it is the latest or an earlier one. -/
theorem Recalls.mem_iff (h : c.Recalls before) (checksum : String) :
    checksum ∈ before.map Pass.checksum ↔
      c.latest? = some checksum ∨ checksum ∈ c.earlier := by
  rw [h.latest, h.earlier]
  rcases List.eq_nil_or_concat before with rfl | ⟨front, last, rfl⟩
  · simp
  · rw [List.concat_eq_append, List.dropLast_concat, List.getLast?_concat, List.map_append,
      List.mem_append, List.map_singleton, List.mem_singleton, Option.map_some, Option.some.injEq,
      or_comm, eq_comm]

/-- **A record gives the verdict that is due to the passes that it stands for.** -/
theorem Recalls.verdict (h : c.Recalls before) (p : Pass) : c.verdict p = p.due before := by
  unfold Convergence.verdict Pass.due
  simp only [h.mem_iff, ← h.latest]
  by_cases hlatest : c.latest? = some p.checksum
  · -- the text is that of the pass before
    simp only [hlatest, beq_self_eq_true, true_or, not_true_eq_false, ne_eq, or_false, if_true,
      if_false, List.isEmpty_iff]
  · by_cases hearlier : p.checksum ∈ c.earlier
    · simp [hlatest, hearlier]
    · simp [hlatest, hearlier]

/-- **With one more pass a record stands for one pass more**: what was latest is earlier now. -/
theorem Recalls.record (h : c.Recalls before) (p : Pass) :
    (c.record p).Recalls (before ++ [p]) where
  latest := by
    rw [List.getLast?_concat]
    rfl
  earlier checksum := by
    rw [List.dropLast_concat, h.mem_iff]
    unfold Convergence.record
    cases c.latest? with
    | none => simp
    | some last =>
        simp only [List.mem_insert_iff, Option.some.injEq]
        rw [eq_comm]
  passes := by
    rw [List.length_append, List.length_singleton, ← h.passes]
    rfl

/-! ## §3. Runs. -/

/-- A run gives the verdicts that are due, and its record stands for all passes. -/
theorem Recalls.observeAll (h : c.Recalls before) (ps : List Pass) :
    (c.observeAll ps).1 = Pass.dues before ps ∧ (c.observeAll ps).2.Recalls (before ++ ps) := by
  induction ps generalizing c before with
  | nil =>
      rw [List.append_nil]
      exact ⟨rfl, h⟩
  | cons p ps ih =>
      obtain ⟨hverdicts, hrecalls⟩ := ih (h.record p)
      rw [List.append_assoc, List.singleton_append] at hrecalls
      refine ⟨?_, hrecalls⟩
      show c.verdict p :: _ = _
      rw [h.verdict, hverdicts, Pass.dues]

/-- **The verdicts of a run are due to its whole history.**  A pass has made progress if no pass
before it has its checksum; else it is in a loop if it claims a change or the pass right before it
has another checksum; else it is at rest, with nothing to report or with something.  The passes are
counted; as many have made progress as there are checksums; and up to the first verdict that ends a
run all checksums are different. -/
theorem verdicts_due (ps : List Pass) :
    (start.observeAll ps).1.length = ps.length ∧
    (∀ (i : Fin ps.length), (start.observeAll ps).1[i]? = some (ps[i].due (ps.take i))) ∧
    (start.observeAll ps).2.passes = ps.length ∧
    (start.observeAll ps).1.count .progress = (checksums ps).card ∧
    ((ps.take ((start.observeAll ps).1.takeWhile (!·.isTerminal)).length).map
      Pass.checksum).Nodup := by
  obtain ⟨hverdicts, hrecalls⟩ := recalls_start.observeAll ps
  rw [hverdicts]
  refine ⟨Pass.length_dues [] ps, fun i => ?_, hrecalls.passes, ?_, ?_⟩
  · exact Pass.dues_getElem? (List.getElem?_eq_getElem i.isLt)
  · exact count_progress_dues [] ps
  · rw [← List.nil_append (ps.take _)]
    refine nodup_of_progress List.nodup_nil fun v hv => ?_
    have hprefix := List.takeWhile_prefix (l := Pass.dues [] ps) (!·.isTerminal)
    rw [← Pass.take_dues, ← List.prefix_iff_eq_take.mp hprefix] at hv
    have hgoes := List.mem_takeWhile_imp hv
    simpa [Verdict.isTerminal] using hgoes

end Convergence

end RubySyntax.Source
