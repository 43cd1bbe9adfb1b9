/-
  RubySyntax.Proofs.Dialect
  ─────────────────────────
  **A REGISTRY HOLDS WHAT WAS REGISTERED LAST.**

  Versions are compared by their numbers, so versions that compare equal are equal, and a registry
  finds a dialect by its version and by nothing else.

  Main results:
    • `Registry.get?_register` — what a registration changes,
    • `Registry.resolve_standard` — the standard registry has the standard dialect of each known
      version.
-/
import RubySyntax.Dialect

namespace RubySyntax

namespace Version

instance : Std.TransCmp compare :=
  inferInstanceAs (Std.TransCmp (compareLex (compareOn Version.major) (compareOn Version.minor)))

/-- Versions that compare equal are equal. -/
theorem compare_eq_iff {a b : Version} : compare a b = .eq ↔ a = b := by
  cases a
  cases b
  rw [compare, Ordering.then_eq_eq, Nat.compare_eq_eq, Nat.compare_eq_eq, Version.mk.injEq]

end Version

namespace Dialect.Registry

/-- A registration changes what is found for the version of the dialect, and for no other. -/
theorem get?_register (r : Registry) (d : Dialect) (v : Version) :
    (r.register d).get? v = if d.version = v then some d else r.get? v := by
  show (r.byVersion.insert d.version d)[v]? = if d.version = v then some d else r.byVersion[v]?
  rw [Std.TreeMap.getElem?_insert]
  simp only [Version.compare_eq_iff]

/-- Registering the standard dialects of some versions: those are found, and what was there. -/
theorem get?_foldl_register (versions : List Version) (v : Version) : ∀ r : Registry,
    v ∈ versions ∨ r.get? v = some (Dialect.standard v) →
      (versions.foldl (fun r v => r.register (Dialect.standard v)) r).get? v =
        some (Dialect.standard v) := by
  induction versions with
  | nil => exact fun r h => h.resolve_left List.not_mem_nil
  | cons w versions ih =>
      intro r h
      apply ih
      have hregister := get?_register r (Dialect.standard w) v
      by_cases hw : w = v
      · subst hw
        exact .inr (hregister.trans (if_pos rfl))
      · refine h.imp (fun hmem => ?_) fun hr => (hregister.trans (if_neg hw)).trans hr
        exact (List.mem_cons.mp hmem).resolve_left fun heq => hw heq.symm

/-- Registering standard dialects: what is found is standard, if what was there is. -/
theorem eq_standard_of_foldl_register (versions : List Version) (v : Version) : ∀ r : Registry,
    (∀ d, r.get? v = some d → d = Dialect.standard v) →
      ∀ d, (versions.foldl (fun r v => r.register (Dialect.standard v)) r).get? v = some d →
        d = Dialect.standard v := by
  induction versions with
  | nil => exact fun r h => h
  | cons w versions ih =>
      intro r h
      refine ih _ fun d hd => ?_
      rw [get?_register] at hd
      split at hd
      next hw =>
        cases hd
        exact congrArg Dialect.standard hw
      next => exact h d hd

/-- **The standard registry has the standard dialect of each known version.** -/
theorem resolve_standard {v : Version} (hv : v ∈ Version.known) :
    standard.resolve v = .ok (Dialect.standard v) := by
  rw [resolve, standard, get?_foldl_register _ _ _ (.inl hv)]

/-- The standard registry has standard dialects only. -/
theorem eq_standard_of_resolve {v : Version} {d : Dialect} (h : standard.resolve v = .ok d) :
    d = Dialect.standard v := by
  unfold resolve at h
  split at h
  next d' hd =>
    cases h
    refine eq_standard_of_foldl_register Version.known v empty (fun d' hd' => ?_) d hd
    cases hd'
  next => cases h

end Dialect.Registry

end RubySyntax
