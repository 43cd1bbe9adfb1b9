/-
  RubySyntax.Proofs.Report
  ────────────────────────
  **THE DIAGNOSTICS OF A PROGRAM ARE IN ORDER, BUT FOR ONE EXIT.**

  Reading a program has three exits.  Where the grammar fails and where a tree comes out, the
  diagnostics are sorted by where they begin.  Where the text cannot be split into tokens they are
  passed on as they were found, and that order is the order of their beginnings unless the scan
  failed in a literal without an end.

  Main results:
    • `Program.reports_out_of_order_iff` — when the diagnostics of a program are out of order.
-/
import RubySyntax.Proofs.Token.Report
import RubySyntax.Program

namespace RubySyntax

theorem Diagnostic.ordered_sortByStart (ds : List Diagnostic) : Ordered (sortByStart ds) := by
  have htrans : ∀ a b c : Diagnostic, decide (a.span.start ≤ b.span.start) = true →
      decide (b.span.start ≤ c.span.start) = true → decide (a.span.start ≤ c.span.start) = true := by
    simp only [decide_eq_true_eq]
    exact fun a b c => Nat.le_trans
  have htotal : ∀ a b : Diagnostic,
      (decide (a.span.start ≤ b.span.start) || decide (b.span.start ≤ a.span.start)) = true := by
    simp only [Bool.or_eq_true, decide_eq_true_eq]
    exact fun a b => Nat.le_total _ _
  exact (List.pairwise_mergeSort htrans htotal ds).imp of_decide_eq_true

namespace Program

/-- A program that cannot be split into tokens has the diagnostics of the scan; those of any other
are in order. -/
theorem read_reports (version : Version) (text : String) :
    Diagnostic.Ordered (read version text).2 ∨
      (∃ abort, (Token.lex text).1 = .error abort ∧ (read version text).1 = .error abort) ∧
        (read version text).2 = (Token.lex text).2 := by
  unfold read
  split
  next abort found hlex =>
    rw [hlex]
    exact .inr ⟨⟨abort, rfl, rfl⟩, rfl⟩
  next lexed found hlex =>
    left
    split
    · exact Diagnostic.ordered_sortByStart _
    · exact Diagnostic.ordered_sortByStart _

/-- **The diagnostics of a program are out of order exactly if the scan failed in a literal that
has no end, behind whose opening quote something was reported.**  Then the diagnostic about the
literal is the last one, and the others are in order. -/
theorem reports_out_of_order_iff (version : Version) (text : String) :
    ¬ Diagnostic.Ordered (read version text).2 ↔
      ∃ fault span, (read version text).1 = .error ⟨fault.message, some span⟩ ∧
        Token.OutOfOrder fault span (read version text).2 := by
  constructor
  · intro hout
    obtain ⟨⟨abort, hlex, hread⟩, hfound⟩ := (read_reports version text).resolve_left hout
    rw [hfound] at hout ⊢
    obtain ⟨fault, span, habort, hreports⟩ := (Token.lex_reports text).resolve_left hout
    refine ⟨fault, span, ?_, hreports⟩
    rw [hlex, Except.error.injEq] at habort
    rw [hread, habort]
  · rintro ⟨fault, span, -, hreports⟩
    exact hreports.not_ordered

/-- The escape begins at offset 1 and is reported first, the string begins at offset 0. -/
example : (read ⟨3, 4⟩ "\x22\\u\x7bzz\x7d").2.map (·.span.start) = [1, 0] := by decide +kernel

end Program

end RubySyntax
