/-
  RubySyntax.Text.CharSet
  ───────────────────────
  **SETS OF CHARACTERS, WRITTEN BY THEIR BOUNDARIES.**

  A set is a rising list of code points at which membership flips: outside before the first,
  inside from the first to just before the second, outside again, and so on.  The tables of the
  Unicode properties that the library consults are written in this form.
-/

namespace RubySyntax.Text

/-- A set of characters, given by the code points at which membership flips. -/
structure CharSet where
  /-- The boundaries, rising; the first one enters the set. -/
  bounds : List Nat

namespace CharSet

/-- A character is inside when an odd number of boundaries lie at or before it. -/
def contains (set : CharSet) (c : Char) : Bool :=
  (set.bounds.takeWhile (· ≤ c.toNat)).length % 2 == 1

end CharSet

/-- The characters with the property `White_Space`. -/
def CharSet.whiteSpace : CharSet := ⟨[
    0x9, 0xE, 0x20, 0x21, 0x85, 0x86, 0xA0, 0xA1, 0x1680, 0x1681, 0x2000, 0x200B, 0x2028, 0x202A,
    0x202F, 0x2030, 0x205F, 0x2060, 0x3000, 0x3001]⟩

/-- The connector punctuation `Pc`, of which the low line is one. -/
def CharSet.connector : CharSet := ⟨[
    0x5F, 0x60, 0x203F, 0x2041, 0x2054, 0x2055, 0xFE33, 0xFE35, 0xFE4D, 0xFE50, 0xFF3F, 0xFF40]⟩

/-- The two characters with the property `Join_Control`. -/
def CharSet.joinControl : CharSet := ⟨[0x200C, 0x200E]⟩

end RubySyntax.Text
