/-!
# Sets of characters given by ranges

A property of characters that comes from a standard is stored as a list of closed ranges of code
points.  `CharRanges.contains` asks whether a character lies in one of them.

* `CharRanges.contains_iff` : membership is membership in some range.
-/

namespace MarkupForms

/-- A set of characters, as a list of closed ranges of code points. -/
structure CharRanges where
  /-- First and last code point of each range. -/
  ranges : List (Nat × Nat)

namespace CharRanges

/-- Whether the character lies in one of the ranges. -/
def contains (s : CharRanges) (c : Char) : Bool :=
  s.ranges.any fun r => r.1 ≤ c.toNat && c.toNat ≤ r.2

theorem contains_iff (s : CharRanges) (c : Char) :
    s.contains c = true ↔ ∃ r ∈ s.ranges, r.1 ≤ c.toNat ∧ c.toNat ≤ r.2 := by
  simp [contains]

end CharRanges

end MarkupForms
