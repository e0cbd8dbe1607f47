/-! # Ranges of code points
Character properties beyond ASCII are tables of inclusive ranges of code points, in ascending
order. -/

namespace RegexTree.Unicode

/-- An inclusive range of code points. -/
abbrev Range := Nat × Nat

/-- The character's code point lies in one of the ranges. -/
def inRanges (ranges : List Range) (c : Char) : Bool :=
  ranges.any fun r => r.1 ≤ c.toNat && c.toNat ≤ r.2

end RegexTree.Unicode
