/-!
# Ranges of characters

A class of characters is a list of ranges of code points, both ends included.
-/

namespace StubWriter.Text

/-- The first and the last code point of a range. -/
abbrev CodeRange := Nat × Nat

/-- Whether one of the ranges holds `c`. -/
def covers (ranges : List CodeRange) (c : Char) : Bool :=
  ranges.any fun r => r.1 ≤ c.toNat && c.toNat ≤ r.2

end StubWriter.Text
