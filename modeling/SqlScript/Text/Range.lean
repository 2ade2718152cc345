/-!
# Text/Range — sets of characters given as ranges of code points

A character property of Unicode is a list of ranges, first and last code point included.
-/

namespace SqlScript.Text

/-- A range of code points, both ends included. -/
abbrev CodeRange := Nat × Nat

/-- A character whose code point lies in one of the ranges. -/
def inRanges (ranges : List CodeRange) (c : Char) : Bool :=
  ranges.any fun r => r.1 ≤ c.toNat && c.toNat ≤ r.2

theorem inRanges_iff {ranges : List CodeRange} {c : Char} :
    inRanges ranges c = true ↔ ∃ r ∈ ranges, r.1 ≤ c.toNat ∧ c.toNat ≤ r.2 := by
  simp [inRanges]

/-- A character of the seven-bit range, where the properties below are decided without a table. -/
def isAscii (c : Char) : Bool := c.toNat < 0x80

end SqlScript.Text
