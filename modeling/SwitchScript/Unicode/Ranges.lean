/-!
# Sets of code points

A Unicode property is given as a list of ranges, each with both ends included.
-/

namespace SwitchScript.Unicode

/-- Whether one of the ranges holds the code point. -/
def inRanges (table : List (Nat × Nat)) (code : Nat) : Bool :=
  table.any fun range => decide (range.1 ≤ code) && decide (code ≤ range.2)

end SwitchScript.Unicode
