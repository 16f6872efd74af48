/-!
# Ranges of numbers

Tables of character properties are lists of ranges in increasing order, in
which a number is looked for from the front (`inRanges`).
-/

namespace TreeCompare

/-- Whether `n` lies in one of the increasing `ranges`. -/
def inRanges (n : Nat) : List (Nat × Nat) → Bool
  | [] => false
  | (low, high) :: ranges => if n < low then false else n ≤ high || inRanges n ranges

end TreeCompare
