/-!
# Tables of code points

A property of characters is given as a list of ranges of code points, ascending
and with both ends included.
-/

namespace KafkaScript.Text

/-- Whether a number lies in one of the ranges of an ascending table. The
search ends at the first range that reaches the number. -/
def inRanges (n : Nat) : List (Nat × Nat) → Bool
  | [] => false
  | (lo, hi) :: rest => if n ≤ hi then lo ≤ n else inRanges n rest

end KafkaScript.Text
