import Treeline.Text.CodePoints.Digits
import Treeline.Text.CodePoints.Letters
import Treeline.Text.CodePoints.Unprintable

/-!
# Sets of code points

Properties of characters that no formula describes are kept as lists of closed ranges in ascending
order. Membership is a search through the list.
-/

namespace Treeline.Text.CodePoints

/-- Whether one of the closed ranges holds the code point. -/
def contains (ranges : List (Nat × Nat)) (n : Nat) : Bool :=
  ranges.any fun r => r.1 ≤ n && n ≤ r.2

end Treeline.Text.CodePoints
