/-!
# Sets of characters

Character classes are given by ranges of code points, or by stretches: runs that take every
character or every second one, as the alternating upper and lower case letters of many scripts do.
-/

namespace Classwright.Text

/-- Whether a code point lies in one of the ranges, ends included. -/
def inRanges (ranges : List (Nat × Nat)) (n : Nat) : Bool :=
  ranges.any fun (first, last) => first ≤ n && n ≤ last

/-- The code points `first, first + step, …, last`. -/
structure Stretch where
  first : Nat
  last : Nat
  step : Nat
deriving Repr

/-- Whether a code point belongs to a stretch. -/
def Stretch.holds (s : Stretch) (n : Nat) : Bool :=
  s.first ≤ n && n ≤ s.last && (n - s.first) % s.step == 0

end Classwright.Text
