/-!
A class of characters is a list of ranges of code points, both ends included. A range that holds
part of the ASCII block is never listed: the classes answer for those characters by themselves.
-/
namespace SqlReview

abbrev CodeRanges := List (Nat × Nat)

def CodeRanges.holds (ranges : CodeRanges) (n : Nat) : Bool :=
  ranges.any fun (low, high) => low ≤ n && n ≤ high

end SqlReview
