/-!
# Ranges of characters

A property of characters as the list of its ranges, in increasing order; both
ends of a range belong to it.
-/

namespace Localizer.Text

abbrev Ranges := List (Nat × Nat)

namespace Ranges

def contains (ranges : Ranges) (c : Char) : Bool :=
  ranges.any fun (lo, hi) => lo ≤ c.toNat && c.toNat ≤ hi

end Ranges

end Localizer.Text
