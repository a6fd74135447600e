/-!
# Sets of code points

The tables of character properties list their members as closed intervals of code points, in
ascending order.
-/

namespace OpalRepair.Text

abbrev Ranges := List (Nat × Nat)

namespace Ranges

def contains (ranges : Ranges) (c : Char) : Bool :=
  ranges.any fun range => range.1 ≤ c.toNat && c.toNat ≤ range.2

end Ranges

end OpalRepair.Text
