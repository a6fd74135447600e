/-!
# Settings

The bounds a query has to respect and the schedule of its repair.
-/

namespace OpalRepair

structure Settings where
  maxStages : Nat := 20
  maxNestingDepth : Nat := 10
  maxSuggestions : Nat := 5
  passRounds : Nat := 1
  disabledPasses : List String := []
  deriving DecidableEq, Repr

end OpalRepair
