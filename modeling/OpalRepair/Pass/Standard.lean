import OpalRepair.Pass.AlignMetric
import OpalRepair.Pass.DropTimeFilter
import OpalRepair.Pass.ExpandTerms
import OpalRepair.Pass.FlagCount
import OpalRepair.Pass.QuoteKey
import OpalRepair.Pass.SortCall

/-!
# The standard passes

Later passes rely on the form that earlier ones leave behind.
-/

namespace OpalRepair

def standardPasses : List Pass :=
  [alignMetric, quoteKey, expandTerms, dropTimeFilter, sortCall, flagCount]

def passNames : List String := standardPasses.map Pass.name

end OpalRepair
