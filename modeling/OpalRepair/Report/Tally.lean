import OpalRepair.Decimal.Text
import OpalRepair.Report.Basic

/-!
# Tallies

Counters over many reports, and the rates they give.
-/

namespace OpalRepair

structure Tally where
  total : Nat := 0
  valid : Nat := 0
  invalid : Nat := 0
  fixed : Nat := 0
  fixedValid : Nat := 0
  transformations : Nat := 0
  deriving DecidableEq, Repr

structure Rate where
  part : Nat
  whole : Nat
  deriving DecidableEq, Repr

/-- The decimal text of a rate in double precision; nothing out of nothing is zero. -/
def Rate.text (rate : Rate) : String :=
  if rate.whole = 0 then "0.0"
  else Decimal.floatText (Float.ofNat rate.part / Float.ofNat rate.whole)

namespace Tally

def ofReport (report : Report) : Tally where
  total := 1
  valid := report.isValid.toNat
  invalid := (!report.isValid).toNat
  fixed := report.wasTransformed.toNat
  fixedValid := (report.wasTransformed && report.isValid).toNat
  transformations := report.transformations.length

def add (a b : Tally) : Tally where
  total := a.total + b.total
  valid := a.valid + b.valid
  invalid := a.invalid + b.invalid
  fixed := a.fixed + b.fixed
  fixedValid := a.fixedValid + b.fixedValid
  transformations := a.transformations + b.transformations

def ofReports (reports : List Report) : Tally :=
  reports.foldr (fun report => add (ofReport report)) {}

def averageTransformations (tally : Tally) : Rate := ⟨tally.transformations, tally.total⟩

def fixRate (tally : Tally) : Rate := ⟨tally.fixedValid, tally.fixed⟩

def validRate (tally : Tally) : Rate := ⟨tally.valid, tally.total⟩

end Tally

end OpalRepair
