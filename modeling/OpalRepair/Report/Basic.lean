import OpalRepair.Error

/-!
# Reports

What the author of a query is told: whether it is accepted, what was repaired, and what is wrong.
-/

namespace OpalRepair

structure Report where
  isValid : Bool
  transformedQuery : Option String
  transformations : List String
  errorMessage : Option String
  deriving DecidableEq, Repr

namespace Report

def ofVerdict (verdict : Except Error Unit) (transformedQuery : Option String)
    (transformations : List String) : Report :=
  match verdict with
  | .ok () => ⟨true, transformedQuery, transformations, none⟩
  | .error error => ⟨false, transformedQuery, transformations, some error.message⟩

def effectiveQuery (report : Report) (query : String) : String :=
  report.transformedQuery.getD query

def wasTransformed (report : Report) : Bool := report.transformedQuery.isSome

def explanation (report : Report) : String :=
  String.intercalate "\n" report.transformations

end Report

end OpalRepair
