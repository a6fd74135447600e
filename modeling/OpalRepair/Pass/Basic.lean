import OpalRepair.Text.Blank

/-!
# Passes

A pass mends one kind of mistake. It returns the mended query and, if it changed something, an
account of what it changed and why.
-/

namespace OpalRepair

structure Change where
  found : String
  replacement : String
  deriving DecidableEq, Repr

structure Transformation where
  pass : String
  changes : List Change
  rationale : String
  deriving DecidableEq, Repr

def Change.description (change : Change) : String :=
  if change.replacement.isEmpty then "`" ++ change.found ++ "` (removed)"
  else "`" ++ change.found ++ "` to `" ++ change.replacement ++ "`"

def Transformation.explanation (transformation : Transformation) : String :=
  "Rewrote " ++ String.intercalate "; " (transformation.changes.map Change.description)
    ++ ": " ++ transformation.rationale

structure Outcome where
  query : String
  transformation : Option Transformation
  deriving DecidableEq, Repr

namespace Outcome

def unchanged (query : String) : Outcome := ⟨query, none⟩

def ofChanges (query pass : String) (changes : List Change) (rationale : String) : Outcome :=
  ⟨query, if changes.isEmpty then none else some ⟨pass, changes, rationale⟩⟩

def fired (outcome : Outcome) : Bool := outcome.transformation.isSome

end Outcome

/-- What is known about a query besides its text: the time window it will run over. -/
structure Context where
  timeWindow : Option String := none
  deriving DecidableEq, Repr

def Context.declaredWindow? (context : Context) : Option String :=
  (context.timeWindow.map fun window => String.ofList (Text.trim window.toList)).filter (!·.isEmpty)

structure Pass where
  name : String
  apply : Context → String → Outcome

end OpalRepair
