import OpalRepair.Settings.Basic

/-!
# Fields

The names of the settings in files, and settings of which only some are known.
-/

namespace OpalRepair

inductive Field where
  | maxStages
  | maxNestingDepth
  | maxSuggestions
  | passRounds
  | disabledPasses
  deriving DecidableEq, Repr

namespace Field

def all : List Field :=
  [.maxStages, .maxNestingDepth, .maxSuggestions, .passRounds, .disabledPasses]

def name : Field → String
  | .maxStages => "max_stages"
  | .maxNestingDepth => "max_nesting_depth"
  | .maxSuggestions => "max_suggestions"
  | .passRounds => "pass_rounds"
  | .disabledPasses => "disabled_passes"

def ofName? (name : String) : Option Field :=
  all.find? (·.name == name)

end Field

structure Draft where
  maxStages : Option Nat := none
  maxNestingDepth : Option Nat := none
  maxSuggestions : Option Nat := none
  passRounds : Option Nat := none
  disabledPasses : Option (List String) := none
  deriving DecidableEq, Repr

namespace Draft

def has (draft : Draft) : Field → Bool
  | .maxStages => draft.maxStages.isSome
  | .maxNestingDepth => draft.maxNestingDepth.isSome
  | .maxSuggestions => draft.maxSuggestions.isSome
  | .passRounds => draft.passRounds.isSome
  | .disabledPasses => draft.disabledPasses.isSome

def settings (draft : Draft) : Settings :=
  let standard : Settings := {}
  { maxStages := draft.maxStages.getD standard.maxStages
    maxNestingDepth := draft.maxNestingDepth.getD standard.maxNestingDepth
    maxSuggestions := draft.maxSuggestions.getD standard.maxSuggestions
    passRounds := draft.passRounds.getD standard.passRounds
    disabledPasses := draft.disabledPasses.getD standard.disabledPasses }

end Draft

end OpalRepair
