import OpalRepair.Error
import OpalRepair.Pass.Basic

/-!
# Schedules

Passes run one after the other, each on what the one before left. The whole sequence may run for
several rounds; a round in which nothing fires is the last.
-/

namespace OpalRepair

structure Schedule where
  passes : List Pass
  rounds : Nat := 1

/-- What a run made of a query: the text, the transformations in order, and for every pass
executed its name and whether it fired. -/
structure Run where
  query : String
  transformations : List Transformation := []
  log : List (String × Bool) := []
  deriving DecidableEq, Repr

namespace Run

def changed (run : Run) : Bool := !run.transformations.isEmpty

/-- Runs one more pass. Only a pass that fires changes the text. -/
def step (context : Context) (run : Run) (pass : Pass) : Run :=
  let outcome := pass.apply context run.query
  { query := if outcome.fired then outcome.query else run.query
    transformations := run.transformations ++ outcome.transformation.toList
    log := run.log ++ [(pass.name, outcome.fired)] }

def append (first second : Run) : Run where
  query := second.query
  transformations := first.transformations ++ second.transformations
  log := first.log ++ second.log

end Run

namespace Schedule

def names (schedule : Schedule) : List String := schedule.passes.map Pass.name

def without (schedule : Schedule) (name : String) : Schedule :=
  { schedule with passes := schedule.passes.filter (·.name != name) }

def repeatedName? (seen : List String) : List String → Option String
  | [] => none
  | name :: rest => if seen.contains name then some name else repeatedName? (name :: seen) rest

def check (schedule : Schedule) : Except Error Unit :=
  if schedule.rounds = 0 then .error (.settings .noRounds)
  else match repeatedName? [] schedule.names with
    | some name => .error (.settings (.repeatedPass name))
    | none => .ok ()

def round (context : Context) (passes : List Pass) (query : String) : Run :=
  passes.foldl (Run.step context) { query }

/-- At most `more` rounds behind the first. -/
def runRounds (context : Context) (passes : List Pass) : Nat → String → Run
  | 0, query => round context passes query
  | more + 1, query =>
    let first := round context passes query
    if first.changed then first.append (runRounds context passes more first.query) else first

/-- A schedule without rounds runs for one. -/
def run (schedule : Schedule) (context : Context) (query : String) : Run :=
  runRounds context schedule.passes (schedule.rounds - 1) query

end Schedule

end OpalRepair
