import OpalRepair.Check
import OpalRepair.Report.Basic
import OpalRepair.Schedule
import OpalRepair.Settings.Check

/-!
# Repairers

A repairer holds checked settings and the schedule they ask for. It repairs a query and then judges
what came out.
-/

namespace OpalRepair

structure Repairer where
  settings : Settings
  schedule : Schedule

namespace Repairer

def scheduleFor (settings : Settings) : Schedule :=
  { settings.disabledPasses.foldl Schedule.without ⟨standardPasses, 1⟩ with
    rounds := settings.passRounds }

def ofSettings (settings : Settings) : Except Error Repairer := do
  settings.check
  let schedule := scheduleFor settings
  schedule.check
  return ⟨settings, schedule⟩

def validate (repairer : Repairer) (context : Context) (query : String) : Report :=
  let run := repairer.schedule.run context query
  .ofVerdict (checkStructure repairer.settings run.query)
    (if run.changed then some run.query else none)
    (run.transformations.map Transformation.explanation)

end Repairer

end OpalRepair
