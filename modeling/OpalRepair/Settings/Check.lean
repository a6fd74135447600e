import OpalRepair.Error
import OpalRepair.Pass.Standard
import OpalRepair.Settings.Basic

/-!
# Usable settings

Bounds are positive and only standard passes can be disabled.
-/

namespace OpalRepair.Settings

def check (settings : Settings) : Except Error Unit :=
  if settings.maxStages = 0 then .error (.settings (.zero "max_stages"))
  else if settings.maxNestingDepth = 0 then .error (.settings (.zero "max_nesting_depth"))
  else if settings.passRounds = 0 then .error (.settings (.zero "pass_rounds"))
  else match settings.disabledPasses.find? (!passNames.contains ·) with
    | some name => .error (.settings (.unknownPass name passNames))
    | none => .ok ()

end OpalRepair.Settings
