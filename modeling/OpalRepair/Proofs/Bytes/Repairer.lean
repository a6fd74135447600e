import Mathlib
import OpalRepair.Proofs.Bytes.Check
import OpalRepair.Proofs.Bytes.Count
import OpalRepair.Proofs.Bytes.Fragment
import OpalRepair.Proofs.Bytes.Metric
import OpalRepair.Proofs.Bytes.Stage
import OpalRepair.Repairer

/-!
# Repairing by byte offsets

A repairer that works on the bytes of a query.  Every slice it takes is checked to lie on character
boundaries, every index to be in range, every subtraction not to fall below zero and every
parenthesis it matches to stand outside literals; one check that fails leaves no result.

Main statement: no check ever fails, and the result is the one of the repairer on characters.
-/

namespace OpalRepair.Bytes

/-! ## Passes -/

structure CheckedPass where
  name : String
  result? : Context → String → Option Outcome

def checkedPasses : List CheckedPass :=
  [⟨alignMetric.name, fun _ => alignMetric?⟩, ⟨quoteKey.name, fun _ => quoteKey?⟩,
    ⟨expandTerms.name, fun _ => expandTerms?⟩, ⟨dropTimeFilter.name, dropTimeFilter?⟩,
    ⟨sortCall.name, fun _ => sortCall?⟩, ⟨flagCount.name, fun _ => flagCount?⟩]

def CheckedPass.Agrees (checked : CheckedPass) (pass : Pass) : Prop :=
  checked.name = pass.name ∧
    ∀ context query, checked.result? context query = some (pass.apply context query)

theorem checkedPasses_agree : List.Forall₂ CheckedPass.Agrees checkedPasses standardPasses :=
  .cons ⟨rfl, alignMetric?_eq⟩ <| .cons ⟨rfl, quoteKey?_eq⟩ <| .cons ⟨rfl, expandTerms?_eq⟩ <|
    .cons ⟨rfl, dropTimeFilter?_eq⟩ <| .cons ⟨rfl, sortCall?_eq⟩ <| .cons ⟨rfl, flagCount?_eq⟩ .nil

/-! ## Runs -/

def step? (context : Context) (run : Run) (pass : CheckedPass) : Option Run := do
  let outcome ← pass.result? context run.query
  some { query := if outcome.fired then outcome.query else run.query
         transformations := run.transformations ++ outcome.transformation.toList
         log := run.log ++ [(pass.name, outcome.fired)] }

def round? (context : Context) (passes : List CheckedPass) (query : String) : Option Run :=
  passes.foldlM (step? context) { query }

def runRounds? (context : Context) (passes : List CheckedPass) : Nat → String → Option Run
  | 0, query => round? context passes query
  | more + 1, query => do
    let first ← round? context passes query
    if first.changed then
      let rest ← runRounds? context passes more first.query
      some (first.append rest)
    else some first

def passesFor (settings : Settings) : List CheckedPass :=
  settings.disabledPasses.foldl (fun passes name => passes.filter (·.name != name)) checkedPasses

def validate? (settings : Settings) (context : Context) (query : String) : Option Report := do
  let more ← sub? (max settings.passRounds 1) 1
  let run ← runRounds? context (passesFor settings) more query
  let verdict ← checkStructure? settings run.query
  some (.ofVerdict verdict (if run.changed then some run.query else none)
    (run.transformations.map Transformation.explanation))

section Runs

variable {checked : List CheckedPass} {passes : List Pass}

theorem step?_eq {pass : CheckedPass} {of : Pass} (h : pass.Agrees of) (context : Context)
    (run : Run) : step? context run pass = some (run.step context of) := by
  rw [step?, h.2, h.1]
  rfl

theorem foldlM_step?_eq (h : List.Forall₂ CheckedPass.Agrees checked passes) (context : Context)
    (run : Run) :
    checked.foldlM (step? context) run = some (passes.foldl (Run.step context) run) := by
  induction h generalizing run with
  | nil => rfl
  | cons hpass _ ih =>
      rw [List.foldlM_cons, step?_eq hpass, Option.bind_eq_bind, Option.bind_some, ih]
      rfl

theorem runRounds?_eq (h : List.Forall₂ CheckedPass.Agrees checked passes) (context : Context)
    (more : Nat) (query : String) :
    runRounds? context checked more query =
      some (Schedule.runRounds context passes more query) := by
  have hround (query : String) :
      round? context checked query = some (Schedule.round context passes query) :=
    foldlM_step?_eq h context { query }
  induction more generalizing query with
  | zero => exact hround query
  | succ more ih =>
      rw [runRounds?, Schedule.runRounds, hround]
      simp only [Option.bind_eq_bind, Option.bind_some, ih]
      split <;> rfl

theorem filter_agrees (h : List.Forall₂ CheckedPass.Agrees checked passes) (name : String) :
    List.Forall₂ CheckedPass.Agrees (checked.filter (·.name != name))
      (passes.filter (·.name != name)) := by
  induction h with
  | nil => exact .nil
  | cons hpass _ ih =>
      rw [List.filter_cons, List.filter_cons, hpass.1]
      split
      · exact .cons hpass ih
      · exact ih

theorem passesFor_agree (settings : Settings) :
    List.Forall₂ CheckedPass.Agrees (passesFor settings)
      (Repairer.scheduleFor settings).passes := by
  have hfold (names : List String) (checked : List CheckedPass) (schedule : Schedule)
      (h : List.Forall₂ CheckedPass.Agrees checked schedule.passes) :
      List.Forall₂ CheckedPass.Agrees
        (names.foldl (fun passes name => passes.filter (·.name != name)) checked)
        (names.foldl Schedule.without schedule).passes := by
    induction names generalizing checked schedule with
    | nil => exact h
    | cons name names ih => exact ih _ _ (filter_agrees h name)
  exact hfold settings.disabledPasses checkedPasses ⟨standardPasses, 1⟩ checkedPasses_agree

end Runs

/-! ## The repairer -/

theorem ofSettings_eq {settings : Settings} {repairer : Repairer}
    (h : Repairer.ofSettings settings = .ok repairer) :
    repairer = ⟨settings, Repairer.scheduleFor settings⟩ := by
  rw [Repairer.ofSettings] at h
  cases hsettings : settings.check with
  | error error => simp [hsettings, bind, Except.bind] at h
  | ok =>
      cases hschedule : (Repairer.scheduleFor settings).check with
      | error error => simp [hsettings, hschedule, bind, Except.bind] at h
      | ok =>
          simp only [hsettings, hschedule, bind, Except.bind, pure, Except.pure] at h
          exact (Except.ok.inj h).symm

/-- Accepted settings never lead to a slice outside the query or between the bytes of a character,
to an index out of range, to a subtraction below zero or to the match of a parenthesis inside a
literal. -/
theorem validate_never_fails {settings : Settings} {repairer : Repairer}
    (h : Repairer.ofSettings settings = .ok repairer) (context : Context) (query : String) :
    validate? settings context query = some (repairer.validate context query) := by
  obtain rfl := ofSettings_eq h
  have hmore : sub? (max settings.passRounds 1) 1 = some (settings.passRounds - 1) := by
    rw [sub?_eq (by omega)]
    congr 1
    omega
  rw [validate?, hmore]
  simp only [Option.bind_eq_bind, Option.bind_some,
    runRounds?_eq (passesFor_agree settings), checkStructure?_eq]
  rfl

/-- A query with characters of two, three and four bytes in front of and inside everything that is
sliced. -/
theorem validate_never_fails_multibyte : ∃ repairer, Repairer.ofSettings {} = .ok repairer ∧
    validate? {} ⟨some "1h"⟩ "é | statsby a𝄞:count_if(\"→\" ~ <é é>), p:max( m( 'ü' ) ) | sort -é" =
      some (repairer.validate ⟨some "1h"⟩
        "é | statsby a𝄞:count_if(\"→\" ~ <é é>), p:max( m( 'ü' ) ) | sort -é") :=
  ⟨⟨{}, Repairer.scheduleFor {}⟩, rfl, validate_never_fails rfl _ _⟩

end OpalRepair.Bytes
