import Mathlib
import OpalRepair.Proofs.Bytes.Edit
import OpalRepair.Proofs.Clause.Basic
import OpalRepair.Schedule

/-!
# Passes on clauses

What a pass makes of clauses is again clauses.  If they are the same, it has not fired.
-/

namespace OpalRepair

open Query

namespace Patch

theorem after_eq_before {patch : Patch} (h : patch.changes = []) : patch.after = patch.before := by
  induction patch with
  | nil => rfl
  | cons piece patch ih =>
      cases piece with
      | keep text => simpa using ih h
      | change found replacement => simp at h

theorem changes_append (a b : Patch) : changes (a ++ b) = changes a ++ changes b :=
  List.filterMap_append

end Patch

namespace Pass

theorem fired_ofPatch (name rationale : String) (patch : List Char → Patch) (context : Context)
    (query : String) : ((ofPatch name rationale patch).apply context query).fired = true ↔
      (patch query.toList).changes ≠ [] := by
  cases hchanges : (patch query.toList).changes <;>
    simp [ofPatch, Outcome.ofChanges, Outcome.fired, hchanges]

/-- The pass makes `mended` of `clauses`, and fires only if they differ. -/
def Turns (pass : Pass) (context : Context) (clauses mended : List Clause) : Prop :=
  ∀ run : Run, run.query = String.ofList (Clause.render clauses) →
    (run.step context pass).query = String.ofList (Clause.render mended) ∧
      (mended = clauses → (run.step context pass).transformations = run.transformations)

variable {pass : Pass} {context : Context} {clauses mended : List Clause}

theorem turns_unchanged (h : pass.apply context (String.ofList (Clause.render clauses)) =
    .unchanged (String.ofList (Clause.render clauses))) : pass.Turns context clauses clauses := by
  intro run hrun
  simp [Run.step, hrun, h, Outcome.unchanged, Outcome.fired]

theorem turns_of_changes {name rationale : String} {changes : List Change}
    (h : pass.apply context (String.ofList (Clause.render clauses)) =
      .ofChanges (String.ofList (Clause.render mended)) name changes rationale)
    (hsilent : changes = [] → Clause.render mended = Clause.render clauses)
    (hquiet : mended = clauses → changes = []) : pass.Turns context clauses mended := by
  intro run hrun
  cases hchanges : changes with
  | nil => simp [Run.step, hrun, h, Outcome.ofChanges, Outcome.fired, hchanges, hsilent hchanges]
  | cons change changes =>
      have hne : mended ≠ clauses := by
        intro heq
        simp [hquiet heq] at hchanges
      simp [Run.step, hrun, h, Outcome.ofChanges, Outcome.fired, hchanges, hne]

theorem turns_ofPatch {name rationale : String} {patch : List Char → Patch}
    (hbefore : (patch (Clause.render clauses)).before = Clause.render clauses)
    (hafter : (patch (Clause.render clauses)).after = Clause.render mended)
    (hquiet : mended = clauses → (patch (Clause.render clauses)).changes = []) :
    (ofPatch name rationale patch).Turns context clauses mended := by
  have happly : (ofPatch name rationale patch).apply context (String.ofList (Clause.render clauses)) =
      .ofChanges (String.ofList (Clause.render mended)) name (patch (Clause.render clauses)).changes
        rationale := by
    simp [ofPatch, hafter]
  refine turns_of_changes happly (fun hchanges => ?_) hquiet
  rw [← hafter, Patch.after_eq_before hchanges, hbefore]

end Pass

end OpalRepair
