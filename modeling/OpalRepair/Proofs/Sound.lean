import Mathlib
import OpalRepair.Pass.Standard
import OpalRepair.Proofs.Clause.Pass
import OpalRepair.Proofs.Rounds

/-!
# Sound passes

A pass is sound if it signs its transformations with its own name and changes nothing without one.
The standard passes are.  In a run of sound passes the transformations tell which of them have
fired, and one that has not can be left out.
-/

namespace OpalRepair

open Query

structure Outcome.Sound (outcome : Outcome) (name query : String) : Prop where
  signed : ∀ transformation ∈ outcome.transformation, transformation.pass = name
  silent : outcome.transformation = none → outcome = .unchanged query

def Pass.Sound (pass : Pass) : Prop :=
  ∀ context query, (pass.apply context query).Sound pass.name query

namespace Outcome

theorem sound_unchanged (name query : String) : (unchanged query).Sound name query :=
  ⟨by simp [unchanged], fun _ => rfl⟩

theorem sound_ofChanges {text name query : String} {changes : List Change}
    (h : changes = [] → text = query) (rationale : String) :
    (ofChanges text name changes rationale).Sound name query := by
  cases changes with
  | nil => exact h rfl ▸ sound_unchanged name text
  | cons change changes => constructor <;> simp [ofChanges]

end Outcome

/-! ## The standard passes -/

namespace AlignMetric

theorem before_patch (query : List Char) : (patch query).before = query := by
  rw [patch]
  split
  · simp
  · simp [layout]

end AlignMetric

namespace QuoteKey

theorem before_patch (query : List Char) : (patch query).before = query := by
  simp [patch]

end QuoteKey

namespace ExpandTerms

theorem before_patch (query : List Char) : (patch query).before = query := by
  simp [patch]

end ExpandTerms

namespace SortCall

theorem before_patch (query : List Char) : (patch query).before = query := by
  simp [patch, layout]

end SortCall

theorem Pass.sound_ofPatch {patch : List Char → Patch} (h : ∀ query, (patch query).before = query)
    (name rationale : String) : (ofPatch name rationale patch).Sound := by
  intro context query
  refine Outcome.sound_ofChanges (fun hchanges => ?_) rationale
  rw [Patch.after_eq_before hchanges, h, String.ofList_toList]

theorem dropTimeFilter_sound : dropTimeFilter.Sound := by
  intro context query
  simp only [dropTimeFilter]
  cases context.declaredWindow? with
  | none => exact Outcome.sound_unchanged _ _
  | some window =>
      simp only [DropTimeFilter.apply]
      split
      · exact Outcome.sound_unchanged _ _
      · rename_i hredundant
        refine Outcome.sound_ofChanges (fun hchanges => absurd ?_ hredundant) _
        simp [List.map_eq_nil_iff.mp hchanges]

theorem FlagCount.edits_nil (layout : Layout) : edits layout [] = [] := by
  simp [edits, derive?]

theorem flagCount_sound : flagCount.Sound := by
  intro context query
  refine Outcome.sound_ofChanges (fun hchanges => ?_) _
  rw [List.map_eq_nil_iff.mp hchanges, FlagCount.edits_nil]
  exact String.ofList_toList

theorem standardPasses_sound : ∀ pass ∈ standardPasses, pass.Sound := by
  simp only [standardPasses, List.forall_mem_cons, List.not_mem_nil, false_imp_iff, implies_true,
    and_true]
  exact ⟨Pass.sound_ofPatch AlignMetric.before_patch _ _,
    Pass.sound_ofPatch QuoteKey.before_patch _ _,
    Pass.sound_ofPatch ExpandTerms.before_patch _ _, dropTimeFilter_sound,
    Pass.sound_ofPatch SortCall.before_patch _ _, flagCount_sound⟩

/-! ## Leaving out a silent pass -/

namespace Schedule

variable {context : Context} {passes : List Pass} {query name : String}

/-- If no transformation of a round is signed by a pass, the pass was silent on every text that it
was given, and the round goes on without it as with it. -/
theorem round_without (hsound : ∀ pass ∈ passes, pass.Sound)
    (h : ∀ transformation ∈ (round context passes query).transformations,
      transformation.pass ≠ name) :
    (round context (passes.filter (·.name != name)) query).SameResult
      (round context passes query) := by
  induction passes generalizing query with
  | nil => exact .refl _
  | cons pass passes ih =>
      obtain ⟨hpass, hpasses⟩ := List.forall_mem_cons.mp hsound
      rw [round_cons] at h ⊢
      simp only [Run.append, List.forall_mem_append] at h
      obtain ⟨hfirst, hrest⟩ := h
      by_cases hname : pass.name = name
      · have hsilent : (pass.apply context query).transformation = none := by
          refine Option.eq_none_iff_forall_not_mem.mpr fun transformation hmem => ?_
          have hsigned := (hpass context query).signed transformation hmem
          refine hfirst transformation ?_ (hsigned.trans hname)
          simp [Run.step, Option.mem_def.mp hmem]
        have hstep : (Run.step context { query } pass).SameResult { query } :=
          Run.step_silent hsilent
        rw [List.filter_cons_of_neg (by simp [hname]), hstep.query]
        rw [hstep.query] at hrest
        refine (ih hpasses hrest).trans ⟨rfl, ?_⟩
        simp [Run.append, hstep.transformations]
      · rw [List.filter_cons_of_pos (by simp [hname]), round_cons]
        exact .append (.refl _) (ih hpasses hrest)

theorem runRounds_without (hsound : ∀ pass ∈ passes, pass.Sound) {more : Nat}
    (h : ∀ transformation ∈ (runRounds context passes more query).transformations,
      transformation.pass ≠ name) :
    (runRounds context (passes.filter (·.name != name)) more query).SameResult
      (runRounds context passes more query) := by
  induction more generalizing query with
  | zero => exact round_without hsound h
  | succ more ih =>
      cases hround : (round context passes query).changed with
      | false =>
          rw [runRounds_of_quiet hround] at h ⊢
          have hsame := round_without hsound h
          rw [runRounds_of_quiet (hsame.changed.trans hround)]
          exact hsame
      | true =>
          rw [runRounds_of_changed hround] at h ⊢
          simp only [Run.append, List.forall_mem_append] at h
          have hsame := round_without hsound h.1
          rw [runRounds_of_changed (hsame.changed.trans hround), hsame.query]
          exact .append hsame (ih h.2)

theorem run_without {schedule : Schedule} (hsound : ∀ pass ∈ schedule.passes, pass.Sound)
    (h : ∀ transformation ∈ (schedule.run context query).transformations,
      transformation.pass ≠ name) :
    ((schedule.without name).run context query).SameResult (schedule.run context query) :=
  runRounds_without hsound h

end Schedule

end OpalRepair
