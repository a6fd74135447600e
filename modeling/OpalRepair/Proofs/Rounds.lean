import Mathlib
import OpalRepair.Pass.ExpandTerms
import OpalRepair.Schedule

/-!
# Rounds

Nothing is known here about the passes of a schedule.  A run that stops early has reached a text on
which every further round is quiet, so it makes no difference whether the rounds behind it are run
or not: runs of several rounds can be cut anywhere.

Main statement: `rounds_compose`.
-/

namespace OpalRepair

/-! ## Runs up to their logs -/

namespace Run

structure SameResult (a b : Run) : Prop where
  query : a.query = b.query
  transformations : a.transformations = b.transformations

namespace SameResult

variable {a b c d : Run}

theorem refl (a : Run) : a.SameResult a := ⟨rfl, rfl⟩

theorem symm (h : a.SameResult b) : b.SameResult a := ⟨h.query.symm, h.transformations.symm⟩

theorem trans (hab : a.SameResult b) (hbc : b.SameResult c) : a.SameResult c :=
  ⟨hab.query.trans hbc.query, hab.transformations.trans hbc.transformations⟩

theorem append (hab : a.SameResult b) (hcd : c.SameResult d) :
    (a.append c).SameResult (b.append d) :=
  ⟨hcd.query, by simp [Run.append, hab.transformations, hcd.transformations]⟩

theorem changed (h : a.SameResult b) : a.changed = b.changed := by
  rw [Run.changed, Run.changed, h.transformations]

end SameResult

theorem append_assoc (a b c : Run) : (a.append b).append c = a.append (b.append c) := by
  simp [append]

theorem append_start (run : Run) : run.append { query := run.query } = run := by
  simp [append]

theorem changed_eq_false {run : Run} :
    run.changed = false ↔ run.transformations = [] := by
  simp [changed]

theorem step_append (context : Context) (first run : Run) (pass : Pass) :
    (first.append run).step context pass = first.append (run.step context pass) := by
  simp only [step, append, List.append_assoc]
  rfl

theorem step_silent {context : Context} {run : Run} {pass : Pass}
    (h : (pass.apply context run.query).transformation = none) :
    (run.step context pass).SameResult run := by
  constructor <;> simp [step, Outcome.fired, h]

end Run

/-! ## One round -/

namespace Schedule

variable {context : Context} {passes : List Pass} {query : String}

theorem foldl_step (context : Context) (passes : List Pass) (run : Run) :
    passes.foldl (Run.step context) run = run.append (round context passes run.query) := by
  have happend (first run : Run) : passes.foldl (Run.step context) (first.append run) =
      first.append (passes.foldl (Run.step context) run) := by
    induction passes generalizing run with
    | nil => rfl
    | cons pass passes ih => rw [List.foldl_cons, Run.step_append, ih, List.foldl_cons]
  conv_lhs => rw [← run.append_start]
  exact happend run _

theorem round_cons (context : Context) (pass : Pass) (passes : List Pass) (query : String) :
    round context (pass :: passes) query =
      (Run.step context { query } pass).append
        (round context passes (Run.step context { query } pass).query) :=
  foldl_step context passes _

theorem silent_of_quiet (h : (round context passes query).changed = false) :
    ∀ pass ∈ passes, (pass.apply context query).transformation = none := by
  induction passes with
  | nil => simp
  | cons pass passes ih =>
      rw [round_cons, Run.changed_eq_false, Run.append, List.append_eq_nil_iff] at h
      obtain ⟨hfirst, hrest⟩ := h
      have hsilent : (pass.apply context query).transformation = none := by
        simpa [Run.step] using hfirst
      -- So the passes behind it still read the text that the round started with.
      rw [(Run.step_silent hsilent).query] at hrest
      exact List.forall_mem_cons.mpr ⟨hsilent, ih (Run.changed_eq_false.mpr hrest)⟩

theorem round_of_silent (h : ∀ pass ∈ passes, (pass.apply context query).transformation = none) :
    round context passes query = ⟨query, [], passes.map fun pass => (pass.name, false)⟩ := by
  induction passes with
  | nil => rfl
  | cons pass passes ih =>
      obtain ⟨hpass, hpasses⟩ := List.forall_mem_cons.mp h
      rw [round_cons, (Run.step_silent hpass).query, ih hpasses]
      simp [Run.append, Run.step, Outcome.fired, hpass]

theorem round_query_of_quiet (h : (round context passes query).changed = false) :
    (round context passes query).query = query := by
  rw [round_of_silent (silent_of_quiet h)]

/-! ## Several rounds -/

theorem runRounds_of_quiet (h : (round context passes query).changed = false) (more : Nat) :
    runRounds context passes more query = round context passes query := by
  cases more with
  | zero => rfl
  | succ more => rw [runRounds, h]; rfl

theorem runRounds_of_changed (h : (round context passes query).changed = true) (more : Nat) :
    runRounds context passes (more + 1) query =
      (round context passes query).append
        (runRounds context passes more (round context passes query).query) := by
  rw [runRounds, if_pos h]

theorem runRounds_of_not_changed {more : Nat}
    (h : (runRounds context passes more query).changed = false) :
    (round context passes query).changed = false ∧
      runRounds context passes more query = round context passes query := by
  cases hround : (round context passes query).changed with
  | false => exact ⟨rfl, runRounds_of_quiet hround more⟩
  | true =>
      cases more with
      | zero => simp [runRounds, hround] at h
      | succ more =>
          rw [runRounds_of_changed hround, Run.changed_eq_false, Run.append,
            List.append_eq_nil_iff] at h
          simp [Run.changed_eq_false.mpr h.1] at hround

theorem append_runRounds_of_quiet (h : (round context passes query).changed = false) (more : Nat)
    {run : Run} (hrun : run.query = query) :
    (run.append (runRounds context passes more query)).SameResult run := by
  rw [runRounds_of_quiet h]
  refine ⟨?_, ?_⟩
  · exact (round_query_of_quiet h).trans hrun.symm
  · simp [Run.append, Run.changed_eq_false.mp h]

theorem runRounds_cut_of_quiet (h : (round context passes query).changed = false)
    (total first second : Nat) :
    (runRounds context passes total query).SameResult
      ((runRounds context passes first query).append
        (runRounds context passes second (runRounds context passes first query).query)) := by
  rw [runRounds_of_quiet h total, runRounds_of_quiet h first, round_query_of_quiet h]
  exact (append_runRounds_of_quiet h second (round_query_of_quiet h)).symm

theorem runRounds_add (context : Context) (passes : List Pass) (first second : Nat)
    (query : String) :
    (runRounds context passes (first + 1 + second) query).SameResult
      ((runRounds context passes first query).append
        (runRounds context passes second (runRounds context passes first query).query)) := by
  induction first generalizing query with
  | zero =>
      cases hround : (round context passes query).changed with
      | false => exact runRounds_cut_of_quiet hround _ _ _
      | true =>
          rw [Nat.zero_add, Nat.add_comm, runRounds_of_changed hround]
          exact .refl _
  | succ first ih =>
      cases hround : (round context passes query).changed with
      | false => exact runRounds_cut_of_quiet hround _ _ _
      | true =>
          rw [show first + 1 + 1 + second = first + 1 + second + 1 by omega,
            runRounds_of_changed hround, runRounds_of_changed hround, Run.append_assoc]
          exact .append (.refl _) (ih _)

theorem run_add (context : Context) (passes : List Pass) (query : String) {first second : Nat}
    (hfirst : 1 ≤ first) (hsecond : 1 ≤ second) :
    (run ⟨passes, first + second⟩ context query).SameResult
      ((run ⟨passes, first⟩ context query).append
        (run ⟨passes, second⟩ context (run ⟨passes, first⟩ context query).query)) := by
  have hrounds : first + second - 1 = first - 1 + 1 + (second - 1) := by omega
  have hadd := runRounds_add context passes (first - 1) (second - 1) query
  rwa [← hrounds] at hadd

theorem quiet_of_same_transformations {rounds : Nat} (hrounds : 1 ≤ rounds)
    (h : (run ⟨passes, rounds⟩ context query).transformations =
      (run ⟨passes, rounds + 1⟩ context query).transformations) :
    (round context passes (run ⟨passes, rounds⟩ context query).query).changed = false := by
  have hadd := (run_add context passes query hrounds (le_refl 1)).transformations
  rw [← h] at hadd
  exact Run.changed_eq_false.mpr (List.self_eq_append_right.mp hadd)

/-- Rounds in a row are rounds behind rounds, for whatever passes: the text is the one that the
second run leaves, the transformations are those of both. So once a further round reports nothing
new, no number of rounds changes the text. -/
theorem rounds_compose (context : Context) (passes : List Pass) (query : String) :
    (∀ first second : Nat, 1 ≤ first → 1 ≤ second →
      let begun := run ⟨passes, first⟩ context query
      let continued := run ⟨passes, second⟩ context begun.query
      let whole := run ⟨passes, first + second⟩ context query
      whole.query = continued.query ∧
        whole.transformations = begun.transformations ++ continued.transformations) ∧
    ∀ rounds : Nat, 1 ≤ rounds →
      (run ⟨passes, rounds⟩ context query).transformations =
        (run ⟨passes, rounds + 1⟩ context query).transformations →
      ∀ more : Nat, (run ⟨passes, rounds + more⟩ context query).query =
        (run ⟨passes, rounds⟩ context query).query := by
  refine ⟨fun first second hfirst hsecond => ?_, fun rounds hrounds hsame more => ?_⟩
  · have hadd := run_add context passes query hfirst hsecond
    exact ⟨hadd.query, hadd.transformations⟩
  · cases more with
    | zero => rfl
    | succ more =>
        have hquiet := quiet_of_same_transformations hrounds hsame
        have hadd := run_add context passes query hrounds (Nat.le_add_left 1 more)
        exact hadd.query.trans (append_runRounds_of_quiet hquiet more rfl).query

/-- The text of the first search hides the second one, which a second round finds; a third round
finds nothing. -/
theorem rounds_compose_hidden :
    let query := "a ~ <b' c> or a ~ <d e>"
    let once := run ⟨[expandTerms], 1⟩ {} query
    let twice := run ⟨[expandTerms], 2⟩ {} query
    (twice.query = (run ⟨[expandTerms], 1⟩ {} once.query).query ∧
      twice.transformations =
        once.transformations ++ (run ⟨[expandTerms], 1⟩ {} once.query).transformations) ∧
    once.query ≠ twice.query ∧
    ∀ more : Nat, (run ⟨[expandTerms], 2 + more⟩ {} query).query = twice.query := by
  intro query once twice
  obtain ⟨hcompose, hfixed⟩ := rounds_compose {} [expandTerms] query
  refine ⟨hcompose 1 1 (le_refl 1) (le_refl 1), by decide, ?_⟩
  exact hfixed 2 (by omega) (by decide)

end Schedule

end OpalRepair
