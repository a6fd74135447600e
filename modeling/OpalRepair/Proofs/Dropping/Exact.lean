import Mathlib
import OpalRepair.Proofs.Dropping.Grammar
import OpalRepair.Proofs.Dropping.Rejoin

/-!
# Which stages a time window drops

Under a declared time window the time filters of a query are dropped and all other stages stay in
their order, unless the query consists of time filters only.

Main statement: `dropTimeFilter_drops_time_filters`.
-/

namespace OpalRepair

open Query Text

/-! ## Declared windows -/

/-- A time window is declared unless it is blank. -/
def Context.Declares (context : Context) : Prop :=
  ∃ window ∈ context.timeWindow, ∃ c ∈ window.toList, isBlank c = false

theorem Context.declares_iff (context : Context) :
    context.Declares ↔ ∃ window, context.declaredWindow? = some window := by
  have htrim (window : List Char) : trim window = [] ↔ ∀ c ∈ window, isBlank c = true :=
    ⟨fun h => forall_of_trim_isEmpty (by rw [h]; rfl), trim_of_forall⟩
  cases hwindow : context.timeWindow with
  | none => simp [Declares, declaredWindow?, hwindow]
  | some window =>
      have hblank : (∃ c ∈ window.toList, isBlank c = false) ↔ trim window.toList ≠ [] := by
        rw [ne_eq, htrim]
        simp
      simp [Declares, declaredWindow?, hwindow, hblank, Option.filter_some]

namespace DropTimeFilter

instance : DecidablePred TimeFilter := fun text => decidable_of_iff _ (isTimeFilter_iff text)

theorem isRedundant_eq (stage : Stage) : isRedundant stage = decide (TimeFilter stage.text) := by
  rw [Bool.eq_iff_iff, isRedundant, isTimeFilter_iff, decide_eq_true_iff]

section Stages

variable (query : List Char)

theorem map_text_filter :
    ((layout query).stages.filter (!isRedundant ·)).map Stage.text =
        (split query).filter (¬ TimeFilter ·) ∧
      ((layout query).stages.filter isRedundant).map Stage.text =
        (split query).filter (TimeFilter ·) := by
  rw [split, List.filter_map, List.filter_map]
  constructor
  · congr 2
    funext stage
    simp [isRedundant_eq]
  · congr 2
    funext stage
    simp [isRedundant_eq]

theorem all_or_none_iff :
    (((layout query).stages.filter isRedundant).isEmpty ||
        ((layout query).stages.filter isRedundant).length == (layout query).stages.length) = true ↔
      (split query).filter (¬ TimeFilter ·) = split query ∨
        (split query).filter (¬ TimeFilter ·) = [] := by
  rw [Bool.or_eq_true, List.isEmpty_iff, beq_iff_eq, List.filter_eq_nil_iff,
    List.length_filter_eq_length_iff, List.filter_eq_self, List.filter_eq_nil_iff]
  simp [split, isRedundant_eq]

end Stages

section Outcome

variable {query : String}

theorem apply_eq_unchanged (window : String)
    (h : (split query.toList).filter (¬ TimeFilter ·) = split query.toList ∨
      (split query.toList).filter (¬ TimeFilter ·) = []) :
    apply window query = .unchanged query :=
  if_pos ((all_or_none_iff query.toList).mpr h)

theorem apply_eq_ofChanges (window : String)
    (h : ¬ ((split query.toList).filter (¬ TimeFilter ·) = split query.toList ∨
      (split query.toList).filter (¬ TimeFilter ·) = [])) :
    (apply window query).query.toList = remaining (layout query.toList) ∧
      (apply window query).transformation.map Transformation.changes =
        some (((split query.toList).filter (TimeFilter ·)).map fun stage =>
          ⟨String.ofList stage, ""⟩) := by
  rw [← all_or_none_iff] at h
  have hne : ((layout query.toList).stages.filter isRedundant).isEmpty = false := by
    rw [← Bool.not_eq_true]
    exact fun hempty => h (Bool.or_eq_true_iff.mpr (.inl hempty))
  have happly : apply window query = _ := if_neg h
  rw [happly, ← (map_text_filter query.toList).2]
  simp [Outcome.ofChanges, hne, Function.comp_def]

theorem apply_of_declared {context : Context} {window : String}
    (h : context.declaredWindow? = some window) (query : String) :
    dropTimeFilter.apply context query = apply window query := by
  simp only [dropTimeFilter, h]

theorem apply_of_undeclared {context : Context} (h : context.declaredWindow? = none)
    (query : String) : dropTimeFilter.apply context query = .unchanged query := by
  simp only [dropTimeFilter, h]

theorem fired_eq_false (context : Context)
    (h : (split query.toList).filter (¬ TimeFilter ·) = split query.toList ∨
      (split query.toList).filter (¬ TimeFilter ·) = []) :
    (dropTimeFilter.apply context query).fired = false := by
  cases hwindow : context.declaredWindow? with
  | none =>
      rw [apply_of_undeclared hwindow]
      rfl
  | some window =>
      rw [apply_of_declared hwindow, apply_eq_unchanged window h]
      rfl

theorem bodies_remaining {query : List Char}
    (hnamed : ∀ stage ∈ (layout query).stages, stage.verb?.isSome = true)
    (hback : ∀ stage ∈ (layout query).stages, stage.text.getLast? ≠ some '\\')
    (hne : (layout query).stages.filter (!isRedundant ·) ≠ []) :
    (layout (remaining (layout query))).stages.map Stage.body =
      ((layout query).stages.filter (!isRedundant ·)).map Stage.body := by
  rcases ((layout query).stages.filter (!isRedundant ·)).eq_nil_or_concat' with
    hnil | ⟨init, final, hkept⟩
  · exact absurd hnil hne
  obtain ⟨swallowed, gap, hlayout, hswallowed, -⟩ :=
    exists_layout_join (!isRedundant ·) hnamed hkept (rfl : remaining (layout query) = _)
  have hfinal : final ∈ (layout query).stages := by
    refine List.mem_of_mem_filter (p := (!isRedundant ·)) ?_
    rw [hkept]
    simp
  obtain rfl := hswallowed.resolve_right fun h => hback final hfinal h.2
  rw [hlayout, hkept]
  simp

theorem split_remaining {query : List Char}
    (hnamed : ∀ stage ∈ split query, (leadingName? stage).isSome = true)
    (hback : ∀ stage ∈ split query, stage.getLast? ≠ some '\\')
    (hne : (split query).filter (¬ TimeFilter ·) ≠ []) :
    split (remaining (layout query)) = (split query).filter (¬ TimeFilter ·) := by
  have htexts (stages : List Stage) : stages.map Stage.text = (stages.map Stage.body).map text := by
    rw [List.map_map]
    rfl
  rw [← (map_text_filter query).1] at hne ⊢
  rw [split, htexts, htexts, bodies_remaining (fun stage hstage => ?_)
    (fun stage hstage => hback stage.text (List.mem_map_of_mem hstage)) (by simpa using hne)]
  rw [Stage.verb?, Option.isSome_map]
  exact hnamed stage.text (List.mem_map_of_mem hstage)

end Outcome

end DropTimeFilter

/-- Under a declared time window exactly the time filters of a query are dropped and reported, unless
all of its stages are time filters, and a second run has nothing to drop.  Without one nothing
happens. -/
theorem dropTimeFilter_drops_time_filters (context : Context) (query : String) :
    let stages := split query.toList
    let kept := stages.filter (¬ DropTimeFilter.TimeFilter ·)
    let outcome := dropTimeFilter.apply context query
    (¬ context.Declares → outcome = .unchanged query) ∧
      (context.Declares → (∀ stage ∈ stages, (leadingName? stage).isSome = true) →
        (∀ stage ∈ stages, stage.getLast? ≠ some '\\') →
        (kept ≠ stages ∧ kept ≠ [] → split outcome.query.toList = kept ∧
          outcome.transformation.map Transformation.changes =
            some ((stages.filter (DropTimeFilter.TimeFilter ·)).map fun stage =>
              ⟨String.ofList stage, ""⟩)) ∧
        (kept = stages ∨ kept = [] → outcome = .unchanged query) ∧
        ∀ again, (dropTimeFilter.apply again outcome.query).fired = false) := by
  intro stages kept outcome
  cases hwindow : context.declaredWindow? with
  | none =>
      have hdeclares : ¬ context.Declares := by
        rw [context.declares_iff, hwindow]
        simp
      exact ⟨fun _ => DropTimeFilter.apply_of_undeclared hwindow query,
        fun h => absurd h hdeclares⟩
  | some window =>
      have hdeclares : context.Declares := context.declares_iff.mpr ⟨window, hwindow⟩
      have houtcome : outcome = DropTimeFilter.apply window query :=
        DropTimeFilter.apply_of_declared hwindow query
      refine ⟨fun h => absurd hdeclares h, fun _ hnamed hback => ?_⟩
      by_cases hsome : kept = stages ∨ kept = []
      · have hsame : outcome = .unchanged query :=
          houtcome.trans (DropTimeFilter.apply_eq_unchanged window hsome)
        refine ⟨fun h => absurd hsome (not_or.mpr h), fun _ => hsame, fun again => ?_⟩
        rw [hsame]
        exact DropTimeFilter.fired_eq_false again hsome
      · obtain ⟨hquery, hchanges⟩ := DropTimeFilter.apply_eq_ofChanges window hsome
        have hsplit : split outcome.query.toList = kept := by
          rw [houtcome, hquery]
          exact DropTimeFilter.split_remaining hnamed hback (not_or.mp hsome).2
        refine ⟨fun _ => ⟨hsplit, by rw [houtcome, hchanges]⟩, fun h => absurd h hsome,
          fun again => DropTimeFilter.fired_eq_false again (.inl ?_)⟩
        rw [hsplit, List.filter_filter]
        simp only [Bool.and_self]
        rfl

/-- A leading and a trailing filter and one in between are dropped; a blank window drops nothing. -/
theorem dropTimeFilter_drops_time_filters_around :
    let query := "filter time > @'2 days ago' | limit 1 |filter _time>=now()-1h| | sort asc(a) | " ++
      "filter end_time > query_end_time() - 0.5 d |"
    let outcome := dropTimeFilter.apply ⟨some "1h"⟩ query
    split outcome.query.toList = ["limit 1".toList, "sort asc(a)".toList] ∧
      (dropTimeFilter.apply ⟨some "2d"⟩ outcome.query).fired = false ∧
      dropTimeFilter.apply ⟨some " "⟩ query = .unchanged query := by
  intro query outcome
  have hstages : split query.toList = ["filter time > @'2 days ago'".toList, "limit 1".toList,
      "filter _time>=now()-1h".toList, "sort asc(a)".toList,
      "filter end_time > query_end_time() - 0.5 d".toList] := by
    decide +kernel
  have hblank : ¬ Context.Declares ⟨some " "⟩ := by
    rw [Context.declares_iff, show Context.declaredWindow? ⟨some " "⟩ = none by decide]
    simp
  have hdeclares : Context.Declares ⟨some "1h"⟩ := ⟨"1h", rfl, '1', by decide, by decide⟩
  obtain ⟨hsome, -, hagain⟩ := (dropTimeFilter_drops_time_filters ⟨some "1h"⟩ query).2 hdeclares
    (by rw [hstages]; decide) (by rw [hstages]; decide)
  have hsplit := (hsome (by rw [hstages]; decide)).1
  refine ⟨hsplit.trans ?_, hagain _, (dropTimeFilter_drops_time_filters ⟨some " "⟩ query).1 hblank⟩
  rw [hstages]
  decide

end OpalRepair
