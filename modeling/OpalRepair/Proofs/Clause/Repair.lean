import Mathlib
import OpalRepair.Proofs.Clause.Flag
import OpalRepair.Proofs.Report

/-!
# Repair of clauses

One round mends every mistake that can be mended: what comes out is accepted and stays as it is.
-/

namespace OpalRepair

open Query

namespace Clause

/-! ## What a round makes of clauses -/

def mend (clause : Clause) : Clause :=
  SortCall.mendClause (ExpandTerms.mendClause (QuoteKey.mendClause clause))

def prepared (context : Context) (clauses : List Clause) : List Clause :=
  (DropTimeFilter.mendClauses context <|
    ((AlignMetric.mendClauses clauses).map QuoteKey.mendClause).map ExpandTerms.mendClause).map
      SortCall.mendClause

def repaired (context : Context) (clauses : List Clause) : List Clause :=
  FlagCount.mendClauses (prepared context clauses)

theorem dropTimeFilter_sublist (context : Context) (clauses : List Clause) :
    (DropTimeFilter.mendClauses context clauses).Sublist clauses := by
  rw [DropTimeFilter.mendClauses]
  split
  · exact List.Sublist.refl _
  · exact List.filter_sublist

theorem mem_prepared {context : Context} {clauses : List Clause} {clause : Clause}
    (h : clause ∈ prepared context clauses) :
    ∃ other ∈ AlignMetric.mendClauses clauses, clause = other.mend := by
  obtain ⟨sorted, hsorted, rfl⟩ := List.mem_map.mp h
  obtain ⟨expanded, hexpanded, rfl⟩ :=
    List.mem_map.mp ((dropTimeFilter_sublist context _).mem hsorted)
  obtain ⟨other, hother, rfl⟩ := List.mem_map.mp hexpanded
  exact ⟨other, hother, rfl⟩

theorem mem_alignMetric {clauses : List Clause} {clause : Clause}
    (h : clause ∈ AlignMetric.mendClauses clauses) :
    clause ∈ clauses ∨ clause.verb ≠ "make_col" := by
  rw [AlignMetric.mendClauses] at h
  split at h
  · exact .inl h
  · obtain ⟨other, hother, hclause⟩ := List.mem_flatMap.mp h
    unfold AlignMetric.splitClause at hclause
    split at hclause
    · right
      simp only [List.mem_cons, List.not_mem_nil, or_false] at hclause
      rcases hclause with rfl | rfl <;> decide
    · obtain rfl := List.mem_singleton.mp hclause
      exact .inl hother

theorem verb_mend (clause : Clause) : clause.mend.verb = clause.verb := by
  rcases clause with shape | shape | shape <;> cases shape <;> rfl

theorem Unflagged.mend {clause : Clause} (h : clause.Unflagged) : clause.mend.Unflagged := by
  intro hmakes
  obtain ⟨measured, rfl⟩ := h (clause.verb_mend ▸ hmakes)
  exact ⟨measured, rfl⟩

theorem round_query (context : Context) {clauses : List Clause}
    (h : ∀ clause ∈ clauses, clause.Unflagged) :
    (Schedule.round context standardPasses (String.ofList (render clauses))).query =
      String.ofList (render (repaired context clauses)) := by
  have hprepared : ∀ clause ∈ prepared context clauses, clause.Unflagged := by
    intro clause hclause
    obtain ⟨other, hother, rfl⟩ := mem_prepared hclause
    refine Unflagged.mend ?_
    rcases mem_alignMetric hother with hother | hverb
    · exact h other hother
    · exact fun hmakes => absurd hmakes hverb
  obtain ⟨halign, -⟩ :=
    alignMetric_turns context clauses ⟨String.ofList (render clauses), [], []⟩ rfl
  obtain ⟨hquote, -⟩ := quoteKey_turns context _ _ halign
  obtain ⟨hexpand, -⟩ := expandTerms_turns context _ _ hquote
  obtain ⟨hdrop, -⟩ := dropTimeFilter_turns context _ _ hexpand
  obtain ⟨hsort, -⟩ := sortCall_turns context _ _ hdrop
  exact (flagCount_turns context hprepared _ hsort).1

/-! ## Settled clauses -/

structure Settled (context : Context) (clauses : List Clause) : Prop where
  aligned : (clauses.any isAlign || clauses.countP isMetric != 1) = true
  fixed : ∀ clause ∈ clauses, QuoteKey.mendClause clause = clause ∧
    ExpandTerms.mendClause clause = clause ∧ SortCall.mendClause clause = clause
  timed : (context.declaredWindow?.isNone || !clauses.any isRecent || clauses.all isRecent) = true
  uncounted : ∀ clause ∈ clauses, FlagCount.counted? clause = none

variable {context : Context} {clauses : List Clause}

theorem Settled.turns (h : Settled context clauses) :
    ∀ pass ∈ standardPasses, pass.Turns context clauses clauses := by
  have hmap {mend : Clause → Clause} (hmend : ∀ clause ∈ clauses, mend clause = clause) :
      clauses.map mend = clauses := (List.map_congr_left hmend).trans (List.map_id' clauses)
  have halign := alignMetric_turns context clauses
  have hquote := quoteKey_turns context clauses
  have hexpand := expandTerms_turns context clauses
  have hdrop := dropTimeFilter_turns context clauses
  have hsort := sortCall_turns context clauses
  have hflag := flagCount_turns_self context h.uncounted
  rw [AlignMetric.mendClauses, if_pos h.aligned] at halign
  rw [hmap fun clause hclause => (h.fixed clause hclause).1] at hquote
  rw [hmap fun clause hclause => (h.fixed clause hclause).2.1] at hexpand
  rw [DropTimeFilter.mendClauses, if_pos h.timed] at hdrop
  rw [hmap fun clause hclause => (h.fixed clause hclause).2.2] at hsort
  simp only [standardPasses, List.forall_mem_cons, List.not_mem_nil, false_imp_iff, implies_true,
    and_true]
  exact ⟨halign, hquote, hexpand, hdrop, hsort, hflag⟩

theorem foldl_quiet {passes : List Pass}
    (h : ∀ pass ∈ passes, pass.Turns context clauses clauses) {run : Run}
    (hrun : run.query = String.ofList (render clauses)) :
    (passes.foldl (Run.step context) run).query = String.ofList (render clauses) ∧
      (passes.foldl (Run.step context) run).transformations = run.transformations := by
  induction passes generalizing run with
  | nil => exact ⟨hrun, rfl⟩
  | cons pass passes ih =>
      obtain ⟨hpass, hpasses⟩ := List.forall_mem_cons.mp h
      obtain ⟨hquery, hquiet⟩ := hpass run hrun
      rw [List.foldl_cons, ← hquiet rfl]
      exact ih hpasses hquery

theorem mem_flagCount {clause : Clause} (h : clause ∈ FlagCount.mendClauses clauses) :
    clause ∈ clauses ∨ ∃ shape, clause = .mended shape := by
  fun_induction FlagCount.mendClauses clauses with
  | case1 measured field clauses ih =>
      simp only [List.mem_cons] at h
      rcases h with rfl | rfl | h
      · exact .inr ⟨_, rfl⟩
      · exact .inr ⟨_, rfl⟩
      · exact (ih h).imp_left fun hmem => by simp [hmem]
  | case2 field clauses ih =>
      simp only [List.mem_cons] at h
      rcases h with rfl | rfl | h
      · exact .inr ⟨_, rfl⟩
      · exact .inr ⟨_, rfl⟩
      · exact (ih h).imp_left fun hmem => by simp [hmem]
  | case3 other clauses hmeasures hcount ih =>
      rcases List.mem_cons.mp h with rfl | h
      · exact .inl List.mem_cons_self
      · exact (ih h).imp_left fun hmem => List.mem_cons_of_mem other hmem
  | case4 => exact .inl h

theorem mend_fixed (clause : Clause) : QuoteKey.mendClause clause.mend = clause.mend ∧
    ExpandTerms.mendClause clause.mend = clause.mend ∧
      SortCall.mendClause clause.mend = clause.mend := by
  rcases clause with shape | shape | shape <;> cases shape <;>
    simp [mend, QuoteKey.mendClause, ExpandTerms.mendClause, SortCall.mendClause]

theorem flagCount_of_uncounted (h : ∀ clause ∈ clauses, FlagCount.counted? clause = none) :
    FlagCount.mendClauses clauses = clauses := by
  fun_induction FlagCount.mendClauses clauses with
  | case1 measured field clauses ih =>
      have hcounted := h (.mistake (.countIf field)) (by simp)
      simp [FlagCount.counted?] at hcounted
  | case2 field clauses ih =>
      have hcounted := h (.mistake (.countIf field)) (by simp)
      simp [FlagCount.counted?] at hcounted
  | case3 clause clauses hmeasures hcount ih =>
      rw [ih fun other hother => h other (List.mem_cons_of_mem clause hother)]
  | case4 => rfl

theorem eq_of_isRecent {clause : Clause} (h : clause.isRecent = true) :
    clause = .mistake .recent := by
  unfold isRecent at h
  split at h
  · rfl
  · simp at h

/-! ## What the passes keep -/

theorem countP_prepared {p : Clause → Bool} (hmend : ∀ clause : Clause,
      p (QuoteKey.mendClause clause) = p clause ∧ p (ExpandTerms.mendClause clause) = p clause ∧
        p (SortCall.mendClause clause) = p clause)
    (hrecent : ∀ clause, isRecent clause = true → p clause = false) (context : Context)
    (clauses : List Clause) :
    (prepared context clauses).countP p = (AlignMetric.mendClauses clauses).countP p := by
  have hdrop (clauses : List Clause) :
      (DropTimeFilter.mendClauses context clauses).countP p = clauses.countP p := by
    rw [DropTimeFilter.mendClauses]
    split
    · rfl
    · rw [List.countP_filter]
      refine List.countP_congr fun clause _ => ?_
      cases hclause : isRecent clause <;> simp [hrecent clause, hclause]
  have hmap {mend : Clause → Clause} (h : ∀ clause, p (mend clause) = p clause)
      (clauses : List Clause) : (clauses.map mend).countP p = clauses.countP p := by
    rw [List.countP_map]
    exact List.countP_congr fun clause _ => by simp [h clause]
  rw [prepared, hmap fun clause => (hmend clause).2.2, hdrop, hmap fun clause => (hmend clause).2.1,
    hmap fun clause => (hmend clause).1]

theorem countP_flagCount {p : Clause → Bool}
    (hcount : ∀ field, p (.mistake (.countIf field)) = false)
    (hmeasures : ∀ field, p (.clean (.measures field)) = false)
    (hmended : ∀ shape, shape ≠ .aligns → p (.mended shape) = false) (clauses : List Clause) :
    (FlagCount.mendClauses clauses).countP p = clauses.countP p := by
  fun_induction FlagCount.mendClauses clauses with
  | case1 measured field clauses ih => simp [hcount, hmeasures, hmended, ih]
  | case2 field clauses ih => simp [hcount, hmended, ih]
  | case3 clause clauses hmeasures hcount ih => rw [List.countP_cons, List.countP_cons, ih]
  | case4 => rfl

theorem any_of_countP {p : Clause → Bool} {a b : List Clause} (h : a.countP p = b.countP p) :
    a.any p = b.any p := by
  rw [Bool.eq_iff_iff, List.any_eq_true, List.any_eq_true, ← List.countP_pos_iff,
    ← List.countP_pos_iff, h]

theorem alignMetric_aligned (clauses : List Clause) :
    ((AlignMetric.mendClauses clauses).any isAlign ||
      (AlignMetric.mendClauses clauses).countP isMetric != 1) = true := by
  rw [AlignMetric.mendClauses]
  split
  · assumption
  · rename_i h
    simp only [Bool.or_eq_true, bne_iff_ne, ne_eq, not_or, not_not] at h
    have hpos : 0 < clauses.countP isMetric := by omega
    obtain ⟨metric, hmem, hmetric⟩ := List.countP_pos_iff.mp hpos
    have hsplit : Clause.mended .aligns ∈ AlignMetric.splitClause metric := by
      unfold isMetric at hmetric
      split at hmetric
      · simp [AlignMetric.splitClause]
      · simp at hmetric
    rw [Bool.or_eq_true]
    exact .inl (List.any_eq_true.mpr ⟨_, List.mem_flatMap.mpr ⟨metric, hmem, hsplit⟩, rfl⟩)

theorem repaired_aligned (context : Context) (clauses : List Clause) :
    ((repaired context clauses).any isAlign || (repaired context clauses).countP isMetric != 1) =
      true := by
  have hkept {p : Clause → Bool} (hp : p = isAlign ∨ p = isMetric) :
      (repaired context clauses).countP p = (AlignMetric.mendClauses clauses).countP p := by
    rw [repaired, countP_flagCount, countP_prepared]
    · intro clause
      rcases clause with shape | shape | shape <;> cases shape <;> rcases hp with rfl | rfl <;>
        exact ⟨rfl, rfl, rfl⟩
    · intro clause hclause
      obtain rfl := eq_of_isRecent hclause
      rcases hp with rfl | rfl <;> rfl
    · rcases hp with rfl | rfl <;> exact fun _ => rfl
    · rcases hp with rfl | rfl <;> exact fun _ => rfl
    · intro shape hshape
      rcases hp with rfl | rfl <;> cases shape <;>
        first
        | rfl
        | exact absurd rfl hshape
  rw [any_of_countP (hkept (.inl rfl)), hkept (.inr rfl), alignMetric_aligned]

theorem repaired_timed (context : Context) (clauses : List Clause) :
    (context.declaredWindow?.isNone || !(repaired context clauses).any isRecent ||
      (repaired context clauses).all isRecent) = true := by
  have hsort : isRecent ∘ SortCall.mendClause = isRecent := by
    funext clause
    rcases clause with shape | shape | shape <;> cases shape <;> rfl
  have hprepared : (context.declaredWindow?.isNone || !(prepared context clauses).any isRecent ||
      (prepared context clauses).all isRecent) = true := by
    rw [prepared, List.any_map, List.all_map, hsort, DropTimeFilter.mendClauses]
    split
    · assumption
    · simp
  simp only [Bool.or_eq_true] at hprepared ⊢
  rcases hprepared with (hwindow | hany) | hall
  · exact .inl (.inl hwindow)
  · refine .inl (.inr ?_)
    simp only [Bool.not_eq_true', List.any_eq_false, Bool.not_eq_true] at hany ⊢
    intro clause hclause
    rcases mem_flagCount hclause with hclause | ⟨shape, rfl⟩
    · exact hany clause hclause
    · rfl
  · have huncounted : ∀ clause ∈ prepared context clauses, FlagCount.counted? clause = none := by
      intro clause hclause
      obtain rfl := eq_of_isRecent (List.all_eq_true.mp hall clause hclause)
      rfl
    rw [repaired, flagCount_of_uncounted huncounted]
    exact .inr hall

theorem settled_repaired (context : Context) (clauses : List Clause) :
    Settled context (repaired context clauses) where
  aligned := repaired_aligned context clauses
  fixed clause hclause := by
    rcases mem_flagCount hclause with hclause | ⟨shape, rfl⟩
    · obtain ⟨other, -, rfl⟩ := mem_prepared hclause
      exact other.mend_fixed
    · exact ⟨rfl, rfl, rfl⟩
  timed := repaired_timed context clauses
  uncounted := FlagCount.counted?_mendClauses _

/-! ## Acceptance -/

def isCount (clause : Clause) : Bool := (FlagCount.counted? clause).isSome

theorem length_flagCount (clauses : List Clause) :
    (FlagCount.mendClauses clauses).length ≤ clauses.length + clauses.countP isCount := by
  fun_induction FlagCount.mendClauses clauses with
  | case1 measured field clauses ih =>
      simp only [List.length_cons, List.countP_cons]
      omega
  | case2 field clauses ih =>
      rw [List.countP_cons_of_pos rfl]
      simp only [List.length_cons]
      omega
  | case3 clause clauses hmeasures hcount ih =>
      simp only [List.length_cons, List.countP_cons]
      omega
  | case4 => simp

theorem length_alignMetric (clauses : List Clause) :
    (AlignMetric.mendClauses clauses).length + (AlignMetric.mendClauses clauses).countP isCount ≤
      2 * clauses.length := by
  have hone (clause : Clause) : (AlignMetric.splitClause clause).length +
      (AlignMetric.splitClause clause).countP isCount ≤ 2 := by
    unfold AlignMetric.splitClause
    split
    · decide
    · have hcount := @List.countP_le_length _ isCount [clause]
      simp only [List.length_singleton] at hcount ⊢
      omega
  have hsplit (clauses : List Clause) : (clauses.flatMap AlignMetric.splitClause).length +
      (clauses.flatMap AlignMetric.splitClause).countP isCount ≤ 2 * clauses.length := by
    induction clauses with
    | nil => simp
    | cons clause clauses ih =>
        have hclause := hone clause
        rw [List.flatMap_cons, List.length_append, List.countP_append, List.length_cons]
        omega
  rw [AlignMetric.mendClauses]
  split
  · have hcount := @List.countP_le_length _ isCount clauses
    omega
  · exact hsplit clauses

/-- Each clause becomes two at most: a metric is split, or a count gets a clause for its flag. -/
theorem length_repaired (context : Context) (clauses : List Clause) :
    (repaired context clauses).length ≤ 2 * clauses.length := by
  have hcounts : (prepared context clauses).countP isCount =
      (AlignMetric.mendClauses clauses).countP isCount := by
    refine countP_prepared (fun clause => ?_) (fun clause hclause => ?_) context clauses
    · rcases clause with shape | shape | shape <;> cases shape <;> exact ⟨rfl, rfl, rfl⟩
    · obtain rfl := eq_of_isRecent hclause
      rfl
  have hlength : (prepared context clauses).length ≤ (AlignMetric.mendClauses clauses).length := by
    simpa [prepared] using (dropTimeFilter_sublist context
      (((AlignMetric.mendClauses clauses).map QuoteKey.mendClause).map
        ExpandTerms.mendClause)).length_le
  -- Clauses and counts together never grow behind the first pass, and each count adds one at most.
  have hflag := length_flagCount (prepared context clauses)
  have halign := length_alignMetric clauses
  rw [← repaired] at hflag
  omega

theorem callable_of_uncounted {clause : Clause} (h : FlagCount.counted? clause = none) :
    clause.Callable := by
  rcases clause with shape | shape | shape <;> cases shape <;>
    first
    | simp only [Callable, calls, Clean.calls, Mistake.calls, Mended.calls]
      decide +kernel
    | simp [FlagCount.counted?] at h

theorem checkStructure_render {maxStages : Nat}
    (huncounted : ∀ clause ∈ clauses, FlagCount.counted? clause = none)
    (hstages : clauses.length ≤ maxStages) :
    checkStructure { maxStages } (String.ofList (render clauses)) = .ok () := by
  rw [checkStructure_iff_accepted, String.toList_ofList]
  exact accepted_render (fun clause hclause => callable_of_uncounted (huncounted clause hclause))
    hstages (show 2 ≤ 10 by decide)

theorem Settled.validate {maxStages : Nat} (h : Settled context clauses)
    (hstages : clauses.length ≤ maxStages) :
    (Repairer.mk { maxStages } ⟨standardPasses, 1⟩).validate context
      (String.ofList (render clauses)) = ⟨true, none, [], none⟩ := by
  obtain ⟨hquery, hquiet⟩ := @foldl_quiet context clauses standardPasses h.turns
    ⟨String.ofList (render clauses), [], []⟩ rfl
  have hvalid := checkStructure_render h.uncounted hstages
  have hrun : Schedule.run ⟨standardPasses, 1⟩ context (String.ofList (render clauses)) =
      standardPasses.foldl (Run.step context) ⟨String.ofList (render clauses), [], []⟩ := rfl
  simp only [Repairer.validate, hrun, hquery, hvalid, Run.changed, hquiet]
  rfl

theorem validate_render {maxStages : Nat} (h : ∀ clause ∈ clauses, clause.Unflagged)
    (hstages : 2 * clauses.length ≤ maxStages) :
    (Repairer.mk { maxStages } ⟨standardPasses, 1⟩).validate context
        (String.ofList (render clauses)) =
      let run := Schedule.round context standardPasses (String.ofList (render clauses))
      ⟨true, if run.changed then some (String.ofList (render (repaired context clauses))) else none,
        run.transformations.map Transformation.explanation, none⟩ := by
  have hquery := round_query context h
  have hvalid := checkStructure_render (settled_repaired context clauses).uncounted
    ((length_repaired context clauses).trans hstages)
  have hrun : Schedule.run ⟨standardPasses, 1⟩ context (String.ofList (render clauses)) =
      Schedule.round context standardPasses (String.ofList (render clauses)) := rfl
  simp only [Repairer.validate, hrun, hquery, hvalid]
  rfl

theorem effectiveQuery_render (context : Context) (maxStages : Nat)
    (h : ∀ clause ∈ clauses, clause.Unflagged) :
    ((Repairer.mk { maxStages } ⟨standardPasses, 1⟩).validate context
        (String.ofList (render clauses))).effectiveQuery (String.ofList (render clauses)) =
      String.ofList (render (repaired context clauses)) := by
  have hrun : Schedule.run ⟨standardPasses, 1⟩ context (String.ofList (render clauses)) =
      Schedule.round context standardPasses (String.ofList (render clauses)) := rfl
  rw [Repairer.effectiveQuery_validate, ← round_query context h, ← hrun]

theorem validate_effectiveQuery {maxStages : Nat} (h : ∀ clause ∈ clauses, clause.Unflagged)
    (hstages : 2 * clauses.length ≤ maxStages) :
    let repairer := Repairer.mk { maxStages } ⟨standardPasses, 1⟩
    let query := String.ofList (render clauses)
    repairer.validate context ((repairer.validate context query).effectiveQuery query) =
      ⟨true, none, [], none⟩ := by
  intro repairer query
  rw [show (repairer.validate context query).effectiveQuery query = _ from
    effectiveQuery_render context maxStages h]
  exact (settled_repaired context clauses).validate
    ((length_repaired context clauses).trans hstages)

end Clause

/-! ## Written stages -/

/-- A stage as an author may write it. -/
inductive WrittenStage where
  | clean (shape : Clean)
  | mistake (shape : Mistake)

namespace WrittenStage

def clause : WrittenStage → Clause
  | .clean shape => .clean shape
  | .mistake shape => .mistake shape

def isClean : WrittenStage → Bool
  | .clean _ => true
  | .mistake _ => false

theorem unflagged (stage : WrittenStage) : stage.clause.Unflagged := by
  rcases stage with shape | shape <;> cases shape <;>
    simp [Clause.Unflagged, clause, Clause.verb, Clean.verb, Mistake.verb]

theorem settled_of_clean {stages : List WrittenStage} (h : ∀ stage ∈ stages, stage.isClean = true)
    (context : Context) : Clause.Settled context (stages.map clause) := by
  have hclean : ∀ c ∈ stages.map clause, ∃ shape, c = .clean shape := by
    intro c hc
    obtain ⟨stage, hstage, rfl⟩ := List.mem_map.mp hc
    cases stage with
    | clean shape => exact ⟨shape, rfl⟩
    | mistake shape => exact absurd (h _ hstage) Bool.false_ne_true
  have hmetric : (stages.map clause).countP Clause.isMetric = 0 := by
    refine List.countP_eq_zero.mpr fun c hc => ?_
    obtain ⟨shape, rfl⟩ := hclean c hc
    exact Bool.false_ne_true
  have hrecent : (stages.map clause).any Clause.isRecent = false := by
    refine List.any_eq_false.mpr fun c hc => ?_
    obtain ⟨shape, rfl⟩ := hclean c hc
    exact Bool.false_ne_true
  refine ⟨by simp [hmetric], fun c hc => ?_, by simp [hrecent], fun c hc => ?_⟩
  · obtain ⟨shape, rfl⟩ := hclean c hc
    exact ⟨rfl, rfl, rfl⟩
  · obtain ⟨shape, rfl⟩ := hclean c hc
    rfl

end WrittenStage

theorem ofSettings_stages {maxStages : Nat} (h : maxStages ≠ 0) :
    Repairer.ofSettings { maxStages } = .ok ⟨{ maxStages }, ⟨standardPasses, 1⟩⟩ := by
  have hsettings : Settings.check { maxStages } = .ok () := by
    rw [Settings.check, if_neg h]
    rfl
  rw [Repairer.ofSettings, hsettings]
  rfl

/-- One round mends what is written: every mistake has its mended form in the result, which is
accepted, and repairing it again changes nothing.  Clean stages are left as they are. -/
theorem validate_written (stages : List WrittenStage) (context : Context) (maxStages : Nat)
    (hstages : stages ≠ []) (hbound : 2 * stages.length ≤ maxStages) :
    ∃ repairer, Repairer.ofSettings { maxStages } = .ok repairer ∧
      let query := String.ofList (Clause.render (stages.map WrittenStage.clause))
      let report := repairer.validate context query
      let again := repairer.validate context (report.effectiveQuery query)
      report.isValid = true ∧
        report.effectiveQuery query = String.ofList
          (Clause.render (Clause.repaired context (stages.map WrittenStage.clause))) ∧
        ((∀ stage ∈ stages, stage.isClean = true) →
          report.transformations = [] ∧ report.transformedQuery = none) ∧
        again.isValid = true ∧ again.transformations = [] ∧ again.transformedQuery = none := by
  have hpos : 0 < stages.length := List.length_pos_iff.mpr hstages
  refine ⟨_, ofSettings_stages (by omega), ?_⟩
  intro query report again
  have hunflagged : ∀ clause ∈ stages.map WrittenStage.clause, clause.Unflagged := by
    intro clause hclause
    obtain ⟨stage, -, rfl⟩ := List.mem_map.mp hclause
    exact stage.unflagged
  have hdouble : 2 * (stages.map WrittenStage.clause).length ≤ maxStages := by rwa [List.length_map]
  have hreport : report = _ := Clause.validate_render hunflagged hdouble
  have hagain : again = ⟨true, none, [], none⟩ :=
    Clause.validate_effectiveQuery hunflagged hdouble
  have heffective := Clause.effectiveQuery_render context maxStages hunflagged
  refine ⟨by rw [hreport], heffective, fun hclean => ?_, by simp [hagain]⟩
  have hquiet : report = ⟨true, none, [], none⟩ :=
    (WrittenStage.settled_of_clean hclean context).validate (by omega)
  simp [hquiet]

/-- A count behind a column, a search, and a metric that is aligned first. -/
theorem validate_written_counted :
    ∃ repairer, Repairer.ofSettings { maxStages := 8 } = .ok repairer ∧
      let query := "make_col size:strlen(name) | statsby bad:count_if(code >= 500)" ++
        " | filter body ~ <disk full> | filter m(\"cpu\") > 80"
      let report := repairer.validate {} query
      let again := repairer.validate {} (report.effectiveQuery query)
      report.isValid = true ∧ report.effectiveQuery query =
        "make_col size:strlen(name), bad_flag:if(code >= 500, 1, 0) | statsby bad:sum(bad_flag)" ++
          " | filter (contains(body, \"disk\") or contains(body, \"full\"))" ++
          " | align cpu:avg(m(\"cpu\")) | filter cpu > 80" ∧
        again.isValid = true ∧ again.transformations = [] := by
  obtain ⟨stages, hstages, hlength, hquery, hmended⟩ : ∃ stages : List WrittenStage, stages ≠ [] ∧
      stages.length = 4 ∧ String.ofList (Clause.render (stages.map WrittenStage.clause)) =
        "make_col size:strlen(name) | statsby bad:count_if(code >= 500)" ++
          " | filter body ~ <disk full> | filter m(\"cpu\") > 80" ∧
      String.ofList (Clause.render (Clause.repaired {} (stages.map WrittenStage.clause))) =
        "make_col size:strlen(name), bad_flag:if(code >= 500, 1, 0) | statsby bad:sum(bad_flag)" ++
          " | filter (contains(body, \"disk\") or contains(body, \"full\"))" ++
          " | align cpu:avg(m(\"cpu\")) | filter cpu > 80" := by
    refine ⟨[.clean (.measures ⟨'s', "ize".toList, rfl, List.all_eq_true.mp rfl⟩),
      .mistake (.countIf ⟨'b', "ad".toList, rfl, List.all_eq_true.mp rfl⟩),
      .mistake (.search ⟨'d', "isk".toList, rfl, List.all_eq_true.mp rfl⟩
        ⟨'f', "ull".toList, rfl, List.all_eq_true.mp rfl⟩),
      .mistake .metric], by simp, rfl, ?_⟩
    decide +kernel
  obtain ⟨repairer, hrepairer, hvalid, heffective, -, hagain, hquiet, -⟩ :=
    validate_written stages {} 8 hstages (by omega)
  rw [hmended] at heffective
  rw [hquery] at hvalid heffective hagain hquiet
  exact ⟨repairer, hrepairer, hvalid, heffective, hagain, hquiet⟩

end OpalRepair
