import Mathlib
import OpalRepair.Proofs.Counting.Again
import OpalRepair.Proofs.Keeping.Expanded
import OpalRepair.Proofs.Quoting.Neutral
import OpalRepair.Proofs.Report

/-!
# Repair of good queries

A run hands each pass the text that the pass before left.  If no pass is handed a text on which it
does harm, a well-formed query stays well-formed through all rounds, and only the bounds on its size
can make it invalid in the end.

Main statement: `Repairer.validate_keeps_accepted`.
-/

namespace OpalRepair

open Query Text

/-! ## Passes without harm -/

theorem QuoteKey.wellFormed_after {query : List Char} (h : WellFormed query)
    (hfollow : ∀ c ∈ (patch query).followers, isWordChar c = false) :
    WellFormed (patch query).after := by
  obtain ⟨new, hnew, hcells, hmode⟩ := cells_after_patch query
  have hakin : Layout.Akin (layout query) (layout (patch query).after) := by
    have hrows := hnew.akin fun cell hcell => Scanner.char_of_isSeparator hcell
    rwa [← hcells] at hrows
  refine ⟨hmode.trans h.closed, fun pair => ?_, hakin.startsWithVerb.mp h.verbs, ?_⟩
  · rw [hcells, ← (hnew.countP_isCode pair).1, ← (hnew.countP_isCode pair).2, h.paired]
  · rw [hcells]
    exact (hnew.sound_iff .idle hfollow).mp h.calls

namespace DropTimeFilter

theorem wellFormed_remaining {query : List Char} (h : WellFormed query)
    (hne : (layout query).stages.filter (!isRedundant ·) ≠ []) :
    WellFormed (remaining (layout query)) := by
  -- The bounds of the query itself accept it.
  let settings : Settings :=
    { maxStages := (layout query).stages.length, maxNestingDepth := nestingDepth (cells query) }
  have haccepted : Accepted settings query :=
    accepted_iff_wellFormed.mpr ⟨h, Nat.le_refl _, Nat.le_refl _⟩
  exact (accepted_iff_wellFormed.mp (accepted_remaining haccepted hne).1).1

theorem wellFormed_apply {query : String} (h : WellFormed query.toList) (context : Context) :
    WellFormed (dropTimeFilter.apply context query).query.toList := by
  rw [dropTimeFilter]
  dsimp only
  cases context.declaredWindow? with
  | none => exact h
  | some window =>
      dsimp only
      rw [apply]
      split_ifs with hcond
      · exact h
      · refine (String.toList_ofList (l := remaining _)).symm ▸ wellFormed_remaining h fun hnil => ?_
        rw [List.filter_eq_nil_iff] at hnil
        refine hcond (Bool.or_eq_true_iff.mpr (.inr (beq_iff_eq.mpr ?_)))
        rw [List.length_filter_eq_length_iff]
        exact fun stage hstage => by simpa using hnil stage hstage

end DropTimeFilter

theorem FlagCount.found_of_calls {query : List Char} (h : Word.idle.Sound Callable (cells query)) :
    found query = [] := by
  rw [List.eq_nil_iff_forall_not_mem]
  intro count hcount
  obtain ⟨front, rest, hrow, -, hcountAt⟩ := (mem_counts (layout query)).mp hcount
  obtain ⟨head, paren, inside, close, back, hrest, hspelled, -⟩ := countAt?_eq_some hrow hcountAt
  obtain ⟨gap, blanks, spaces, -, hblanks, hspaces, htext⟩ := hspelled.name
  have hcode : ∀ cell ∈ head, cell.isLiteral = false := by
    have hfirst := hspelled.first
    have hpaint : cells query = front ++ (head ++ paren :: (inside ++ close :: back)) := hrest ▸ hrow
    cases head with
    | nil => simp
    | cons first head =>
        have hfirst : first.isLiteral = false := by simpa using hfirst
        refine List.forall_mem_cons.mpr ⟨hfirst, Scanner.paint_behind_code hpaint hfirst ?_⟩
        intro cell hcell
        obtain ⟨-, -, ⟨hdouble, hsingle, hslash, -⟩, -⟩ :=
          hspelled.head_chars cell (List.mem_cons_of_mem _ hcell)
        exact ⟨hdouble, hsingle, hslash⟩
  obtain ⟨called, after, hhead, hcalled, hafter⟩ := List.map_eq_append_iff.mp htext
  obtain ⟨label, word, rfl, hlabel, hword⟩ := List.map_eq_append_iff.mp hcalled
  have hidle (other : Word) : other.after label = .idle := by
    obtain ⟨start, colon, rfl, -, hcolon⟩ := List.map_eq_append_iff.mp hlabel
    cases colon with
    | nil => simp at hcolon
    | cons colon spacing =>
        obtain ⟨hchar, hspacing⟩ := List.cons.inj hcolon
        have hends : Word.Ends colon.char := hchar ▸ ⟨by decide, by decide, by decide⟩
        rw [Word.after_append, Word.after_cons, Word.step_ends _ hends]
        exact Word.after_of_idle fun cell hcell =>
          Word.step_blank_idle rfl (hblanks _ (hspacing ▸ List.mem_map_of_mem hcell))
  have hname : Word.idle.after word = .name "count_if".toList := by
    cases word with
    | nil => simp at hword
    | cons first word =>
        have hfirst : first.char = 'c' := (List.cons.inj hword).1
        have hchars : ∀ cell ∈ first :: word, isWordChar cell.char = true := by
          have hall : ∀ c ∈ "count_if".toList, isNameChar c = true := by simp; decide
          exact fun cell hcell => isWordChar_of_isNameChar (hall _ (hword ▸ List.mem_map_of_mem hcell))
        rw [Word.after_letter (hcode first (by simp [hhead])) (by rw [hfirst]; decide) hchars]
        exact congrArg Word.name hword
  have hsound : (Word.name "count_if".toList).Sound Callable
      (after ++ paren :: (inside ++ close :: back)) := by
    rw [hrow, hrest, hhead, Word.sound_append, List.append_assoc, List.append_assoc,
      Word.sound_append, hidle, Word.sound_append, hname] at h
    exact h.2.2.2
  have hcallable : Callable "count_if".toList :=
    hsound.admits (Bytes.char_of_isCode hspelled.paren)
      (fun cell hcell => hspaces _ (hafter ▸ List.mem_map_of_mem hcell)) _ rfl
  exact absurd hcallable (by decide +kernel)

/-! ## What passes are given -/

namespace Schedule

def roundInputs (context : Context) : List Pass → String → List (String × String)
  | [], _ => []
  | pass :: passes, query =>
    (pass.name, query) :: roundInputs context passes (Run.step context { query } pass).query

def inputsFrom (context : Context) (passes : List Pass) : Nat → String → List (String × String)
  | 0, query => roundInputs context passes query
  | more + 1, query =>
    let first := round context passes query
    roundInputs context passes query ++
      if first.changed then inputsFrom context passes more first.query else []

/-- What a run gives to its passes, in the order of its log. -/
def inputs (schedule : Schedule) (context : Context) (query : String) : List (String × String) :=
  inputsFrom context schedule.passes (schedule.rounds - 1) query

section Invariant

variable {context : Context} {passes : List Pass} {query : String} {P : String → Prop}

theorem invariant_round (h : P query)
    (hstep : ∀ pass ∈ passes, ∀ text, (pass.name, text) ∈ roundInputs context passes query →
      P text → (pass.apply context text).fired = true → P (pass.apply context text).query) :
    P (round context passes query).query := by
  induction passes generalizing query with
  | nil => exact h
  | cons pass passes ih =>
      rw [round_cons]
      refine ih ?_ fun other hother text htext => hstep other (by simp [hother]) text (by
        simp [roundInputs, htext])
      rw [Run.step]
      dsimp only
      split_ifs with hfired
      · exact hstep pass (by simp) query (by simp [roundInputs]) h hfired
      · exact h

theorem invariant_run {schedule : Schedule} (h : P query)
    (hstep : ∀ pass ∈ schedule.passes, ∀ text, (pass.name, text) ∈ schedule.inputs context query →
      P text → (pass.apply context text).fired = true → P (pass.apply context text).query) :
    P (schedule.run context query).query := by
  obtain ⟨passes, rounds⟩ := schedule
  rw [run]
  dsimp only [inputs] at hstep ⊢
  generalize rounds - 1 = more at hstep
  induction more generalizing query with
  | zero => exact invariant_round h hstep
  | succ more ih =>
      have hround : P (round context passes query).query :=
        invariant_round h fun pass hpass text htext => hstep pass hpass text (by
          simp [inputsFrom, htext])
      cases hchanged : (round context passes query).changed with
      | false => rwa [runRounds_of_quiet hchanged]
      | true =>
          rw [runRounds_of_changed hchanged]
          refine ih hround fun pass hpass text htext => hstep pass hpass text ?_
          simp [inputsFrom, hchanged, htext]

end Invariant

end Schedule

/-! ## Harm -/

/-- A text that the pass of a name does no harm to.  Behind the metric call of a filter nothing is
called, no word character follows a key that is quoted, searches that are expanded fit, and sort
stages are mended without harm. -/
structure Harmless (name : String) (query : List Char) : Prop where
  metric : name = alignMetric.name → ∀ stage ∈ (layout query).stages, AlignMetric.Harmless stage
  key : name = quoteKey.name → ∀ c ∈ (QuoteKey.patch query).followers, isWordChar c = false
  search : name = expandTerms.name → ∀ front found replacement back,
    (ExpandTerms.patch query).Rewrites front found replacement back →
      ExpandTerms.Fitting ((cells query).take front.length) found
  sort : name = sortCall.name → ∀ stage ∈ (layout query).stages,
    SortCall.Mendable stage → SortCall.Harmless stage

instance (name : String) (query : List Char) : Decidable (Harmless name query) :=
  -- There are finitely many characters, but only the followers are looked at.
  have : Decidable (∀ c ∈ (QuoteKey.patch query).followers, isWordChar c = false) :=
    List.decidableBAll _ _
  decidable_of_iff (_ ∧ _ ∧ _ ∧ _)
    ⟨fun h => ⟨h.1, h.2.1, h.2.2.1, h.2.2.2⟩, fun h => ⟨h.metric, h.key, h.search, h.sort⟩⟩

theorem Harmless.wellFormed_apply {pass : Pass} (hpass : pass ∈ standardPasses) {query : String}
    (hharmless : Harmless pass.name query.toList) (h : WellFormed query.toList) {context : Context}
    (hfired : (pass.apply context query).fired = true) :
    WellFormed (pass.apply context query).query.toList := by
  simp only [standardPasses, List.mem_cons, List.not_mem_nil, or_false] at hpass
  rcases hpass with rfl | rfl | rfl | rfl | rfl | rfl
  · exact (String.toList_ofList ..).symm ▸ AlignMetric.wellFormed_after h
      ((AlignMetric.fired_iff context query).mp hfired) (hharmless.metric rfl)
  · exact (String.toList_ofList ..).symm ▸ QuoteKey.wellFormed_after h (hharmless.key rfl)
  · exact (String.toList_ofList ..).symm ▸ ExpandTerms.wellFormed_after h (hharmless.search rfl)
  · exact DropTimeFilter.wellFormed_apply h context
  · exact (String.toList_ofList ..).symm ▸ SortCall.wellFormed_after h (hharmless.sort rfl)
  · exact absurd (FlagCount.found_of_calls h.calls) ((FlagCount.fired_iff context query).mp hfired)

/-- Repair never breaks a good query, if no pass is given a text that it does harm to: what is left
is well-formed, and it is valid unless it has grown over the bounds. -/
theorem Repairer.validate_keeps_accepted {settings : Settings} {repairer : Repairer}
    (h : ofSettings settings = .ok repairer) {query : String}
    (haccepted : checkStructure settings query = .ok ()) (context : Context)
    (hharmless : ∀ input ∈ repairer.schedule.inputs context query,
      Harmless input.1 input.2.toList) :
    let report := repairer.validate context query
    let effective := (report.effectiveQuery query).toList
    WellFormed effective ∧
      (report.isValid = true ↔ (split effective).length ≤ settings.maxStages ∧
        nestingDepth (cells effective) ≤ settings.maxNestingDepth) := by
  intro report effective
  obtain rfl := Bytes.ofSettings_eq h
  have heffective : report.effectiveQuery query = ((scheduleFor settings).run context query).query :=
    effectiveQuery_validate _ context query
  have hwell : WellFormed effective := by
    have haccepted := checkStructure_iff_accepted.mp haccepted
    have hinvariant : WellFormed ((scheduleFor settings).run context query).query.toList := by
      refine Schedule.invariant_run (P := fun text => WellFormed text.toList)
        (accepted_iff_wellFormed.mp haccepted).1 fun pass hpass text htext hgood => ?_
      rw [passes_scheduleFor] at hpass
      exact (hharmless _ htext).wellFormed_apply (List.mem_of_mem_filter hpass) hgood
    rwa [← heffective] at hinvariant
  refine ⟨hwell, ?_⟩
  have hvalid : report.isValid = true ↔
      checkStructure settings (report.effectiveQuery query) = .ok () := by
    rw [heffective]
    exact (Report.verdict_ofVerdict _ _ _).1
  rw [hvalid, checkStructure_iff_accepted, accepted_iff_wellFormed, split, List.length_map]
  exact and_iff_right hwell

/-- A metric, a search and a sort key are mended. -/
theorem Repairer.validate_keeps_accepted_mended :
    let query := "filter m(\"a\") and b ~ <x y> | sort -c"
    checkStructure {} query = .ok () ∧ ∃ repairer, ofSettings {} = .ok repairer ∧
      (repairer.validate {} query).effectiveQuery query = "align a:avg(m(\"a\")) | " ++
        "filter a and (contains(b, \"x\") or contains(b, \"y\")) | sort desc(c)" ∧
      (repairer.validate {} query).isValid = true := by
  intro query
  have haccepted : checkStructure {} query = .ok () := by decide +kernel
  have hsettings : ofSettings {} = .ok ⟨{}, scheduleFor {}⟩ :=
    ofSettings_of_check (by decide)
  have hharmless : ∀ input ∈ (scheduleFor {}).inputs {} query,
      Harmless input.1 input.2.toList := by decide +kernel
  have heffective := effectiveQuery_validate ⟨{}, scheduleFor {}⟩ {} query
  have hrun : ((scheduleFor {}).run {} query).query = "align a:avg(m(\"a\")) | " ++
      "filter a and (contains(b, \"x\") or contains(b, \"y\")) | sort desc(c)" := by decide +kernel
  rw [hrun] at heffective
  obtain ⟨-, hvalid⟩ := validate_keeps_accepted hsettings haccepted {} hharmless
  rw [heffective] at hvalid
  exact ⟨haccepted, _, hsettings, heffective, hvalid.mpr (by decide +kernel)⟩

/-- A string that starts in one search and ends in another is accepted.  The first search is
expanded and the second is not, so that the end of the string opens another one. -/
theorem Repairer.validate_breaks_accepted :
    let query := "filter body ~ <can't connect> or body ~ <won't start>"
    checkStructure {} query = .ok () ∧ ∃ repairer, ofSettings {} = .ok repairer ∧
      let report := repairer.validate {} query
      report.isValid = false ∧ report.transformedQuery = some ("filter (contains(body, \"can't\") or " ++
        "contains(body, \"connect\")) or body ~ <won't start>") := by
  intro query
  exact ⟨by decide +kernel, _, ofSettings_of_check (by decide +kernel), by decide +kernel,
    by decide +kernel⟩

end OpalRepair
