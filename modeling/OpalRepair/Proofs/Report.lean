import Mathlib
import OpalRepair.Proofs.Bytes.Repairer
import OpalRepair.Proofs.Sound

/-!
# What reports say

A report is read together with the query it was made for.  It judges the query to execute, and a
report without a repaired query says that no pass had anything to change.  Disabling a pass that has
not fired gives the same report, and so does naming the disabled passes in another order or twice.

Main statements: `report_describes_effective_query`, `silent_pass_irrelevant` and
`repairer_of_disabled_set`.
-/

namespace OpalRepair

/-! ## Usable schedules -/

theorem Schedule.repeatedName?_eq_none {seen names : List String} :
    repeatedName? seen names = none ↔ names.Nodup ∧ ∀ name ∈ names, name ∉ seen := by
  induction names generalizing seen with
  | nil => simp [repeatedName?]
  | cons name names ih =>
      by_cases hname : name ∈ seen
      · simp [repeatedName?, hname]
      · rw [repeatedName?, if_neg (by simpa using hname), ih]
        simp only [List.nodup_cons, List.mem_cons, not_or]
        grind

theorem Schedule.check_eq_ok {schedule : Schedule} (hrounds : schedule.rounds ≠ 0)
    (hnames : schedule.names.Nodup) : schedule.check = .ok () := by
  rw [check, if_neg hrounds, repeatedName?_eq_none.mpr ⟨hnames, by simp⟩]

theorem Settings.check_eq_ok {settings : Settings} : settings.check = .ok () ↔
    settings.maxStages ≠ 0 ∧ settings.maxNestingDepth ≠ 0 ∧ settings.passRounds ≠ 0 ∧
      ∀ name ∈ settings.disabledPasses, name ∈ passNames := by
  rw [check]
  split_ifs with hstages hdepth hrounds
  · simp [hstages]
  · simp [hdepth]
  · simp [hrounds]
  · cases hfind : settings.disabledPasses.find? (!passNames.contains ·) with
    | some name =>
        have hname := List.find?_some hfind
        have hmem := List.mem_of_find?_eq_some hfind
        simp only [reduceCtorEq, false_iff, not_and, not_forall]
        exact fun _ _ _ => ⟨name, hmem, by simpa using hname⟩
    | none => simpa [hstages, hdepth, hrounds] using hfind

namespace Repairer

theorem passes_scheduleFor (settings : Settings) : (scheduleFor settings).passes =
    standardPasses.filter fun pass => !settings.disabledPasses.contains pass.name := by
  have hfold (names : List String) (schedule : Schedule) :
      (names.foldl Schedule.without schedule).passes =
        schedule.passes.filter fun pass => !names.contains pass.name := by
    induction names generalizing schedule with
    | nil => simp
    | cons name names ih =>
        rw [List.foldl_cons, ih, Schedule.without, List.filter_filter]
        refine List.filter_congr fun pass _ => ?_
        rw [List.contains_cons, Bool.not_or, Bool.and_comm]
        rfl
  exact hfold settings.disabledPasses ⟨standardPasses, 1⟩

theorem check_scheduleFor {settings : Settings} (h : settings.check = .ok ()) :
    (scheduleFor settings).check = .ok () := by
  have hrounds : (scheduleFor settings).rounds ≠ 0 := (Settings.check_eq_ok.mp h).2.2.1
  have hnames : (scheduleFor settings).names.Nodup := by
    have hstandard : (standardPasses.map Pass.name).Nodup := by decide
    rw [Schedule.names, passes_scheduleFor]
    exact hstandard.sublist (List.filter_sublist.map Pass.name)
  exact Schedule.check_eq_ok hrounds hnames

theorem ofSettings_of_check {settings : Settings} (h : settings.check = .ok ()) :
    ofSettings settings = .ok ⟨settings, scheduleFor settings⟩ := by
  simp [ofSettings, h, check_scheduleFor h, bind, Except.bind, pure, Except.pure]

theorem check_of_ofSettings {settings : Settings} {repairer : Repairer}
    (h : ofSettings settings = .ok repairer) : settings.check = .ok () := by
  cases hcheck : settings.check with
  | ok => rfl
  | error error => simp [ofSettings, hcheck, bind, Except.bind] at h

theorem sound_scheduleFor (settings : Settings) :
    ∀ pass ∈ (scheduleFor settings).passes, pass.Sound := by
  intro pass hpass
  rw [passes_scheduleFor] at hpass
  exact standardPasses_sound pass (List.mem_of_mem_filter hpass)

end Repairer

/-! ## The query to execute -/

namespace Schedule

variable {schedule : Schedule} {context : Context} {query : String}

theorem run_of_not_changed (h : (schedule.run context query).changed = false) :
    (∀ pass ∈ schedule.passes, (pass.apply context query).transformation = none) ∧
      schedule.run context query =
        ⟨query, [], schedule.passes.map fun pass => (pass.name, false)⟩ := by
  obtain ⟨hquiet, hrun⟩ := runRounds_of_not_changed h
  have hsilent := silent_of_quiet hquiet
  exact ⟨hsilent, hrun.trans (round_of_silent hsilent)⟩

end Schedule

namespace Report

variable (verdict : Except Error Unit) (transformedQuery : Option String)
  (transformations : List String)

@[simp] theorem transformedQuery_ofVerdict :
    (ofVerdict verdict transformedQuery transformations).transformedQuery = transformedQuery := by
  cases verdict <;> rfl

@[simp] theorem transformations_ofVerdict :
    (ofVerdict verdict transformedQuery transformations).transformations = transformations := by
  cases verdict <;> rfl

theorem verdict_ofVerdict :
    let report := ofVerdict verdict transformedQuery transformations
    (report.isValid = true ↔ verdict = .ok ()) ∧
      (report.isValid = true → report.errorMessage = none) ∧
      ∀ error, verdict = .error error → report.errorMessage = some error.message := by
  cases verdict <;> simp [ofVerdict]

end Report

namespace Repairer

variable {settings : Settings} {repairer : Repairer}

theorem effectiveQuery_validate (repairer : Repairer) (context : Context) (query : String) :
    (repairer.validate context query).effectiveQuery query =
      (repairer.schedule.run context query).query := by
  simp only [Report.effectiveQuery, validate, Report.transformedQuery_ofVerdict]
  cases hchanged : (repairer.schedule.run context query).changed with
  | true => rfl
  | false => simp [(Schedule.run_of_not_changed hchanged).2]

/-- The report is about the query to execute: it is valid if the checks accept that query, and
names the error they end with if they do not.  There is a repaired query if and only if something
is reported as repaired; without one, each pass was asked once and returned the query as it is. -/
theorem report_describes_effective_query (h : ofSettings settings = .ok repairer)
    (context : Context) (query : String) :
    let report := repairer.validate context query
    let verdict := checkStructure settings (report.effectiveQuery query)
    (report.isValid = true ↔ verdict = .ok ()) ∧
      (report.isValid = true → report.errorMessage = none) ∧
      (∀ error, verdict = .error error → report.errorMessage = some error.message) ∧
      (report.transformedQuery.isSome = true ↔ report.transformations ≠ []) ∧
      (report.transformedQuery = none →
        repairer.schedule.run context query =
            ⟨query, [], repairer.schedule.passes.map fun pass => (pass.name, false)⟩ ∧
          ∀ pass ∈ repairer.schedule.passes, pass.apply context query = .unchanged query) := by
  obtain rfl := Bytes.ofSettings_eq h
  intro report verdict
  have hverdict :
      verdict = checkStructure settings ((scheduleFor settings).run context query).query :=
    congrArg (checkStructure settings) (effectiveQuery_validate _ context query)
  obtain ⟨hvalid, hmessage, herror⟩ := Report.verdict_ofVerdict verdict report.transformedQuery
    report.transformations
  have hreport : .ofVerdict verdict report.transformedQuery report.transformations = report := by
    simp [hverdict, report, validate]
  rw [hreport] at hvalid hmessage herror
  refine ⟨hvalid, hmessage, herror, ?_, fun hnone => ?_⟩
  · simp [report, validate, Run.changed]
  · have hchanged : ((scheduleFor settings).run context query).changed = false := by
      simpa [report, validate] using hnone
    obtain ⟨hsilent, hrun⟩ := Schedule.run_of_not_changed hchanged
    refine ⟨hrun, fun pass hpass => ?_⟩
    exact (sound_scheduleFor settings pass hpass context query).silent (hsilent pass hpass)

/-- A query with an open parenthesis that only a disabled pass would have changed. -/
theorem report_describes_effective_query_rejected :
    let settings : Settings := { passRounds := 3, disabledPasses := ["sort_syntax"] }
    let query := "filter (a | sort -b"
    ∃ repairer, ofSettings settings = .ok repairer ∧
      let report := repairer.validate {} query
      report.isValid = false ∧
        report.errorMessage = some "Unbalanced parentheses: 1 opening '(' vs 0 closing ')'" ∧
        report.transformedQuery = none ∧
        ∀ pass ∈ repairer.schedule.passes, pass.apply {} query = .unchanged query := by
  intro settings query
  have hsettings : ofSettings settings = .ok ⟨settings, scheduleFor settings⟩ :=
    ofSettings_of_check (by decide)
  refine ⟨_, hsettings, ?_⟩
  intro report
  obtain ⟨hvalid, -, herror, -, hsilent⟩ := report_describes_effective_query hsettings {} query
  have hnone : report.transformedQuery = none := by decide
  have hverdict : checkStructure settings (report.effectiveQuery query) =
      .error (.structural (.unpaired .parentheses 1 0)) := by
    rw [Report.effectiveQuery, hnone]
    decide
  have hinvalid : ¬ report.isValid = true := by
    rw [hvalid, hverdict]
    simp
  have hmessage : (Error.structural (.unpaired .parentheses 1 0)).message =
      "Unbalanced parentheses: 1 opening '(' vs 0 closing ')'" := by decide
  exact ⟨by simpa using hinvalid, hmessage ▸ herror _ hverdict, hnone, (hsilent hnone).2⟩

/-! ## Disabling a pass that has not fired -/

theorem checkStructure_disabledPasses (settings : Settings) (disabled : List String)
    (query : String) :
    checkStructure { settings with disabledPasses := disabled } query =
      checkStructure settings query := rfl

theorem scheduleFor_congr (settings : Settings) {disabled disabled' : List String}
    (h : ∀ name, name ∈ disabled ↔ name ∈ disabled') :
    scheduleFor { settings with disabledPasses := disabled } =
      scheduleFor { settings with disabledPasses := disabled' } := by
  have hpasses : (scheduleFor { settings with disabledPasses := disabled }).passes =
      (scheduleFor { settings with disabledPasses := disabled' }).passes := by
    rw [passes_scheduleFor, passes_scheduleFor]
    refine List.filter_congr fun pass _ => ?_
    rw [Bool.eq_iff_iff]
    simp [h pass.name]
  exact congrArg (Schedule.mk · settings.passRounds) hpasses

theorem scheduleFor_without {disabled : List String} {name : String}
    (h : ∀ other, other ∈ disabled ↔ other = name ∨ other ∈ settings.disabledPasses) :
    scheduleFor { settings with disabledPasses := disabled } =
      (scheduleFor settings).without name := by
  have hlast : ∀ other, other ∈ disabled ↔ other ∈ settings.disabledPasses ++ [name] := by
    simp [h, or_comm]
  rw [scheduleFor_congr settings hlast]
  simp only [scheduleFor, List.foldl_append, List.foldl_cons, List.foldl_nil]
  rfl

/-- A pass that signs nothing in a run might as well have been disabled: the settings that disable
it too are accepted and lead to the same report. -/
theorem silent_pass_irrelevant (h : ofSettings settings = .ok repairer) {name : String}
    (hname : name ∈ passNames) {disabled : List String}
    (hdisabled : ∀ other, other ∈ disabled ↔ other = name ∨ other ∈ settings.disabledPasses)
    (context : Context) (query : String)
    (hsilent : ∀ transformation ∈ (repairer.schedule.run context query).transformations,
      transformation.pass ≠ name) :
    ∃ other, ofSettings { settings with disabledPasses := disabled } = .ok other ∧
      other.validate context query = repairer.validate context query := by
  obtain rfl := Bytes.ofSettings_eq h
  have hcheck : Settings.check { settings with disabledPasses := disabled } = .ok () := by
    obtain ⟨hstages, hdepth, hrounds, hnames⟩ := Settings.check_eq_ok.mp (check_of_ofSettings h)
    refine Settings.check_eq_ok.mpr ⟨hstages, hdepth, hrounds, fun other hother => ?_⟩
    rcases (hdisabled other).mp hother with rfl | hother
    · exact hname
    · exact hnames other hother
  refine ⟨_, ofSettings_of_check hcheck, ?_⟩
  have hsame := Schedule.run_without (sound_scheduleFor settings) hsilent
  rw [validate, validate, scheduleFor_without hdisabled]
  simp only [checkStructure_disabledPasses]
  rw [hsame.query, hsame.transformations, hsame.changed]

/-- Only the search of a query is mended, with and without the pass for sort keys. -/
theorem silent_pass_irrelevant_search :
    let settings : Settings := { passRounds := 2, disabledPasses := ["time_filter"] }
    let query := "filter a ~ <b c>"
    ∃ repairer other, ofSettings settings = .ok repairer ∧
      ofSettings { settings with disabledPasses := ["time_filter", "sort_syntax"] } = .ok other ∧
      (repairer.schedule.run {} query).transformations.map Transformation.pass =
        ["bracket_terms"] ∧
      other.validate {} query = repairer.validate {} query := by
  intro settings query
  have hsettings : ofSettings settings = .ok ⟨settings, scheduleFor settings⟩ :=
    ofSettings_of_check (by decide)
  have hsigned : ((scheduleFor settings).run {} query).transformations.map Transformation.pass =
      ["bracket_terms"] := by decide
  have hsilent : ∀ transformation ∈ ((scheduleFor settings).run {} query).transformations,
      transformation.pass ≠ "sort_syntax" := by
    intro transformation hmem hsort
    have hpass := List.mem_map_of_mem (f := Transformation.pass) hmem
    rw [hsigned, hsort] at hpass
    simp at hpass
  have hdisabled (other : String) : other ∈ ["time_filter", "sort_syntax"] ↔
      other = "sort_syntax" ∨ other ∈ settings.disabledPasses := by
    simp [settings, or_comm]
  obtain ⟨other, hother, hsame⟩ :=
    silent_pass_irrelevant hsettings (by decide) hdisabled {} query hsilent
  exact ⟨_, other, hsettings, hother, hsigned, hsame⟩

/-! ## Disabling the same passes -/

theorem exists_ofSettings_iff : (∃ repairer, ofSettings settings = .ok repairer) ↔
    settings.check = .ok () :=
  ⟨fun ⟨_, h⟩ => check_of_ofSettings h, fun h => ⟨_, ofSettings_of_check h⟩⟩

/-- Settings make a repairer if and only if their bounds and rounds are positive and they disable
standard passes only; then the schedule is always usable.  It has the standard passes that are not
disabled, in their order.  So in which order and how often the disabled passes are named makes no
difference. -/
theorem repairer_of_disabled_set (settings : Settings) :
    ((∃ repairer, ofSettings settings = .ok repairer) ↔
      1 ≤ settings.maxStages ∧ 1 ≤ settings.maxNestingDepth ∧ 1 ≤ settings.passRounds ∧
        ∀ name ∈ settings.disabledPasses, name ∈ passNames) ∧
    (settings.check = .ok () → (scheduleFor settings).check = .ok ()) ∧
    ∀ repairer, ofSettings settings = .ok repairer →
      repairer.schedule = ⟨standardPasses.filter fun pass => pass.name ∉ settings.disabledPasses,
        settings.passRounds⟩ ∧
      ∀ disabled, (∀ name, name ∈ disabled ↔ name ∈ settings.disabledPasses) →
        ∃ other, ofSettings { settings with disabledPasses := disabled } = .ok other ∧
          other.schedule = repairer.schedule ∧
          ∀ context query, other.validate context query = repairer.validate context query := by
  refine ⟨?_, check_scheduleFor, fun repairer h => ?_⟩
  · rw [exists_ofSettings_iff, Settings.check_eq_ok]
    simp only [Nat.one_le_iff_ne_zero]
  obtain rfl := Bytes.ofSettings_eq h
  refine ⟨?_, fun disabled hdisabled => ?_⟩
  · have hpasses : (scheduleFor settings).passes =
        standardPasses.filter fun pass => pass.name ∉ settings.disabledPasses := by
      rw [passes_scheduleFor]
      exact List.filter_congr fun pass _ => by simp
    exact congrArg (Schedule.mk · settings.passRounds) hpasses
  · have hsame : scheduleFor { settings with disabledPasses := disabled } = scheduleFor settings :=
      scheduleFor_congr settings hdisabled
    have hcheck : Settings.check { settings with disabledPasses := disabled } = .ok () := by
      obtain ⟨hstages, hdepth, hrounds, hnames⟩ := Settings.check_eq_ok.mp (check_of_ofSettings h)
      exact Settings.check_eq_ok.mpr ⟨hstages, hdepth, hrounds, fun name hname =>
        hnames name ((hdisabled name).mp hname)⟩
    refine ⟨_, ofSettings_of_check hcheck, hsame, fun context query => ?_⟩
    rw [validate, validate, hsame, checkStructure_disabledPasses]

/-- Two passes that are named twice and out of order. -/
theorem repairer_of_disabled_set_repeated :
    let settings : Settings := { passRounds := 2, disabledPasses := ["count_if", "bracket_terms"] }
    let disabled := ["bracket_terms", "count_if", "bracket_terms", "count_if"]
    ∃ repairer other, ofSettings settings = .ok repairer ∧
      ofSettings { settings with disabledPasses := disabled } = .ok other ∧
      repairer.schedule.names = ["metric_pipeline", "nested_field", "time_filter", "sort_syntax"] ∧
      ∀ context query, other.validate context query = repairer.validate context query := by
  intro settings disabled
  obtain ⟨haccepted, -, hbuilt⟩ := repairer_of_disabled_set settings
  obtain ⟨repairer, hrepairer⟩ := haccepted.mpr (by decide)
  obtain ⟨hschedule, hsame⟩ := hbuilt repairer hrepairer
  obtain ⟨other, hother, -, hreports⟩ := hsame disabled (by simp [settings, disabled]; tauto)
  refine ⟨repairer, other, hrepairer, hother, ?_, hreports⟩
  rw [hschedule]
  decide

end Repairer

end OpalRepair
