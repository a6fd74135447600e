import Mathlib
import OpalRepair.Proofs.Keeping.Run
import OpalRepair.Proofs.Settling.Expanded
import OpalRepair.Proofs.Settling.Flags

/-!
# Settled queries

What a pass has mended stays mended under the passes behind it: they keep calm what is calm and do
not take away an `align` stage.  So a query is settled after one round, in which no pass is given
a text that it cannot mend for good, and a second run has nothing to do.

Main statement: `Repairer.validate_settles`.
-/

namespace OpalRepair

open Query Text Vocabulary

/-! ## Fragments -/

/-- Metrics are aligned, or there are none. -/
def AlignMetric.Aligned (query : List Char) : Prop :=
  (∃ stage ∈ (layout query).stages, stage.hasVerb "align" = true) ∨
    ∀ stage ∈ (layout query).stages, selections stage = []

instance : DecidablePred AlignMetric.Aligned := fun _ => inferInstanceAs (Decidable (_ ∨ _))

namespace Query

theorem hasVerb_inj {stage : Stage} {a b : String} (ha : stage.hasVerb a = true)
    (hb : stage.hasVerb b = true) : a = b :=
  Option.some.inj ((beq_iff_eq.mp ha).symm.trans (beq_iff_eq.mp hb))

/-- All fragments are mended: metrics are aligned, keys quoted and searches expanded. -/
structure Rested (query : List Char) : Prop where
  metric : AlignMetric.Aligned query
  key : Calm QuoteKey.marks none (cells query) []
  search : Calm ExpandTerms.marks none (cells query) []

/-- Stages that are calm and aligned if those before them were. -/
structure Preserves (old new : List Stage) : Prop where
  calm : ∀ marks, Local marks → (∀ stage ∈ old, Calm marks none stage.body []) →
    ∀ stage ∈ new, Calm marks none stage.body []
  aligned : (∃ stage ∈ old, stage.hasVerb "align" = true) →
    ∃ stage ∈ new, stage.hasVerb "align" = true

theorem Rested.of_preserves {old new : List Char} (h : Rested old)
    (hstages : Preserves (layout old).stages (layout new).stages) : Rested new := by
  have hcalm {marks : Option Char → List Cell → Bool} (hlocal : Local marks)
      (hold : Calm marks none (cells old) []) : Calm marks none (cells new) [] :=
    (calm_layout hlocal new).mpr (hstages.calm marks hlocal ((calm_layout hlocal old).mp hold))
  refine ⟨h.metric.imp hstages.aligned ?_, hcalm QuoteKey.local_marks h.key,
    hcalm ExpandTerms.local_marks h.search⟩
  simp only [AlignMetric.selections_eq_nil_iff]
  exact hstages.calm _ AlignMetric.local_marks

end Query

namespace ExpandTerms

/-- A text in which searches are expanded for good. -/
structure Tame (query : List Char) : Prop where
  tidy : ∀ front found replacement back, (patch query).Rewrites front found replacement back →
    Tidy front found
  spares : Spares marks none (cells query) (patch query)

instance : DecidablePred Tame := fun query =>
  have : Decidable (∀ front found replacement back,
      (patch query).Rewrites front found replacement back → Tidy front found) :=
    decidable_of_iff _ Patch.every_iff
  decidable_of_iff (_ ∧ _) ⟨fun h => ⟨h.1, h.2⟩, fun h => ⟨h.tidy, h.spares⟩⟩

theorem Tame.rested {query : String} (h : Tame query.toList)
    (hkey : (QuoteKey.patch query.toList).changes = []) {context : Context}
    (hmetric : AlignMetric.Aligned (expandTerms.apply context query).query.toList) :
    Rested (expandTerms.apply context query).query.toList := by
  have hquery : (expandTerms.apply context query).query.toList = (patch query.toList).after :=
    String.toList_ofList ..
  refine ⟨hmetric, ?_, hquery ▸ calm_after h.tidy framed_marks h.spares⟩
  rw [hquery]
  exact calm_after h.tidy QuoteKey.framed_marks (spares_of_calm (QuoteKey.calm_of_silent hkey) _)

end ExpandTerms

/-! ## Time filters -/

namespace DropTimeFilter

/-- A time window drops nothing: none is declared, or no stage is a time filter, or all are. -/
def Spent (context : Context) (stages : List Stage) : Prop :=
  context.declaredWindow? = none ∨ (∀ stage ∈ stages, ¬ TimeFilter stage.text) ∨
    ∀ stage ∈ stages, TimeFilter stage.text

theorem TimeFilter.hasVerb {stage : Stage} (h : TimeFilter stage.text) :
    stage.hasVerb "filter" = true := by
  have hname {text : List Char} (h : TimeFilter text) :
      leadingName? text = some "filter".toList := by
    obtain ⟨hne, hblanks, -, -, -, -, -⟩ := h
    obtain ⟨b, blanks, rfl⟩ := List.exists_cons_of_ne_nil hne
    have hb : isNameChar b = false := isNameChar_of_isBlank (hblanks b List.mem_cons_self)
    have htrim (rest : List Char) :
        trimStart ("filter".toList ++ rest) = "filter".toList ++ rest := rfl
    have htake (rest : List Char) :
        ("filter".toList ++ b :: rest).takeWhile isNameChar = "filter".toList := by
      rw [List.takeWhile_append_of_pos (by simp; decide), List.takeWhile_cons_of_neg (by simp [hb]),
        List.append_nil]
    rw [leadingName?, htrim, List.cons_append, htake]
    rfl
  rw [Stage.hasVerb, Stage.verb?, hname h]
  rfl

theorem spent_iff (context : Context) (query : List Char) :
    Spent context (layout query).stages ↔ context.declaredWindow? = none ∨
      (split query).filter (¬ TimeFilter ·) = split query ∨
        (split query).filter (¬ TimeFilter ·) = [] := by
  simp [Spent, split, List.filter_eq_self, List.filter_eq_nil_iff]

section Apply

variable {context : Context} {query : String}

theorem apply_of_spent (h : Spent context (layout query.toList).stages) :
    dropTimeFilter.apply context query = .unchanged query := by
  refine (dropTimeFilter_sound context query).silent ?_
  rcases (spent_iff context query.toList).mp h with hwindow | huniform
  · rw [apply_of_undeclared hwindow]
    rfl
  · exact Option.isNone_iff_eq_none.mp
      (Option.isSome_eq_false_iff.mp (fired_eq_false context huniform))

theorem apply_of_not_spent (h : ¬ Spent context (layout query.toList).stages) :
    (dropTimeFilter.apply context query).fired = true ∧
      (dropTimeFilter.apply context query).query.toList = remaining (layout query.toList) ∧
      (layout query.toList).stages.filter (!isRedundant ·) ≠ [] := by
  obtain ⟨hwindow, huniform⟩ := not_or.mp (mt (spent_iff context query.toList).mpr h)
  obtain ⟨window, hwindow⟩ := Option.ne_none_iff_exists'.mp hwindow
  obtain ⟨hquery, hchanges⟩ := apply_eq_ofChanges window huniform
  rw [apply_of_declared hwindow]
  refine ⟨?_, hquery, fun hnil => huniform (.inr ?_)⟩
  · rw [Outcome.fired, ← Option.isSome_map, hchanges]
    rfl
  · rw [← (map_text_filter _).1, hnil, List.map_nil]

end Apply

section Remaining

variable {query : List Char}
  (hnamed : ∀ stage ∈ (layout query).stages, stage.verb?.isSome = true)
  (hback : ∀ stage ∈ (layout query).stages, stage.text.getLast? ≠ some '\\')
  (hne : (layout query).stages.filter (!isRedundant ·) ≠ [])

include hnamed hback hne

theorem exists_stage_of_remaining {stage : Stage}
    (h : stage ∈ (layout (remaining (layout query))).stages) :
    ∃ old ∈ (layout query).stages, ¬ TimeFilter old.text ∧ old.body = stage.body := by
  obtain ⟨old, hold, hbody⟩ :=
    List.mem_map.mp (bodies_remaining hnamed hback hne ▸ List.mem_map_of_mem h)
  obtain ⟨hmem, hredundant⟩ := List.mem_filter.mp hold
  exact ⟨old, hmem, by simpa [isRedundant_eq] using hredundant, hbody⟩

theorem preserves_remaining :
    Preserves (layout query).stages (layout (remaining (layout query))).stages := by
  constructor
  · intro marks hlocal hcalm stage hstage
    obtain ⟨old, hold, -, hbody⟩ := exists_stage_of_remaining hnamed hback hne hstage
    exact hbody ▸ hcalm old hold
  · rintro ⟨stage, hstage, hverb⟩
    have hredundant : isRedundant stage = false := by
      rw [isRedundant_eq, decide_eq_false_iff_not]
      exact fun htime => absurd (hasVerb_inj hverb htime.hasVerb) (by decide)
    have hkept : stage ∈ (layout query).stages.filter (!isRedundant ·) :=
      List.mem_filter.mpr ⟨hstage, by rw [hredundant]; rfl⟩
    obtain ⟨new, hnew, hbody⟩ :=
      List.mem_map.mp ((bodies_remaining hnamed hback hne).symm ▸ List.mem_map_of_mem hkept)
    refine ⟨new, hnew, ?_⟩
    rwa [Stage.hasVerb, Stage.verb?, Stage.text, hbody]

theorem spent_remaining (context : Context) :
    Spent context (layout (remaining (layout query))).stages := by
  refine .inr (.inl fun stage hstage => ?_)
  obtain ⟨old, -, htime, hbody⟩ := exists_stage_of_remaining hnamed hback hne hstage
  rwa [Stage.text, ← hbody]

end Remaining

/-- A query from which time filters are dropped for good. -/
def Tame (context : Context) (query : String) : Prop :=
  (dropTimeFilter.apply context query).fired = true → ∀ stage ∈ (layout query.toList).stages,
    stage.verb?.isSome = true ∧ stage.text.getLast? ≠ some '\\'

instance (context : Context) (query : String) : Decidable (Tame context query) :=
  inferInstanceAs (Decidable (_ → _))

theorem Tame.rested {context : Context} {query : String} (h : Tame context query)
    (hrested : Rested query.toList) :
    Rested (dropTimeFilter.apply context query).query.toList ∧
      Spent context (layout (dropTimeFilter.apply context query).query.toList).stages := by
  by_cases hspent : Spent context (layout query.toList).stages
  · rw [apply_of_spent hspent]
    exact ⟨hrested, hspent⟩
  · obtain ⟨hfired, hquery, hne⟩ := apply_of_not_spent hspent
    have hnamed stage hstage := (h hfired stage hstage).1
    have hback stage hstage := (h hfired stage hstage).2
    rw [hquery]
    exact ⟨hrested.of_preserves (preserves_remaining hnamed hback hne),
      spent_remaining hnamed hback hne context⟩

end DropTimeFilter

/-! ## Sort keys -/

namespace SortCall

instance : DecidablePred Enclosable := fun stage =>
  decidable_of_iff (∀ item ∈ listItems (stage.body.drop 4),
      (normalize? (text item)).isSome = true → splitCommas 1 item = [item]) (by
    simp only [isSome_normalize?, forall_exists_index, Enclosable])

/-- A stage whose keys are mended for good. -/
structure Tame (stage : Stage) : Prop where
  comma : (trimStart (stage.text.drop 4)).head? ≠ some ','
  exposed : ¬ Exposed stage
  enclosable : Enclosable stage

instance : DecidablePred Tame := fun stage =>
  decidable_of_iff ((trimStart (stage.text.drop 4)).head? ≠ some ',' ∧ ¬ Exposed stage ∧
      Enclosable stage)
    ⟨fun h => ⟨h.1, h.2.1, h.2.2⟩, fun h => ⟨h.comma, h.exposed, h.enclosable⟩⟩

theorem Mended.eq_or_hasVerb {stage new : Stage} (h : Mended stage new) :
    new = stage ∨ stage.hasVerb "sort" = true ∧ new.hasVerb "sort" = true := by
  cases h with
  | kept => exact .inl rfl
  | changed hmendable =>
      refine .inr ⟨hmendable.1, ?_⟩
      rw [Stage.hasVerb, Stage.verb?, text_stageOf]
      rfl

theorem Mended.timeFilter_iff {stage new : Stage} (h : Mended stage new) :
    DropTimeFilter.TimeFilter new.text ↔ DropTimeFilter.TimeFilter stage.text := by
  have hsort {other : Stage} (hverb : other.hasVerb "sort" = true) :
      ¬ DropTimeFilter.TimeFilter other.text := fun htime =>
    absurd (hasVerb_inj hverb htime.hasVerb) (by decide)
  rcases h.eq_or_hasVerb with rfl | ⟨hstage, hnew⟩
  · rfl
  · exact iff_of_false (hsort hnew) (hsort hstage)

section Mended

variable {stages news : List Stage}

theorem forall_of_mended {P : Stage → Prop} (h : List.Forall₂ Mended stages news)
    (hstep : ∀ stage new, Mended stage new → P stage → P new)
    (hstages : ∀ stage ∈ stages, P stage) : ∀ new ∈ news, P new := by
  induction h with
  | nil => exact hstages
  | cons hmended _ ih =>
      obtain ⟨hstage, hstages⟩ := List.forall_mem_cons.mp hstages
      exact List.forall_mem_cons.mpr ⟨hstep _ _ hmended hstage, ih hstages⟩

theorem mem_of_mended (h : List.Forall₂ Mended stages news) {stage : Stage} (hmem : stage ∈ stages)
    (hplain : ¬ Mendable stage) : stage ∈ news := by
  induction h with
  | nil => exact hmem
  | @cons old new stages news hmended _ ih =>
      rcases List.mem_cons.mp hmem with rfl | hmem
      · cases hmended with
        | kept => exact List.mem_cons_self
        | changed hmendable => exact absurd hmendable hplain
      · exact List.mem_cons_of_mem _ (ih hmem)

theorem preserves_mended (h : List.Forall₂ Mended stages news) : Preserves stages news where
  calm marks hlocal := forall_of_mended h fun _ _ hmended => hmended.calm hlocal
  aligned := by
    rintro ⟨stage, hstage, hverb⟩
    refine ⟨stage, mem_of_mended h hstage fun hmendable => ?_, hverb⟩
    exact absurd (hasVerb_inj hverb hmendable.1) (by decide)

theorem spent_mended {context : Context} (h : List.Forall₂ Mended stages news)
    (hspent : DropTimeFilter.Spent context stages) : DropTimeFilter.Spent context news :=
  hspent.imp_right (.imp
    (forall_of_mended h fun _ _ hmended => mt hmended.timeFilter_iff.mp)
    (forall_of_mended h fun _ _ hmended => hmended.timeFilter_iff.mpr))

end Mended

theorem rested_apply {context : Context} {query : String}
    (htame : ∀ stage ∈ (layout query.toList).stages, Mendable stage → Tame stage)
    (hrested : Rested query.toList)
    (hspent : DropTimeFilter.Spent context (layout query.toList).stages) :
    let output := (sortCall.apply context query).query.toList
    Rested output ∧ DropTimeFilter.Spent context (layout output).stages ∧
      ∀ stage ∈ (layout output).stages, mendStage? stage = none := by
  intro output
  have houtput : output = (patch query.toList).after := String.toList_ofList ..
  obtain ⟨news, hmended, hlayout⟩ :=
    exists_layout (fun stage hstage h => (htame stage hstage h).comma) fun stage hstage h =>
      (htame stage hstage h).exposed
  obtain rfl : (layout output).stages = news := houtput ▸ congrArg Layout.stages hlayout
  exact ⟨hrested.of_preserves (preserves_mended hmended), spent_mended hmended hspent,
    mendStage?_of_mended hmended fun stage hstage h => (htame stage hstage h).enclosable⟩

end SortCall

/-! ## Conditional counts -/

namespace FlagCount

structure Tame (query : List Char) : Prop where
  closed : ∀ count ∈ found query, ∀ span ∈ ((layout query).spans List.length)[count.stage]?,
    count.span.stop ≤ span.stop
  apart : ∀ inner ∈ found query, ∀ outer ∈ found query, ¬ inner.Within outer

instance : DecidablePred Tame := fun _ =>
  decidable_of_iff (_ ∧ _) ⟨fun h => ⟨h.1, h.2⟩, fun h => ⟨h.closed, h.apart⟩⟩

theorem not_hasVerb {stage : Stage} (h : Aggregates stage ∨ stage.verb? = some "make_col")
    {verb : String} (hverb : verb ∉ "make_col" :: aggregationVerbs) :
    stage.hasVerb verb ≠ true := by
  intro hhas
  refine hverb (List.mem_cons.mpr ?_)
  rcases h with ⟨other, hother, hcontains⟩ | hmakes
  · obtain rfl := hasVerb_inj hhas (beq_iff_eq.mpr hother)
    exact .inr (List.contains_iff_mem.mp hcontains)
  · exact .inl (hasVerb_inj hhas (beq_iff_eq.mpr hmakes))

theorem not_timeFilter {stage : Stage} (h : Aggregates stage ∨ stage.verb? = some "make_col") :
    ¬ DropTimeFilter.TimeFilter stage.text := fun htime =>
  not_hasVerb h (by decide) htime.hasVerb

section Parts

variable {parts : List Section}

theorem plain_of_hasVerb {part : Section} (hpart : part.segments ≠ [] → Aggregates part.stage)
    {verb : String} (hverb : verb ∉ "make_col" :: aggregationVerbs)
    (h : part.stage.hasVerb verb = true) : part.segments = [] ∧ part.makes = false := by
  refine ⟨by_contra fun hne => not_hasVerb (.inl (hpart hne)) hverb h, Bool.eq_false_iff.mpr ?_⟩
  exact fun hmakes => not_hasVerb (.inr (beq_iff_eq.mp hmakes)) hverb h

theorem mended_of_plain (h : ∀ part ∈ parts, part.segments = [] ∧ part.makes = false) :
    mended false parts = parts.map Section.stage := by
  induction parts with
  | nil => rfl
  | cons part parts ih =>
      obtain ⟨⟨hsegments, hmakes⟩, hparts⟩ := List.forall_mem_cons.mp h
      rw [mended, hsegments, hmakes, ih hparts]
      simp [Section.summedRow, Section.stage, Section.body, hsegments]

variable (hparts : ∀ part ∈ parts, part.segments ≠ [] → Aggregates part.stage)
  (hspells : Spells parts)

include hparts hspells

theorem preserves_mended
    (hkept : ∀ part ∈ parts, ∀ segment ∈ part.segments, StartsPath (text segment.kept).getLast?) :
    Preserves (parts.map Section.stage) (mended false parts) where
  calm marks hlocal h :=
    calm_mended hlocal hspells hkept fun part hpart => h part.stage (List.mem_map_of_mem hpart)
  aligned := by
    rintro ⟨stage, hstage, hverb⟩
    obtain ⟨part, hpart, rfl⟩ := List.mem_map.mp hstage
    obtain ⟨hsegments, hmakes⟩ := plain_of_hasVerb (hparts part hpart) (by decide) hverb
    exact ⟨part.stage, mem_mended_of_plain hpart hsegments hmakes, hverb⟩

theorem spent_mended {context : Context}
    (h : DropTimeFilter.Spent context (parts.map Section.stage)) :
    DropTimeFilter.Spent context (mended false parts) := by
  rcases h with hwindow | hnone | hall
  · exact .inl hwindow
  · refine .inr (.inl fun stage hstage => ?_)
    rcases mem_mended hspells hparts hstage with ⟨part, hpart, rfl⟩ | hfresh
    · exact hnone _ (List.mem_map_of_mem hpart)
    · exact not_timeFilter hfresh
  · rw [mended_of_plain fun part hpart => plain_of_hasVerb (hparts part hpart) (by decide)
      (hall _ (List.mem_map_of_mem hpart)).hasVerb]
    exact .inr (.inr hall)

theorem mendStage?_mended
    (h : ∀ stage ∈ parts.map Section.stage, SortCall.mendStage? stage = none) :
    ∀ stage ∈ mended false parts, SortCall.mendStage? stage = none := by
  intro stage hstage
  rcases mem_mended hspells hparts hstage with ⟨part, hpart, rfl⟩ | hfresh
  · exact h _ (List.mem_map_of_mem hpart)
  · exact SortCall.mendStage?_of_not_mendable fun hmendable =>
      not_hasVerb hfresh (by decide) hmendable.1

end Parts

end FlagCount

/-! ## Settled queries -/

/-- No pass has anything to do. -/
structure Settled (context : Context) (query : List Char) : Prop where
  rested : Rested query
  spent : DropTimeFilter.Spent context (layout query).stages
  sorted : ∀ stage ∈ (layout query).stages, SortCall.mendStage? stage = none
  counted : FlagCount.found query = []

theorem FlagCount.Tame.settled {context : Context} {query : String} (h : Tame query.toList)
    (hrested : Rested query.toList)
    (hspent : DropTimeFilter.Spent context (layout query.toList).stages)
    (hsorted : ∀ stage ∈ (layout query.toList).stages, SortCall.mendStage? stage = none) :
    Settled context (flagCount.apply context query).query.toList := by
  obtain ⟨parts, hstages, hcut⟩ := exists_cut h.closed h.apart
  have houtput : (flagCount.apply context query).query.toList =
      Edit.splice query.toList (edits (layout query.toList) (found query.toList)) :=
    String.toList_ofList
  have hnew : (layout (flagCount.apply context query).query.toList).stages = mended false parts :=
    houtput ▸ congrArg Layout.stages (layout_splice hstages hcut)
  rw [hstages] at hspent hsorted
  refine ⟨hrested.of_preserves ?_, ?_, ?_, houtput ▸ found_splice hstages hcut⟩
  · rw [hstages, hnew]
    exact preserves_mended hcut.aggregates hcut.spells (startsPath_kept hstages hcut)
  · rw [hnew]
    exact spent_mended hcut.aggregates hcut.spells hspent
  · rw [hnew]
    exact mendStage?_mended hcut.aggregates hcut.spells hsorted

theorem Settled.silent {context : Context} {query : String} (h : Settled context query.toList) :
    ∀ pass ∈ standardPasses, (pass.apply context query).transformation = none := by
  have hpatch {name rationale : String} {patch : List Char → Patch}
      (h : (patch query.toList).changes = []) :
      ((Pass.ofPatch name rationale patch).apply context query).transformation = none := by
    simp [Pass.ofPatch, Outcome.ofChanges, h]
  have hquiet {outcome : Outcome} (h : outcome.fired = false) : outcome.transformation = none := by
    simpa [Outcome.fired] using h
  obtain ⟨hmetric, hkey, hsearch⟩ := h.rested
  have hcount : (flagCount.apply context query).fired = false := by
    rw [Bool.eq_false_iff, ne_eq, FlagCount.fired_iff, not_not]
    exact h.counted
  simp only [standardPasses, List.forall_mem_cons]
  refine ⟨hpatch (AlignMetric.silent_of_stages hmetric), hpatch (QuoteKey.silent_of_calm hkey),
    hpatch (ExpandTerms.silent_of_calm hsearch), ?_,
    hquiet (SortCall.fired_of_none context h.sorted), hquiet hcount, by simp⟩
  rw [DropTimeFilter.apply_of_spent h.spent]
  rfl

/-! ## One round -/

/-- What a pass is given, if it can mend it for good. -/
structure Tame (context : Context) (name query : String) : Prop where
  search : name = expandTerms.name → ExpandTerms.Tame query.toList
  metric : name = dropTimeFilter.name → AlignMetric.Aligned query.toList
  time : name = dropTimeFilter.name → DropTimeFilter.Tame context query
  sort : name = sortCall.name → ∀ stage ∈ (layout query.toList).stages,
    SortCall.Mendable stage → SortCall.Tame stage
  count : name = flagCount.name → FlagCount.Tame query.toList

instance (context : Context) (name query : String) : Decidable (Tame context name query) :=
  decidable_of_iff (_ ∧ _ ∧ _ ∧ _ ∧ _)
    ⟨fun h => ⟨h.1, h.2.1, h.2.2.1, h.2.2.2.1, h.2.2.2.2⟩,
      fun h => ⟨h.search, h.metric, h.time, h.sort, h.count⟩⟩

theorem Pass.Sound.query_step {pass : Pass} (h : pass.Sound) (context : Context) (query : String) :
    (Run.step context { query } pass).query = (pass.apply context query).query := by
  rw [Run.step]
  dsimp only
  split_ifs with hfired
  · rfl
  · rw [(h context query).silent (by simpa [Outcome.fired] using hfired)]
    rfl

theorem Schedule.settled_round {context : Context} {query : String}
    (h : ∀ input ∈ roundInputs context standardPasses query, Tame context input.1 input.2) :
    Settled context (round context standardPasses query).query.toList := by
  have hsound := standardPasses_sound
  simp only [standardPasses, List.forall_mem_cons] at hsound
  obtain ⟨halign, hquote, hexpand, hdrop, hsort, hflag, -⟩ := hsound
  simp only [standardPasses, roundInputs, List.forall_mem_cons, halign.query_step, hquote.query_step,
    hexpand.query_step, hdrop.query_step, hsort.query_step] at h
  obtain ⟨-, -, hsearch, htime, hkeys, hcounts, -⟩ := h
  simp only [standardPasses, round_cons, Run.append, halign.query_step, hquote.query_step,
    hexpand.query_step, hdrop.query_step, hsort.query_step, hflag.query_step]
  -- The first three passes mend the fragments, and the passes on stages keep them mended.
  have hquoted (text : String) :
      (QuoteKey.patch (quoteKey.apply context text).query.toList).changes = [] := by
    rw [show (quoteKey.apply context text).query.toList = (QuoteKey.patch text.toList).after from
      String.toList_ofList]
    exact QuoteKey.changes_patch_again text.toList
  have hrested := (hsearch.search rfl).rested (hquoted _) (htime.metric rfl)
  obtain ⟨hrested, hspent⟩ := (htime.time rfl).rested hrested
  obtain ⟨hrested, hspent, hsorted⟩ := SortCall.rested_apply (hkeys.sort rfl) hrested hspent
  exact (hcounts.count rfl).settled hrested hspent hsorted

/-- Repairing a repaired query changes nothing, if each pass was given a text that it can mend for
good. -/
theorem Repairer.validate_settles {repairer : Repairer} (h : ofSettings {} = .ok repairer)
    (context : Context) {query output : String}
    (houtput : (repairer.validate context query).transformedQuery = some output)
    (htame : ∀ input ∈ repairer.schedule.inputs context query, Tame context input.1 input.2) :
    let again := repairer.validate context output
    again.transformations = [] ∧ again.transformedQuery = none := by
  obtain rfl := Bytes.ofSettings_eq h
  have hrun (text : String) : (scheduleFor {}).run context text =
      Schedule.round context standardPasses text := rfl
  have heffective := effectiveQuery_validate ⟨{}, scheduleFor {}⟩ context query
  rw [Report.effectiveQuery, houtput, Option.getD_some, hrun] at heffective
  have hsilent := Schedule.round_of_silent (Schedule.settled_round htame).silent
  simp only [heffective, validate, hrun, hsilent, Report.transformations_ofVerdict,
    Report.transformedQuery_ofVerdict]
  exact ⟨rfl, rfl⟩

/-- Under a time window four passes fire in the first run. -/
theorem Repairer.validate_settles_count :
    let context : Context := ⟨some "1h"⟩
    let query := "filter time>now()-1h|statsby n:count_if(a ~ <x y>)|sort -n"
    let output := "make_col n_flag:if((contains(a, \"x\") or contains(a, \"y\")), 1, 0) | " ++
      "statsby n:sum(n_flag)|sort desc(n)"
    ∃ repairer, ofSettings {} = .ok repairer ∧
      (repairer.validate context query).transformedQuery = some output ∧
      (∀ input ∈ repairer.schedule.inputs context query, Tame context input.1 input.2) ∧
      let again := repairer.validate context output
      again.transformations = [] ∧ again.transformedQuery = none := by
  intro context query output
  have hsettings : ofSettings {} = .ok ⟨{}, scheduleFor {}⟩ :=
    ofSettings_of_check (by decide)
  have houtput : (validate ⟨{}, scheduleFor {}⟩ context query).transformedQuery = some output := by
    decide +kernel
  have htame : ∀ input ∈ (scheduleFor {}).inputs context query, Tame context input.1 input.2 := by
    decide +kernel
  exact ⟨⟨{}, scheduleFor {}⟩, hsettings, houtput, htame,
    validate_settles hsettings context houtput htame⟩

/-- The string that one search opens hides the next one.  Once the first is expanded, the second is
found by the next run. -/
theorem Repairer.validate_uncovers_search :
    let query := "filter body ~ <can't connect> or body ~ <timed out>"
    let output := "filter (contains(body, \"can't\") or contains(body, \"connect\")) or " ++
      "body ~ <timed out>"
    ∃ repairer, ofSettings {} = .ok repairer ∧
      (repairer.validate {} query).transformedQuery = some output ∧
      (repairer.validate {} output).transformedQuery =
        some ("filter (contains(body, \"can't\") or contains(body, \"connect\")) or " ++
          "(contains(body, \"timed\") or contains(body, \"out\"))") := by
  intro query output
  exact ⟨_, ofSettings_of_check (by decide +kernel), by decide +kernel, by decide +kernel⟩

end OpalRepair
