import Mathlib
import OpalRepair.Proofs.Counting.Replaced

/-!
# Stages cut at their counts

If no count stands inside another and every count is closed in its own stage, a stage is made of
what it keeps and of the calls in between.
-/

namespace OpalRepair.FlagCount

open Query Text Vocabulary

/-! ## Segments and sections -/

structure Segment where
  kept : List Cell
  count : Count
  head : List Cell
  paren : Cell
  inside : List Cell
  close : Cell

namespace Segment

def call (segment : Segment) : List Cell :=
  segment.head ++ segment.paren :: (segment.inside ++ [segment.close])

def cells (segment : Segment) : List Cell := segment.kept ++ segment.call

def Placed : Nat → List Segment → Prop
  | _, [] => True
  | start, segment :: segments =>
    Spelled segment.count segment.head segment.paren segment.inside segment.close ∧
      segment.count.span = ⟨start + segment.kept.length, start + segment.cells.length⟩ ∧
      Placed (start + segment.cells.length) segments

theorem Placed.spelled {start : Nat} {segments : List Segment} (h : Placed start segments) :
    ∀ segment ∈ segments,
      Spelled segment.count segment.head segment.paren segment.inside segment.close := by
  induction segments generalizing start with
  | nil => simp
  | cons segment segments ih =>
      intro other hother
      rcases List.mem_cons.mp hother with rfl | hother
      · exact h.1
      · exact ih h.2.2 other hother

theorem Placed.within {start : Nat} {segments : List Segment} (h : Placed start segments) :
    ∀ segment ∈ segments, start ≤ segment.count.span.start ∧
      segment.count.span.start < segment.count.span.stop ∧
      segment.count.span.stop ≤ start + (segments.flatMap Segment.cells).length := by
  induction segments generalizing start with
  | nil => simp
  | cons segment segments ih =>
      obtain ⟨-, hspan, hrest⟩ := h
      intro other hother
      rw [List.flatMap_cons, List.length_append]
      rcases List.mem_cons.mp hother with rfl | hother
      · rw [hspan]
        simp only [cells, call, List.length_append, List.length_cons, List.length_nil]
        omega
      · obtain ⟨hstart, hlt, hstop⟩ := ih hrest other hother
        omega

end Segment

structure Section where
  segments : List Segment
  tail : List Cell
  gap : List Cell

namespace Section

def body (part : Section) : List Cell := part.segments.flatMap Segment.cells ++ part.tail

def stage (part : Section) : Stage := ⟨part.body, part.gap⟩

end Section

def Aggregates (stage : Stage) : Prop :=
  ∃ verb, stage.verb? = some verb ∧ aggregationVerbs.contains verb = true

/-- The sections are cut at the counts of their stages.  The first has this number and position. -/
def Cut (counts : List Count) : Nat → Nat → List Section → Prop
  | _, _, [] => True
  | number, start, part :: parts =>
    part.segments.map Segment.count = counts.filter (·.stage == number) ∧
      Segment.Placed start part.segments ∧ (part.segments ≠ [] → Aggregates part.stage) ∧
      Cut counts (number + 1) (start + part.stage.cells.length) parts

theorem Cut.aggregates {counts : List Count} {number start : Nat} {parts : List Section}
    (h : Cut counts number start parts) :
    ∀ part ∈ parts, part.segments ≠ [] → Aggregates part.stage := by
  induction parts generalizing number start with
  | nil => simp
  | cons part parts ih =>
      obtain ⟨-, -, hverb, hrest⟩ := h
      intro other hother
      rcases List.mem_cons.mp hother with rfl | hother
      · exact hverb
      · exact ih hrest other hother

theorem Cut.split {counts : List Count} {number start : Nat} {pre post : List Section}
    {part : Section} (h : Cut counts number start (pre ++ part :: post)) :
    part.segments.map Segment.count = counts.filter (·.stage == number + pre.length) ∧
      Segment.Placed (start + ((pre.map Section.stage).flatMap Stage.cells).length)
        part.segments := by
  induction pre generalizing number start with
  | nil => exact ⟨h.1, h.2.1⟩
  | cons first pre ih =>
      obtain ⟨hcounts, hplaced⟩ := ih h.2.2.2
      refine ⟨?_, ?_⟩
      · rw [hcounts, List.length_cons, Nat.add_right_comm, Nat.add_assoc]
      · simpa [Nat.add_assoc] using hplaced

/-! ## The stage of a count -/

section Stages

variable {query : List Char} {pre post : List Stage} {stage : Stage}

theorem getElem?_spans_stage (hstages : (layout query).stages = pre ++ stage :: post) :
    ((layout query).spans List.length)[pre.length]? =
      some ⟨((layout query).lead ++ pre.flatMap Stage.cells).length,
        ((layout query).lead ++ pre.flatMap Stage.cells).length + stage.body.length⟩ := by
  rw [Bytes.spans_length, places_eq hstages, List.getElem?_map,
    ← length_placesFrom (layout query).lead pre, List.getElem?_append_right le_rfl, Nat.sub_self]
  rfl

theorem getElem?_stage (hstages : (layout query).stages = pre ++ stage :: post) :
    (layout query).stages[pre.length]? = some stage := by
  rw [hstages, List.getElem?_append_right le_rfl, Nat.sub_self]
  rfl

theorem aggregation?_eq_some (hstages : (layout query).stages = pre ++ stage :: post)
    {position : Nat} (h : aggregation? (layout query) position = some pre.length) :
    ((layout query).lead ++ pre.flatMap Stage.cells).length ≤ position ∧
      position < ((layout query).lead ++ pre.flatMap Stage.cells).length + stage.body.length ∧
      Aggregates stage := by
  obtain ⟨hfind, hverb⟩ := Option.filter_eq_some_iff.mp h
  obtain ⟨hlength, hcontains, -⟩ := List.findIdx?_eq_some_iff_getElem.mp hfind
  have hspan := getElem?_spans_stage hstages
  rw [List.getElem?_eq_getElem hlength] at hspan
  rw [Option.some.inj hspan, Bytes.contains_iff] at hcontains
  rw [getElem?_stage hstages, Option.bind_some] at hverb
  refine ⟨hcontains.1, hcontains.2, ?_⟩
  cases hname : stage.verb? with
  | none => simp [hname] at hverb
  | some verb => exact ⟨verb, hname, by simpa [hname] using hverb⟩

theorem exists_stage {position number : Nat} (h : aggregation? (layout query) position = some number) :
    ∃ pre stage post, (layout query).stages = pre ++ stage :: post ∧ pre.length = number := by
  obtain ⟨-, hverb⟩ := Option.filter_eq_some_iff.mp h
  cases hstage : (layout query).stages[number]? with
  | none => simp [hstage] at hverb
  | some stage =>
      obtain ⟨hnumber, rfl⟩ := List.getElem?_eq_some_iff.mp hstage
      refine ⟨(layout query).stages.take number, (layout query).stages[number],
        (layout query).stages.drop (number + 1), ?_, List.length_take_of_le hnumber.le⟩
      rw [← List.drop_eq_getElem_cons hnumber, List.take_append_drop]

theorem aggregation?_of_stage (hstages : (layout query).stages = pre ++ stage :: post)
    {position : Nat}
    (hstart : ((layout query).lead ++ pre.flatMap Stage.cells).length ≤ position)
    (hstop : position < ((layout query).lead ++ pre.flatMap Stage.cells).length + stage.body.length)
    (hverb : Aggregates stage) : aggregation? (layout query) position = some pre.length := by
  have hbefore : ((placesFrom (layout query).lead pre).map Bytes.placePositions).findIdx?
      (·.contains position) = none := by
    refine List.findIdx?_eq_none_iff.mpr fun span hspan => ?_
    obtain ⟨place, hplace, rfl⟩ := List.mem_map.mp hspan
    obtain ⟨after, hafter⟩ := cells_of_mem_placesFrom hplace
    rw [hafter] at hstart
    simp only [Stage.cells, List.length_append] at hstart
    refine Bool.eq_false_iff.mpr fun hcontains => ?_
    obtain ⟨-, hlt⟩ := (Bytes.contains_iff _ _).mp hcontains
    simp only [Bytes.placePositions] at hlt
    omega
  have hfind : ((layout query).spans List.length).findIdx? (·.contains position) =
      some pre.length := by
    have hcontains : (Bytes.placePositions ((layout query).lead ++ pre.flatMap Stage.cells,
        stage)).contains position = true := (Bytes.contains_iff _ _).mpr ⟨hstart, hstop⟩
    rw [Bytes.spans_length, places_eq hstages, List.map_append, List.findIdx?_append, hbefore,
      List.map_cons, List.findIdx?_cons, hcontains]
    simp [length_placesFrom]
  obtain ⟨verb, hname, hcontains⟩ := hverb
  rw [aggregation?, hfind, Option.filter_some, getElem?_stage hstages, Option.bind_some, hname,
    Option.any_some, hcontains]
  rfl

theorem exists_call (hstages : (layout query).stages = pre ++ stage :: post) {count : Count}
    (hcount : count ∈ found query) (hstage : count.stage = pre.length)
    (hclosed : count.span.stop ≤
      ((layout query).lead ++ pre.flatMap Stage.cells).length + stage.body.length) :
    Aggregates stage ∧ ∃ kept head paren inside close tail,
      stage.body = kept ++ (head ++ paren :: (inside ++ close :: tail)) ∧
      Spelled count head paren inside close ∧
      count.span = ⟨((layout query).lead ++ pre.flatMap Stage.cells).length + kept.length,
        ((layout query).lead ++ pre.flatMap Stage.cells).length + kept.length +
          (head.length + inside.length + 2)⟩ := by
  obtain ⟨front, rest, hrow, -, hfound⟩ := (mem_counts (layout query)).mp hcount
  obtain ⟨head, paren, inside, close, back, rfl, hspelled, hspan, haggregation, -⟩ :=
    countAt?_eq_some hrow hfound
  rw [hstage] at haggregation
  obtain ⟨hstart, hstop, hverb⟩ := aggregation?_eq_some hstages haggregation
  refine ⟨hverb, ?_⟩
  obtain ⟨kept, inner, rfl, hbody, hinner⟩ :=
    (standing_of_stages hstages).exists_kept hrow hstart hstop
  rw [hspan, hbody] at hclosed
  obtain ⟨tail, rfl⟩ : ∃ tail, inner = (head ++ paren :: (inside ++ [close])) ++ tail := by
    rw [show head ++ paren :: (inside ++ close :: back) =
      (head ++ paren :: (inside ++ [close])) ++ back by simp] at hinner
    rcases List.append_eq_append_iff.mp hinner with ⟨tail, htail, -⟩ | ⟨tail, htail, -⟩
    · exact ⟨tail, htail⟩
    · have := congrArg List.length htail
      simp only [List.length_append, List.length_cons, List.length_nil] at this hclosed
      obtain rfl : tail = [] := List.length_eq_zero_iff.mp (by omega)
      exact ⟨[], by simpa using htail.symm⟩
  refine ⟨kept, head, paren, inside, close, tail, by rw [hbody]; simp, hspelled, ?_⟩
  rw [hspan]
  simp only [List.length_append]

end Stages

/-! ## Cutting -/

theorem start_of_countAt? {layout : Layout} {site : Site} {count : Count}
    (h : countAt? layout site = some count) : count.span.start = site.index := by
  rw [countAt?] at h
  split at h
  · simp at h
  obtain ⟨⟨label, arguments⟩, -, h⟩ := Option.bind_eq_some_iff.mp h
  obtain ⟨stage, -, h⟩ := Option.bind_eq_some_iff.mp h
  obtain ⟨length, -, h⟩ := Option.bind_eq_some_iff.mp h
  dsimp only at h
  split at h
  · simp at h
  · exact (congrArg (·.span.start) (Option.some.inj h)).symm

theorem pairwise_found (query : List Char) :
    (found query).Pairwise fun a b => a.span.start < b.span.start := by
  refine List.Pairwise.filterMap _ (fun a b hlt count hcount other hother => ?_)
    (pairwise_sitesFrom 0 none (cells query))
  rw [start_of_countAt? hcount, start_of_countAt? hother]
  exact hlt

theorem exists_segments {start : Nat} {row : List Cell} {own : List Count}
    (hsorted : own.Pairwise fun a b => a.span.stop ≤ b.span.start)
    (hown : ∀ count ∈ own, ∃ kept head paren inside close tail,
      row = kept ++ (head ++ paren :: (inside ++ close :: tail)) ∧
      Spelled count head paren inside close ∧
      count.span = ⟨start + kept.length, start + kept.length + (head.length + inside.length + 2)⟩) :
    ∃ segments tail, row = segments.flatMap Segment.cells ++ tail ∧
      segments.map Segment.count = own ∧ Segment.Placed start segments := by
  induction own generalizing start row with
  | nil => exact ⟨[], row, by simp, rfl, trivial⟩
  | cons count own ih =>
      obtain ⟨hfirst, hrest⟩ := List.pairwise_cons.mp hsorted
      obtain ⟨kept, head, paren, inside, close, tail, rfl, hspelled, hspan⟩ := hown count (by simp)
      have hcells : (Segment.mk kept count head paren inside close).cells.length =
          kept.length + (head.length + inside.length + 2) := by
        simp only [Segment.cells, Segment.call, List.length_append, List.length_cons, List.length_nil]
        omega
      obtain ⟨segments, back, rfl, hcounts, hplaced⟩ : ∃ segments back,
          tail = segments.flatMap Segment.cells ++ back ∧ segments.map Segment.count = own ∧
            Segment.Placed (start + (kept.length + (head.length + inside.length + 2))) segments := by
        refine ih hrest fun other hother => ?_
        obtain ⟨kept', head', paren', inside', close', tail', hrow, hspelled', hspan'⟩ :=
          hown other (by simp [hother])
        have hbehind := hfirst other hother
        rw [hspan, hspan'] at hbehind
        dsimp only at hbehind
        -- The other call starts behind this one.
        rw [show kept ++ (head ++ paren :: (inside ++ close :: tail)) =
          (kept ++ (head ++ paren :: (inside ++ [close]))) ++ tail by simp] at hrow
        obtain ⟨between, rfl, htail⟩ : ∃ between,
            kept' = (kept ++ (head ++ paren :: (inside ++ [close]))) ++ between ∧
              tail = between ++ (head' ++ paren' :: (inside' ++ close' :: tail')) := by
          rcases List.append_eq_append_iff.mp hrow with ⟨x, hx, htail⟩ | ⟨x, hx, htail⟩
          · exact ⟨x, hx, htail⟩
          · have := congrArg List.length hx
            simp only [List.length_append, List.length_cons, List.length_nil] at this
            obtain rfl : x = [] := List.length_eq_zero_iff.mp (by omega)
            exact ⟨[], by simpa using hx.symm, by simpa using htail.symm⟩
        refine ⟨between, head', paren', inside', close', tail', htail, hspelled', ?_⟩
        rw [hspan']
        simp only [List.length_append, List.length_cons, List.length_nil, Span.mk.injEq]
        omega
      refine ⟨⟨kept, count, head, paren, inside, close⟩ :: segments, back, ?_, ?_, hspelled, ?_, ?_⟩
      · simp [Segment.cells, Segment.call]
      · rw [List.map_cons, hcounts]
      · rw [hcells, hspan, Nat.add_assoc]
      · rwa [hcells]

theorem exists_cut {query : List Char}
    (hclosed : ∀ count ∈ found query, ∀ span ∈ ((layout query).spans List.length)[count.stage]?,
      count.span.stop ≤ span.stop)
    (hapart : ∀ inner ∈ found query, ∀ outer ∈ found query, ¬ inner.Within outer) :
    ∃ parts, (layout query).stages = parts.map Section.stage ∧
      Cut (found query) 0 (layout query).lead.length parts := by
  have hsorted : (found query).Pairwise fun a b => a.span.stop ≤ b.span.start := by
    refine (pairwise_found query).imp_of_mem fun ha hb hlt => ?_
    exact (within_or_behind ha hb hlt).resolve_left (hapart _ hb _ ha)
  have hfrom (pre stages : List Stage) (hstages : (layout query).stages = pre ++ stages) :
      ∃ parts, stages = parts.map Section.stage ∧ Cut (found query) pre.length
        ((layout query).lead ++ pre.flatMap Stage.cells).length parts := by
    induction stages generalizing pre with
    | nil => exact ⟨[], rfl, trivial⟩
    | cons stage post ih =>
        have hcall (count : Count) (hcount : count ∈ (found query).filter (·.stage == pre.length)) :=
          have hmem := List.mem_filter.mp hcount
          have hstage : count.stage = pre.length := by simpa using hmem.2
          exists_call hstages hmem.1 hstage
            (hclosed count hmem.1 _ (by rw [hstage]; exact getElem?_spans_stage hstages))
        obtain ⟨segments, tail, hbody, hcounts, hplaced⟩ :=
          exists_segments (hsorted.filter _) fun count hcount => (hcall count hcount).2
        obtain ⟨parts, rfl, hcut⟩ := ih (pre ++ [stage]) (by rw [hstages]; simp)
        have hstage : stage = Section.stage ⟨segments, tail, stage.gap⟩ := by
          rw [Section.stage, Section.body, ← hbody]
        refine ⟨⟨segments, tail, stage.gap⟩ :: parts, ?_, hcounts, hplaced, fun hne => ?_, ?_⟩
        · rw [List.map_cons, ← hstage]
        · obtain ⟨segment, hsegment⟩ := List.exists_mem_of_ne_nil _ hne
          rw [← hstage]
          exact (hcall segment.count (hcounts ▸ List.mem_map_of_mem hsegment)).1
        · rw [← hstage]
          simpa [Nat.add_assoc] using hcut
  simpa using hfrom [] (layout query).stages rfl

end OpalRepair.FlagCount
