import Mathlib
import OpalRepair.Proofs.Layout

/-!
# Where stages stand

The stages of a query together with the cells in front of each.
-/

namespace OpalRepair.Query

open Text

def placesFrom : List Cell → List Stage → List (List Cell × Stage)
  | _, [] => []
  | before, stage :: stages => (before, stage) :: placesFrom (before ++ stage.cells) stages

def places (query : List Char) : List (List Cell × Stage) :=
  placesFrom (layout query).lead (layout query).stages

theorem map_snd_placesFrom (before : List Cell) (stages : List Stage) :
    (placesFrom before stages).map Prod.snd = stages := by
  induction stages generalizing before with
  | nil => rfl
  | cons stage stages ih => simp [placesFrom, ih]

theorem map_snd_places (query : List Char) : (places query).map Prod.snd = (layout query).stages :=
  map_snd_placesFrom _ _

theorem length_placesFrom (before : List Cell) (stages : List Stage) :
    (placesFrom before stages).length = stages.length := by
  rw [← List.length_map (f := Prod.snd), map_snd_placesFrom]

theorem placesFrom_append (before : List Cell) (a b : List Stage) :
    placesFrom before (a ++ b) =
      placesFrom before a ++ placesFrom (before ++ a.flatMap Stage.cells) b := by
  induction a generalizing before with
  | nil => simp [placesFrom]
  | cons stage a ih => simp [placesFrom, ih]

theorem cells_of_mem_placesFrom {before : List Cell} {stages : List Stage}
    {place : List Cell × Stage} (h : place ∈ placesFrom before stages) :
    ∃ after, before ++ stages.flatMap Stage.cells = place.1 ++ place.2.cells ++ after := by
  induction stages generalizing before with
  | nil => simp [placesFrom] at h
  | cons stage stages ih =>
      rcases List.mem_cons.mp h with rfl | h
      · exact ⟨stages.flatMap Stage.cells, by simp⟩
      · obtain ⟨after, hafter⟩ := ih h
        exact ⟨after, by simpa using hafter⟩

theorem cells_of_mem_places {query : List Char} {place : List Cell × Stage}
    (h : place ∈ places query) :
    ∃ after, cells query = place.1 ++ place.2.body ++ after := by
  obtain ⟨after, hafter⟩ := cells_of_mem_placesFrom h
  refine ⟨place.2.gap ++ after, ?_⟩
  have hcells : (layout query).cells = cells query := Layout.cells_ofCells _
  rw [← hcells, Layout.cells, hafter, Stage.cells]
  simp

theorem trimmed_of_mem_places {query : List Char} {place : List Cell × Stage}
    (h : place ∈ places query) : place.2.Trimmed := by
  refine (Layout.apart (cells query)).trimmed place.2 ?_
  rw [show (Layout.ofCells (cells query)).stages = (layout query).stages from rfl,
    ← map_snd_places]
  exact List.mem_map_of_mem h

theorem placesFrom_next {before : List Cell} {stages : List Stage} {i : Nat}
    {place next : List Cell × Stage} (hplace : (placesFrom before stages)[i]? = some place)
    (hnext : (placesFrom before stages)[i + 1]? = some next) :
    next.1 = place.1 ++ place.2.cells := by
  induction stages generalizing before i with
  | nil => simp [placesFrom] at hplace
  | cons stage stages ih =>
      cases i with
      | succ i => exact ih hplace hnext
      | zero =>
          obtain rfl : (before, stage) = place := by simpa [placesFrom] using hplace
          cases stages with
          | nil => simp [placesFrom] at hnext
          | cons other stages =>
              obtain rfl : (before ++ stage.cells, other) = next := by
                simpa [placesFrom] using hnext
              rfl

theorem cells_of_getLast?_placesFrom {before : List Cell} {stages : List Stage}
    {place : List Cell × Stage} (h : (placesFrom before stages).getLast? = some place) :
    before ++ stages.flatMap Stage.cells = place.1 ++ place.2.cells := by
  induction stages generalizing before with
  | nil => simp [placesFrom] at h
  | cons stage stages ih =>
      cases hrest : placesFrom (before ++ stage.cells) stages with
      | nil =>
          obtain rfl : (before, stage) = place := by simpa [placesFrom, hrest] using h
          have hnil : stages = [] := by
            have := map_snd_placesFrom (before ++ stage.cells) stages
            simpa [hrest] using this.symm
          simp [hnil]
      | cons next rest =>
          have hlast : (placesFrom (before ++ stage.cells) stages).getLast? = some place := by
            rw [placesFrom, hrest, List.getLast?_cons_cons] at h
            rw [hrest, h]
          simpa using ih hlast

theorem prefix_of_mem_placesFrom {before : List Cell} {stages : List Stage}
    {place : List Cell × Stage} (h : place ∈ placesFrom before stages) : before <+: place.1 := by
  induction stages generalizing before with
  | nil => simp [placesFrom] at h
  | cons stage stages ih =>
      rcases List.mem_cons.mp h with rfl | h
      · exact List.prefix_rfl
      · exact (List.prefix_append _ _).trans (ih h)

/-! ## Surroundings -/

structure Standing (row before : List Cell) (stage : Stage) (after : List Cell) : Prop where
  row_eq : row = before ++ stage.body ++ (stage.gap ++ after)
  trimmed : stage.Trimmed
  apart : after = [] ∨ stage.gap.any Cell.isSeparator = true
  front : ∀ cell ∈ before.getLast?, cell.isGap = true

theorem Standing.exists_kept {row before after front rest : List Cell} {stage : Stage}
    (h : Standing row before stage after) (hrow : row = front ++ rest)
    (hstart : before.length ≤ front.length)
    (hstop : front.length < before.length + stage.body.length) :
    ∃ kept inner, front = before ++ kept ∧ stage.body = kept ++ inner ∧
      rest = inner ++ (stage.gap ++ after) := by
  have hcells : front ++ rest = before ++ (stage.body ++ (stage.gap ++ after)) := by
    rw [← hrow, h.row_eq, List.append_assoc]
  obtain ⟨kept, rfl, hkept⟩ : ∃ kept, front = before ++ kept ∧
      stage.body ++ (stage.gap ++ after) = kept ++ rest := by
    rcases List.append_eq_append_iff.mp hcells with ⟨kept, hbefore, hrest⟩ | ⟨kept, hfront, hrest⟩
    · obtain rfl : kept = [] := by
        have := congrArg List.length hbefore
        simp only [List.length_append] at this
        exact List.length_eq_zero_iff.mp (by omega)
      exact ⟨[], by simpa using hbefore.symm, by simpa using hrest.symm⟩
    · exact ⟨kept, hfront, hrest⟩
  rcases List.append_eq_append_iff.mp hkept with ⟨more, hmore, -⟩ | ⟨inner, hbody, hrest⟩
  · have := congrArg List.length hmore
    simp only [List.length_append] at this hstop
    omega
  · exact ⟨kept, inner, rfl, hbody, hrest⟩

theorem exists_standing_placesFrom {before : List Cell} {stages : List Stage}
    (hstages : Stage.Apart stages) (hbefore : ∀ cell ∈ before.getLast?, cell.isGap = true)
    {place : List Cell × Stage} (h : place ∈ placesFrom before stages) :
    ∃ after, Standing (before ++ stages.flatMap Stage.cells) place.1 place.2 after := by
  induction stages generalizing before with
  | nil => simp [placesFrom] at h
  | cons stage stages ih =>
      obtain ⟨htrimmed, hgap, hrest⟩ := hstages
      rcases List.mem_cons.mp h with rfl | h
      · refine ⟨stages.flatMap Stage.cells, ?_, htrimmed, ?_, hbefore⟩
        · simp [Stage.cells]
        · exact hgap.imp (fun hnil => by simp [hnil]) id
      · have hlast : ∀ cell ∈ (before ++ stage.cells).getLast?, cell.isGap = true := by
          rcases hgap with rfl | hgap
          · simp [placesFrom] at h
          · obtain ⟨front, cell, hback⟩ : ∃ front cell, stage.gap = front ++ [cell] := by
              rcases stage.gap.eq_nil_or_concat' with hnil | hcons
              · simp [hnil] at hgap
              · exact hcons
            intro other hother
            obtain rfl : cell = other := by simpa [Stage.cells, hback] using hother
            exact htrimmed.gap cell (by simp [hback])
        obtain ⟨after, hafter⟩ := ih hrest hlast h
        exact ⟨after, by simpa using hafter.row_eq, hafter.trimmed, hafter.apart, hafter.front⟩

theorem exists_standing {query : List Char} {place : List Cell × Stage} (h : place ∈ places query) :
    ∃ after, Standing (cells query) place.1 place.2 after := by
  have hlead : ∀ cell ∈ (layout query).lead.getLast?, cell.isGap = true :=
    fun cell hcell => Layout.gap_lead (cells query) cell (List.mem_of_getLast? hcell)
  have hstanding := exists_standing_placesFrom (Layout.apart (cells query)) hlead h
  have hcells : (layout query).lead ++ (layout query).stages.flatMap Stage.cells = cells query :=
    Layout.cells_ofCells _
  rwa [show (Layout.ofCells (cells query)).stages = (layout query).stages from rfl, hcells]
    at hstanding

section Stages

variable {query : List Char} {pre post : List Stage} {stage : Stage}

theorem places_eq (h : (layout query).stages = pre ++ stage :: post) :
    places query = placesFrom (layout query).lead pre ++
      ((layout query).lead ++ pre.flatMap Stage.cells, stage) ::
        placesFrom ((layout query).lead ++ pre.flatMap Stage.cells ++ stage.cells) post := by
  rw [places, h, placesFrom_append]
  rfl

theorem standing_of_stages (h : (layout query).stages = pre ++ stage :: post) :
    Standing (cells query) ((layout query).lead ++ pre.flatMap Stage.cells) stage
      (post.flatMap Stage.cells) := by
  obtain ⟨after, hstanding⟩ := exists_standing
    (show ((layout query).lead ++ pre.flatMap Stage.cells, stage) ∈ places query by
      rw [places_eq h]
      simp)
  have hcells : cells query = (layout query).lead ++ pre.flatMap Stage.cells ++ stage.body ++
      (stage.gap ++ post.flatMap Stage.cells) := by
    rw [show cells query = (layout query).cells from (Layout.cells_ofCells _).symm, Layout.cells, h]
    simp [Stage.cells]
  obtain rfl : after = post.flatMap Stage.cells :=
    List.append_cancel_left (List.append_cancel_left (hstanding.row_eq.symm.trans hcells))
  exact hstanding

end Stages

end OpalRepair.Query
