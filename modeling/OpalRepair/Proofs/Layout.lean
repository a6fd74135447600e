import Mathlib
import OpalRepair.Query.Bracket
import OpalRepair.Query.Name

/-!
# Layouts, segment by segment

Separators cut a row into segments.  The layout of a row has a stage for each segment that is not
blank: the segment without the blanks around it.
-/

namespace OpalRepair

open Query Text

/-! ## Trimming lists -/

section Trimming

variable {α : Type} {p : α → Bool}

theorem Text.dropTrailing_cons (x : α) (xs : List α) :
    dropTrailing p (x :: xs) =
      if (dropTrailing p xs).isEmpty && p x then [] else x :: dropTrailing p xs := rfl

theorem Text.dropTrailing_eq_nil {xs : List α} (hxs : ∀ x ∈ xs, p x = true) :
    dropTrailing p xs = [] := by
  induction xs with
  | nil => rfl
  | cons x xs ih =>
      rw [dropTrailing_cons, ih fun y hy => hxs y (by simp [hy])]
      simp [hxs x (by simp)]

theorem Text.dropTrailing_append_of_all (xs : List α) {ys : List α} (hys : ∀ y ∈ ys, p y = true) :
    dropTrailing p (xs ++ ys) = dropTrailing p xs := by
  induction xs with
  | nil => exact dropTrailing_eq_nil hys
  | cons x xs ih => rw [List.cons_append, dropTrailing_cons, dropTrailing_cons, ih]

theorem Text.dropTrailing_append_cons {x : α} (xs : List α) (hx : p x = false) (ys : List α) :
    dropTrailing p (xs ++ x :: ys) = xs ++ x :: dropTrailing p ys := by
  induction xs with
  | nil => simp [dropTrailing_cons, hx]
  | cons y xs ih =>
      rw [List.cons_append, dropTrailing_cons, ih]
      simp

theorem Text.dropTrailing_concat {x : α} (xs : List α) (hx : p x = false) :
    dropTrailing p (xs ++ [x]) = xs ++ [x] := dropTrailing_append_cons xs hx []

theorem Text.dropTrailing_eq_reverse (xs : List α) :
    dropTrailing p xs = (xs.reverse.dropWhile p).reverse := by
  induction xs using List.reverseRecOn with
  | nil => rfl
  | append_singleton xs x ih =>
      rw [List.reverse_append, List.reverse_singleton, List.singleton_append]
      cases hx : p x with
      | true =>
          rw [dropTrailing_append_of_all xs (by simp [hx]), ih, List.dropWhile_cons_of_pos hx]
      | false => rw [dropTrailing_concat xs hx, List.dropWhile_cons_of_neg (by simp [hx])]; simp

theorem Text.exists_trailing (p : α → Bool) (xs : List α) :
    ∃ back, (∀ x ∈ back, p x = true) ∧ xs = dropTrailing p xs ++ back := by
  refine ⟨(xs.reverse.takeWhile p).reverse, ?_, ?_⟩
  · intro x hx
    exact List.mem_takeWhile_imp (List.mem_reverse.mp hx)
  · rw [dropTrailing_eq_reverse, ← List.reverse_append, List.takeWhile_append_dropWhile,
      List.reverse_reverse]

/-- A list is made of members on which `p` holds, or it has a core that starts and ends with
others. -/
theorem Text.all_or_exists_core (xs : List α) :
    (∀ x ∈ xs, p x = true) ∨
      ∃ front core back, xs = front ++ core ++ back ∧ (∀ x ∈ front, p x = true) ∧
        (∀ x ∈ back, p x = true) ∧ (∃ x ∈ core.head?, p x = false) ∧
        ∃ x ∈ core.getLast?, p x = false := by
  induction xs with
  | nil => exact .inl (by simp)
  | cons x xs ih =>
      cases hx : p x with
      | true =>
          rcases ih with hall | ⟨front, core, back, rfl, hfront, hback, hhead, hlast⟩
          · exact .inl (by simpa [hx] using hall)
          · exact .inr ⟨x :: front, core, back, by simp, by simpa [hx] using hfront, hback, hhead,
              hlast⟩
      | false =>
          rcases ih with hall | ⟨front, core, back, rfl, -, hback, -, hlast⟩
          · exact .inr ⟨[], [x], xs, by simp, by simp, hall, by simp [hx], by simp [hx]⟩
          · refine .inr ⟨[], x :: (front ++ core), back, by simp, by simp, hback, by simp [hx], ?_⟩
            obtain ⟨y, hy, hpy⟩ := hlast
            refine ⟨y, ?_, hpy⟩
            have hcore : core ≠ [] := by rintro rfl; simp at hy
            rw [List.getLast?_cons_of_ne_nil (by simp [hcore]),
              List.getLast?_append_of_ne_nil _ hcore]
            exact hy

variable {front core back : List α}

theorem Text.dropWhile_core (hfront : ∀ x ∈ front, p x = true)
    (hhead : ∃ x ∈ core.head?, p x = false) :
    (front ++ core ++ back).dropWhile p = core ++ back := by
  obtain ⟨x, hx, hpx⟩ := hhead
  cases core with
  | nil => simp at hx
  | cons y core =>
      obtain rfl : y = x := by simpa using hx
      rw [List.append_assoc, List.dropWhile_append_of_pos hfront]
      simp [hpx]

theorem Text.dropTrailing_back (hback : ∀ x ∈ back, p x = true)
    (hlast : ∃ x ∈ core.getLast?, p x = false) : dropTrailing p (core ++ back) = core := by
  obtain ⟨x, hx, hpx⟩ := hlast
  rcases core.eq_nil_or_concat' with rfl | ⟨core, y, rfl⟩
  · simp at hx
  · obtain rfl : y = x := by simpa using hx
    rw [dropTrailing_append_of_all _ hback, dropTrailing_concat _ hpx]

theorem Text.dropTrailing_core (hback : ∀ x ∈ back, p x = true)
    (hlast : ∃ x ∈ core.getLast?, p x = false) :
    dropTrailing p (front ++ core ++ back) = front ++ core := by
  refine dropTrailing_back hback ?_
  obtain ⟨x, hx, hpx⟩ := hlast
  have hcore : core ≠ [] := by rintro rfl; simp at hx
  exact ⟨x, by rwa [List.getLast?_append_of_ne_nil _ hcore], hpx⟩

end Trimming

theorem Query.text_trimCells (row : List Cell) : text (trimCells row) = trim (text row) := by
  rw [trimCells, trim, trimStart, trimEnd, dropTrailing_eq_reverse, dropTrailing_eq_reverse]
  simp [text, ← List.map_reverse, List.dropWhile_map, Function.comp_def]

theorem Query.exists_head?_text {core : List Cell}
    (h : ∃ cell ∈ core.head?, isBlank cell.char = false) :
    ∃ c ∈ (text core).head?, isBlank c = false := by
  obtain ⟨cell, hcell, hblank⟩ := h
  exact ⟨cell.char, by simp [text, Option.mem_def.mp hcell], hblank⟩

theorem Query.exists_getLast?_text {core : List Cell}
    (h : ∃ cell ∈ core.getLast?, isBlank cell.char = false) :
    ∃ c ∈ (text core).getLast?, isBlank c = false := by
  obtain ⟨cell, hcell, hblank⟩ := h
  exact ⟨cell.char, by simp [text, Option.mem_def.mp hcell], hblank⟩

theorem Query.forall_mem_text {row : List Cell} (h : ∀ cell ∈ row, isBlank cell.char = true) :
    ∀ c ∈ text row, isBlank c = true := by
  simpa [text] using h

/-! ## Segments -/

namespace Query.Layout

theorem foldr_cons_blank {segment : List Cell} (hblank : ∀ cell ∈ segment, cell.isGap = true)
    (layout : Layout) :
    segment.foldr cons layout = { layout with lead := segment ++ layout.lead } := by
  induction segment with
  | nil => rfl
  | cons cell segment ih =>
      rw [List.foldr_cons, ih fun c hc => hblank c (by simp [hc]), cons,
        if_pos (hblank cell (by simp))]
      rfl

theorem cons_first {cell : Cell} (hcell : cell.isGap = false) {layout : Layout}
    (hlayout : layout.stages = [] ∨ layout.lead.any Cell.isSeparator = true) :
    cons cell layout = ⟨[], ⟨[cell], layout.lead⟩ :: layout.stages⟩ := by
  rw [cons, if_neg (by simp [hcell])]
  cases hstages : layout.stages with
  | nil => rfl
  | cons stage stages =>
      have hsep : layout.lead.any Cell.isSeparator = true := by simpa [hstages] using hlayout
      simp [hsep]

/-- Cells join a stage that no separator keeps apart from them; blanks in front stay apart. -/
theorem foldr_cons_join {row : List Cell} (hrow : ∀ cell ∈ row, cell.isSeparator = false)
    (stage : Stage) (stages : List Stage) :
    ∃ front back, row = front ++ back ∧ (∀ cell ∈ front, cell.isGap = true) ∧
      (∀ cell ∈ row.head?, cell.isGap = false → front = []) ∧
      row.foldr cons ⟨[], stage :: stages⟩ =
        ⟨front, ⟨back ++ stage.body, stage.gap⟩ :: stages⟩ := by
  induction row with
  | nil => exact ⟨[], [], by simp⟩
  | cons cell row ih =>
      obtain ⟨front, back, rfl, hfront, -, hfold⟩ := ih fun c hc => hrow c (by simp [hc])
      cases hcell : cell.isGap with
      | true =>
          refine ⟨cell :: front, back, rfl, by simpa [hcell] using hfront, by simp [hcell], ?_⟩
          rw [List.foldr_cons, hfold, cons, if_pos hcell]
      | false =>
          refine ⟨[], cell :: (front ++ back), rfl, by simp, by simp, ?_⟩
          have hsep : front.any Cell.isSeparator = false := by
            rw [List.any_eq_false]
            intro c hc
            simp [hrow c (by simp [hc])]
          rw [List.foldr_cons, hfold, cons, if_neg (by simp [hcell])]
          simp [hsep]

/-- A segment that is not blank becomes a stage, in front of a layout that it is kept apart
from. -/
theorem foldr_cons_core {front core back : List Cell}
    (hsegment : ∀ cell ∈ front ++ core ++ back, cell.isSeparator = false)
    (hfront : ∀ cell ∈ front, isBlank cell.char = true)
    (hback : ∀ cell ∈ back, isBlank cell.char = true)
    (hhead : ∃ cell ∈ core.head?, isBlank cell.char = false)
    (hlast : ∃ cell ∈ core.getLast?, isBlank cell.char = false) {layout : Layout}
    (hlayout : layout.stages = [] ∨ layout.lead.any Cell.isSeparator = true) :
    (front ++ core ++ back).foldr cons layout =
      ⟨front, ⟨core, back ++ layout.lead⟩ :: layout.stages⟩ := by
  have hgap {cell : Cell} (h : isBlank cell.char = true) : cell.isGap = true := by
    simp [Cell.isGap, h]
  rw [List.foldr_append, foldr_cons_blank fun cell hcell => hgap (hback cell hcell),
    List.foldr_append]
  rcases core.eq_nil_or_concat' with rfl | ⟨init, last, rfl⟩
  · simp at hhead
  -- The last cell of the core opens the stage, the rest of the core joins it.
  have hopen : cons last { layout with lead := back ++ layout.lead } =
      ⟨[], ⟨[last], back ++ layout.lead⟩ :: layout.stages⟩ := by
    refine cons_first ?_ ?_
    · obtain ⟨cell, hcell, hblank⟩ := hlast
      obtain rfl : last = cell := by simpa using hcell
      simp [Cell.isGap, hblank, hsegment last (by simp)]
    · rcases hlayout with hnil | hsep
      · exact .inl hnil
      · exact .inr (by simp [hsep])
  rw [List.foldr_append, List.foldr_cons, List.foldr_nil, hopen]
  obtain ⟨gap, body, rfl, -, hstart, hfold⟩ :=
    foldr_cons_join (show ∀ cell ∈ init, cell.isSeparator = false from
      fun cell hcell => hsegment cell (by simp [hcell])) ⟨[last], back ++ layout.lead⟩ layout.stages
  have hnogap : gap = [] := by
    cases hinit : gap ++ body with
    | nil => exact (List.append_eq_nil_iff.mp hinit).1
    | cons cell rest =>
        refine hstart cell (by simp [hinit]) ?_
        obtain ⟨cell', hcell', hblank⟩ := hhead
        obtain rfl : cell = cell' := by simpa [hinit] using hcell'
        have hmem : cell ∈ gap ++ body := by simp [hinit]
        have hsep := hsegment cell (by
          rcases List.mem_append.mp hmem with h | h <;> simp [h])
        simp [Cell.isGap, hblank, hsep]
  rw [hfold, foldr_cons_blank fun cell hcell => hgap (hfront cell hcell), hnogap]
  simp

end Query.Layout

/-! ## The shape of a layout -/

namespace Query

/-- A stage starts and ends with a cell that is no gap and holds no separator; the gap behind it is
one. -/
structure Stage.Trimmed (stage : Stage) : Prop where
  head : ∃ cell ∈ stage.body.head?, cell.isGap = false
  last : ∃ cell ∈ stage.body.getLast?, cell.isGap = false
  body : ∀ cell ∈ stage.body, cell.isSeparator = false
  gap : ∀ cell ∈ stage.gap, cell.isGap = true

def Stage.Apart : List Stage → Prop
  | [] => True
  | stage :: stages =>
    stage.Trimmed ∧ (stages = [] ∨ stage.gap.any Cell.isSeparator = true) ∧ Stage.Apart stages

namespace Layout

theorem gap_lead_cons {cell : Cell} {layout : Layout} (hlead : ∀ c ∈ layout.lead, c.isGap = true) :
    ∀ c ∈ (cons cell layout).lead, c.isGap = true := by
  unfold cons
  split
  · rename_i hcell
    simpa [hcell] using hlead
  · split
    · simp
    · split <;> simp

theorem apart_cons {cell : Cell} {layout : Layout} (hlead : ∀ c ∈ layout.lead, c.isGap = true)
    (hstages : Stage.Apart layout.stages) : Stage.Apart (cons cell layout).stages := by
  unfold cons
  split
  · exact hstages
  · rename_i hcell
    have hgap : cell.isGap = false := by simpa using hcell
    have hsep : cell.isSeparator = false := by
      simp only [Cell.isGap, Bool.or_eq_false_iff] at hgap
      exact hgap.1
    have hsingle (gap : List Cell) (h : ∀ c ∈ gap, c.isGap = true) : Stage.Trimmed ⟨[cell], gap⟩ :=
      ⟨by simp [hgap], by simp [hgap], by simp [hsep], h⟩
    cases hstagesEq : layout.stages with
    | nil => exact ⟨hsingle _ hlead, .inl rfl, trivial⟩
    | cons stage stages =>
        rw [hstagesEq] at hstages
        dsimp only
        split
        · rename_i hany
          exact ⟨hsingle _ hlead, .inr hany, hstages⟩
        · rename_i hany
          obtain ⟨htrimmed, hapart, hrest⟩ := hstages
          refine ⟨⟨by simp [hgap], ?_, ?_, htrimmed.gap⟩, hapart, hrest⟩
          · obtain ⟨last, hlast, hlastGap⟩ := htrimmed.last
            have hbody : stage.body ≠ [] := by
              intro hnil
              simp [hnil] at hlast
            refine ⟨last, ?_, hlastGap⟩
            rw [List.getLast?_cons_of_ne_nil (by simp [hbody]),
              List.getLast?_append_of_ne_nil _ hbody]
            exact hlast
          · simp only [List.any_eq_true, not_exists, not_and, Bool.not_eq_true] at hany
            simp only [List.mem_cons, List.mem_append]
            rintro c (rfl | hc | hc)
            · exact hsep
            · exact hany c hc
            · exact htrimmed.body c hc

theorem gap_lead (row : List Cell) : ∀ c ∈ (ofCells row).lead, c.isGap = true := by
  induction row with
  | nil => simp [ofCells]
  | cons cell row ih => exact gap_lead_cons ih

theorem apart (row : List Cell) : Stage.Apart (ofCells row).stages := by
  induction row with
  | nil => trivial
  | cons cell row ih => exact apart_cons (gap_lead row) ih

end Layout

theorem Stage.Apart.trimmed {stages : List Stage} (h : Stage.Apart stages) :
    ∀ stage ∈ stages, stage.Trimmed := by
  induction stages with
  | nil => simp
  | cons stage stages ih =>
      simp only [List.mem_cons]
      rintro other (rfl | hother)
      · exact h.1
      · exact ih h.2.2 other hother

theorem Stage.Trimmed.trimStart_text {stage : Stage} (h : stage.Trimmed) :
    trimStart stage.text = stage.text := by
  obtain ⟨cell, hcell, hgap⟩ := h.head
  have hblank : isBlank cell.char = false := by
    simp only [Cell.isGap, Bool.or_eq_false_iff] at hgap
    exact hgap.2
  cases hbody : stage.body with
  | nil => simp [hbody] at hcell
  | cons first body =>
      obtain rfl : first = cell := by simpa [hbody] using hcell
      simp [Stage.text, hbody, trimStart, hblank]

theorem Stage.Trimmed.text_of_verb? {stage : Stage} (h : stage.Trimmed) {verb : String}
    (hverb : stage.verb? = some verb) :
    stage.text.takeWhile isNameChar = verb.toList ∧ verb.toList ≠ [] := by
  obtain ⟨name, hname, rfl⟩ := Option.map_eq_some_iff.mp hverb
  rw [leadingName?, h.trimStart_text] at hname
  split at hname
  · simp at hname
  · rename_i c rest hrun
    split at hname
    · simp at hname
    · obtain rfl := Option.some.inj hname
      exact ⟨by rw [hrun, String.toList_ofList], by simp⟩

end Query

end OpalRepair
