import Mathlib
import OpalRepair.Proofs.Dropping.Exact
import OpalRepair.Proofs.Settling.Marks
import OpalRepair.Proofs.Sorting.InPlace

/-!
# Calm stages

Nothing is read across a separator, so a query is calm if its stages are.  Stages that are dropped
leave the others as they are, and a sort stage stays calm when its keys are mended.
-/

namespace OpalRepair

open Query Text

namespace Query

variable {marks : Option Char → List Cell → Bool} (hlocal : Local marks)

/-! ## Stage by stage -/

theorem startsPath_of_free {previous : Option Char} (h : AlignMetric.Free previous) :
    StartsPath previous :=
  (startsPath_iff previous).mpr h.any_eq_false

theorem startsPath_of_isBlank {c : Char} (h : isBlank c = true) : StartsPath (some c) :=
  startsPath_of_free fun d hd => by
    obtain rfl := Option.some.inj hd
    exact .inl h

include hlocal

theorem calm_between {previous : Option Char} {row behind : List Cell}
    (hprevious : StartsPath previous) (hbehind : Parted row behind) :
    Calm marks previous row behind ↔ Calm marks none row [] :=
  ⟨fun h => (h.part hlocal hbehind (parted_nil row)).previous hlocal
      (.inl ⟨hprevious, by simp [StartsPath]⟩),
    fun h => (h.part hlocal (parted_nil row) hbehind).previous hlocal
      (.inl ⟨by simp [StartsPath], hprevious⟩)⟩

theorem calm_gap {gap : List Cell} (hgap : ∀ cell ∈ gap, isBlank cell.char = true ∨ cell.char = '|')
    (previous : Option Char) (behind : List Cell) : Calm marks previous gap behind := by
  refine calm_plain hlocal fun cell hcell => ?_
  refine ⟨AlignMetric.not_isNameChar_of_gap (hgap cell hcell), ?_⟩
  rcases hgap cell hcell with hblank | hpipe
  · intro htilde
    rw [htilde] at hblank
    exact absurd hblank (by decide)
  · simp [hpipe]

theorem calm_stages {stages : List Stage} {previous : Option Char} (hstages : Stage.Apart stages)
    (hpipe : ∀ cell ∈ stages.flatMap Stage.cells, cell.isSeparator = true → cell.char = '|')
    (hprevious : AlignMetric.Free previous) :
    Calm marks previous (stages.flatMap Stage.cells) [] ↔
      ∀ stage ∈ stages, Calm marks none stage.body [] := by
  induction stages generalizing previous with
  | nil => simp [Calm]
  | cons stage stages ih =>
      obtain ⟨htrimmed, hapart, hrest⟩ := hstages
      have hpipeGap : ∀ cell ∈ stage.gap, cell.isSeparator = true → cell.char = '|' :=
        fun cell hcell => hpipe cell (by simp [Stage.cells, hcell])
      have hchars := AlignMetric.gap_chars htrimmed.gap hpipeGap
      have hfence : AlignMetric.Fence (text (stage.gap ++ stages.flatMap Stage.cells)) :=
        AlignMetric.fence_gap htrimmed.gap hpipeGap (hapart.imp (fun h => by simp [h]) id)
      rw [List.flatMap_cons, Stage.cells, List.append_assoc, calm_append, List.append_nil,
        calm_between hlocal (startsPath_of_free hprevious) (parted_of_fence hfence stage.body),
        calm_append, and_iff_right (calm_gap hlocal hchars _ _), List.forall_mem_cons]
      refine and_congr_right fun _ => ?_
      rcases hapart with rfl | hapart
      · simp [Calm]
      · refine ih hrest (fun cell hcell => hpipe cell (List.mem_append_right _ hcell)) ?_
        obtain ⟨front, cell, hgap⟩ : ∃ front cell, stage.gap = front ++ [cell] := by
          rcases stage.gap.eq_nil_or_concat' with hnil | hcons
          · simp [hnil] at hapart
          · exact hcons
        intro c hc
        obtain rfl : cell.char = c := by simpa [hgap] using hc
        exact hchars cell (by simp [hgap])

theorem calm_layout (query : List Char) :
    Calm marks none (cells query) [] ↔
      ∀ stage ∈ (layout query).stages, Calm marks none stage.body [] := by
  have hpipe : ∀ cell ∈ (layout query).lead ++ (layout query).stages.flatMap Stage.cells,
      cell.isSeparator = true → cell.char = '|' := by
    rw [← cells_eq_layout]
    exact fun cell hcell => AlignMetric.char_of_separator hcell
  have hlead : ∀ cell ∈ (layout query).lead, isBlank cell.char = true ∨ cell.char = '|' :=
    AlignMetric.gap_chars (Layout.gap_lead (cells query))
      fun cell hcell => hpipe cell (List.mem_append_left _ hcell)
  have hfree : AlignMetric.Free ((text (layout query).lead).getLast?.or none) := by
    intro c hc
    rw [Option.or_none, text, List.getLast?_map, Option.mem_def, Option.map_eq_some_iff] at hc
    obtain ⟨cell, hcell, rfl⟩ := hc
    exact hlead cell (List.mem_of_getLast? hcell)
  rw [cells_eq_layout, calm_append, and_iff_right (calm_gap hlocal hlead _ _)]
  exact calm_stages hlocal (Layout.apart (cells query))
    (fun cell hcell => hpipe cell (List.mem_append_right _ hcell)) hfree

/-! ## Lists -/

theorem calm_intercalate {rows : List (List Cell)} (h : ∀ row ∈ rows, Calm marks none row [])
    {previous : Option Char} (hprevious : StartsPath previous) :
    Calm marks previous (List.intercalate (codeRow ", ".toList) rows) [] := by
  induction rows generalizing previous with
  | nil => trivial
  | cons row rows ih =>
      obtain ⟨hrow, hrest⟩ := List.forall_mem_cons.mp h
      cases rows with
      | nil =>
          rw [List.intercalate_singleton]
          exact (calm_between hlocal hprevious (parted_nil row)).mpr hrow
      | cons next rows =>
          rw [List.intercalate_cons_cons, List.append_assoc, calm_append, calm_append,
            List.append_nil]
          refine ⟨(calm_between hlocal hprevious (parted_of_stop (by decide) row)).mpr hrow,
            calm_words hlocal [("", ", ")] (by decide), ih hrest ?_⟩
          intro c hc
          obtain rfl : c = ' ' := by simpa using hc.symm
          decide

theorem calm_item_of_whole {row : List Cell} (hwhole : Whole 0 row) {previous : Option Char}
    (h : Calm marks previous row [])
    (hprevious : StartsPath previous ∨ ∀ c ∈ (text row).head?, isNameChar c = false) :
    ∀ item ∈ listItems row, Calm marks none item [] := by
  rcases blank_or_item hwhole with
    ⟨-, hnil⟩ | ⟨blanks, item, spaces, rfl, hblanks, hspaces, hbare, -, -, hitem⟩
  · simp [hnil]
  · rw [hitem, List.forall_mem_singleton]
    rw [calm_append, calm_append] at h
    have hfence : AlignMetric.Fence (text (spaces ++ [])) := .inl <| by
      rw [List.append_nil, trimStart, List.dropWhile_eq_nil_iff.mpr (forall_mem_text hspaces)]
    refine (h.1.2.part hlocal (parted_of_fence hfence item) (parted_nil item)).previous hlocal ?_
    rcases blanks.eq_nil_or_concat' with rfl | ⟨front, blank, rfl⟩
    · refine hprevious.imp (fun hstarts => ⟨hstarts, by simp [StartsPath]⟩) fun hname c hc => ?_
      refine hname c ?_
      rwa [List.nil_append, text_append,
        List.head?_append_of_ne_nil _ (by simpa [text] using hbare.ne_nil)]
    · refine .inl ⟨?_, by simp [StartsPath]⟩
      rw [text_append, text_cons, text_nil, List.getLast?_concat, Option.some_or]
      exact startsPath_of_isBlank (hblanks blank (by simp))

theorem calm_items {row : List Cell} {previous : Option Char} (h : Calm marks previous row [])
    (hprevious : StartsPath previous ∨ ∀ c ∈ (text row).head?, isNameChar c = false) :
    ∀ item ∈ listItems row, Calm marks none item [] := by
  induction row using cut_induction generalizing previous with
  | whole row hwhole => exact calm_item_of_whole hlocal hwhole h hprevious
  | cut a comma b ha hbalance hcomma ih =>
      have hchar : comma.char = ',' := Bytes.char_of_isCode hcomma
      rw [calm_append] at h
      obtain ⟨hfront, -, hback⟩ := h
      rw [listItems_cut ha hbalance hcomma, List.forall_mem_append]
      constructor
      · refine calm_item_of_whole hlocal ha
          (hfront.part hlocal (parted_of_stop (by rw [hchar]; decide) a) (parted_nil a)) ?_
        refine hprevious.imp_right fun hname c hc => hname c ?_
        rw [text_append, List.head?_append, Option.mem_def.mp hc]
        rfl
      · rw [hchar] at hback
        exact ih hback (.inl (by simp [StartsPath]; decide))

end Query

/-! ## Sort stages -/

namespace SortCall

variable {marks : Option Char → List Cell → Bool}

theorem Spells.text_back {key direction field front back : List Char}
    (h : Spells key direction field) (hkey : key = front ++ (field ++ back))
    (hfront : ∀ c ∈ front, c = '-' ∨ isBlank c = true) :
    back = [] ∨ ∃ blanks keyword, back = blanks ++ keyword ∧ blanks ≠ [] ∧ Blanks blanks ∧
      (keyword.map foldCase = "asc".toList ∨ keyword.map foldCase = "desc".toList) := by
  let leads (c : Char) : Bool := c == '-' || isBlank c
  have hfield (rest : List Char) : (field ++ rest).dropWhile leads = field ++ rest := by
    obtain ⟨c, more, rfl, hstart, hblank⟩ := h.field.head
    refine List.dropWhile_cons_of_neg ?_
    have hminus : c ≠ '-' := by
      rintro rfl
      exact absurd hstart (by decide)
    simp [leads, hminus, hblank]
  have hleads : ∀ c ∈ front, leads c = true := fun c hc => by simpa [leads] using hfront c hc
  have hback := congrArg (List.dropWhile leads) hkey
  rw [List.dropWhile_append_of_pos hleads, hfield] at hback
  cases h with
  | @minus blanks field hblanks hpath =>
      have hminus : ∀ c ∈ '-' :: blanks, leads c = true :=
        List.forall_mem_cons.mpr ⟨rfl, fun c hc => by simp [leads, hblanks c hc]⟩
      have hself := hfield []
      rw [List.append_nil] at hself
      rw [← List.cons_append, List.dropWhile_append_of_pos hminus, hself] at hback
      exact .inl (by simpa using hback.symm)
  | @keyword field blanks keyword hpath hne hblanks hkeyword =>
      rw [hfield, List.append_cancel_left_eq] at hback
      exact .inr ⟨blanks, keyword, hback.symm, hne, hblanks, hkeyword⟩

theorem parted_back {row back : List Cell} {blanks keyword : List Char}
    (hback : text back = blanks ++ keyword) (hne : blanks ≠ []) (hblanks : Blanks blanks)
    (hkeyword : keyword.map foldCase = "asc".toList ∨ keyword.map foldCase = "desc".toList) :
    Parted row back := by
  have hfirst : ∀ c ∈ (text back).head?, isBlank c = true := by
    rw [hback, List.head?_append_of_ne_nil _ hne]
    exact fun c hc => hblanks c (List.mem_of_mem_head? hc)
  have hnext : ∀ c ∈ (trimStart (text back)).head?, c ≠ '(' ∧ c ≠ '<' := by
    rw [hback, trimStart, List.dropWhile_append_of_pos hblanks]
    intro c hc
    have hmem := (List.dropWhile_suffix isBlank).subset (List.mem_of_mem_head? hc)
    have hfold := List.mem_map_of_mem (f := foldCase) hmem
    constructor <;> rintro rfl <;> rcases hkeyword with hword | hword <;> rw [hword] at hfold <;>
      exact absurd hfold (by decide)
  exact ⟨.inr fun c hc => not_isPathChar_of_isBlank (hfirst c hc),
    blunt_of_first (fun c hc => not_isTermChar_of_isBlank (hfirst c hc)) hnext⟩

theorem head_of_sort {stage : Stage} {rest : List Cell}
    (hbody : stage.body = codeRow "sort".toList ++ rest) (hverb : stage.hasVerb "sort" = true) :
    ∀ c ∈ (text rest).head?, isNameChar c = false := by
  have hname : leadingName? stage.text =
      some ("sort".toList ++ (text rest).takeWhile isNameChar) := by
    rw [Stage.text, hbody, text_append, text_codeRow]
    rfl
  rw [Stage.hasVerb, Stage.verb?, hname, Option.map_some, beq_iff_eq, Option.some.injEq] at hverb
  have hnil : (text rest).takeWhile isNameChar = [] := by
    have hlist := congrArg String.toList hverb
    rwa [String.toList_ofList, List.append_right_eq_self] at hlist
  intro c hc
  by_contra hchar
  cases hrest : text rest with
  | nil => simp [hrest] at hc
  | cons d more =>
      obtain rfl : d = c := by simpa [hrest] using hc
      simp [hrest, hchar] at hnil

variable (hlocal : Local marks)

include hlocal

theorem calm_direction {key direction field : List Char} (h : Spells key direction field)
    (previous : Option Char) (behind : List Cell) :
    Calm marks previous (codeRow (direction ++ ['('])) behind := by
  rcases h.direction_cases with rfl | rfl | rfl | rfl
  · exact calm_words hlocal [("asc", "(")] (by decide)
  · exact calm_words hlocal [("a", "ſ"), ("c", "(")] (by decide)
  · exact calm_words hlocal [("desc", "(")] (by decide)
  · exact calm_words hlocal [("de", "ſ"), ("c", "(")] (by decide)

theorem Respelled.calm {s : Scanner} {item row : List Cell} (h : Respelled s item row)
    (hitem : Calm marks none item []) : Calm marks none row [] := by
  cases h with
  | kept => exact hitem
  | @called direction front field back close hspells hsplit hfront hinert hclose hcode =>
      have hchars : ∀ c ∈ text front, c = '-' ∨ isBlank c = true := by
        intro c hc
        obtain ⟨cell, hcell, rfl⟩ := List.mem_map.mp hc
        exact hfront cell hcell
      have hback : Parted field back := by
        rcases hspells.text_back (by rw [hsplit, text_append, text_append]) hchars with
          hnil | ⟨blanks, keyword, hback, hne, hblanks, hkeyword⟩
        · rw [List.map_eq_nil_iff.mp hnil]
          exact parted_nil field
        · exact parted_back hback hne hblanks hkeyword
      have hbefore : StartsPath ((text front).getLast?.or none) := by
        intro c hc
        rw [Option.or_none] at hc
        rcases hchars c (List.mem_of_getLast? hc) with rfl | hblank
        · decide
        · exact startsPath_of_isBlank hblank c rfl
      rw [hsplit, calm_append, calm_append] at hitem
      obtain ⟨-, hfield, -⟩ := hitem
      rw [List.append_nil, calm_between hlocal hbefore hback] at hfield
      have hrow : callRow direction field close =
          codeRow (direction ++ ['(']) ++ (field ++ [close]) := by
        simp [callRow, codeRow]
      rw [hrow, calm_append, calm_append]
      have hparen : StartsPath ((text (codeRow (direction ++ ['(']))).getLast?.or none) := by
        rw [text_codeRow, List.getLast?_concat]
        simp [StartsPath]
        decide
      have hend : close.char ∈ stops := by
        rw [hclose]
        decide
      refine ⟨calm_direction hlocal hspells none _,
        (calm_between hlocal hparen (parted_of_stop hend field)).mpr hfield, calm_plain hlocal ?_⟩
      rw [List.forall_mem_singleton, hclose]
      decide

theorem Rewriting.calm {last : Option Char} {items rows : List (List Cell)} {s t : Scanner}
    (h : Rewriting last items rows s t) (hitems : ∀ item ∈ items, Calm marks none item []) :
    ∀ row ∈ rows, Calm marks none row [] := by
  induction h with
  | last h =>
      rw [List.forall_mem_singleton] at hitems ⊢
      exact h.cells.calm hlocal hitems
  | cons h _ _ ih =>
      rw [List.forall_mem_cons] at hitems ⊢
      exact ⟨h.cells.calm hlocal hitems.1, ih hitems.2⟩

theorem Mended.calm {stage new : Stage} (h : Mended stage new)
    (hstage : Calm marks none stage.body []) : Calm marks none new.body [] := by
  cases h with
  | kept => exact hstage
  | @changed rows s t hmendable hmends hlisted hrows =>
      have hkeys : Calm marks (some 't') (stage.body.drop 4) [] := by
        rw [hrows.body, calm_append] at hstage
        exact hstage.2
      have hhead := head_of_sort hrows.body hmendable.1
      have hitems := hrows.keys.calm hlocal (calm_items hlocal hkeys (.inr hhead))
      rw [stageOf, calm_append]
      refine ⟨calm_words hlocal [("sort", " ")] (by decide), calm_intercalate hlocal hitems ?_⟩
      exact startsPath_of_isBlank (by decide)

end SortCall

end OpalRepair
