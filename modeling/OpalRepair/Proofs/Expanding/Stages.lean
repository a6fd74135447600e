import Mathlib
import OpalRepair.Proofs.Bytes.Stage
import OpalRepair.Proofs.Expanding.Rows

/-!
# Stages around expanded searches

The text between the brackets of a search may hold anything but brackets, and only the start of a
search is looked up in the scan.  A search that lies within one stage is told from one that does not
by its own text.  The stages of the new query are counted from those of the old one, of the searches
and of what they become, as long as none of these leaves a literal open.

Main statement: `expandTerms_keeps_stages`.
-/

namespace OpalRepair

open Query Text

namespace Query

/-! ## Counting stages -/

def stageStarts : Bool → List Cell → Nat
  | _, [] => 0
  | inside, cell :: row =>
    if cell.isSeparator then stageStarts false row
    else if cell.isGap then stageStarts inside row
    else (if inside then 0 else 1) + stageStarts true row

theorem length_stages_ofCells (row : List Cell) :
    (Layout.ofCells row).stages.length = stageStarts false row ∧
      (Layout.ofCells row).stages.length = stageStarts true row +
        (if (Layout.ofCells row).lead.any Cell.isSeparator ∨ (Layout.ofCells row).stages = []
          then 0 else 1) := by
  induction row with
  | nil => exact ⟨rfl, rfl⟩
  | cons cell row ih =>
      change (Layout.cons cell (Layout.ofCells row)).stages.length = _ ∧
        (Layout.cons cell (Layout.ofCells row)).stages.length = _ + (if
          (Layout.cons cell (Layout.ofCells row)).lead.any Cell.isSeparator ∨
            (Layout.cons cell (Layout.ofCells row)).stages = [] then 0 else 1)
      generalize Layout.ofCells row = layout at ih
      obtain ⟨lead, stages⟩ := layout
      obtain ⟨hout, hin⟩ := ih
      rw [stageStarts, stageStarts]
      cases hseparator : cell.isSeparator with
      | true => simpa [Layout.cons, Cell.isGap, hseparator] using hout
      | false =>
          cases hgap : cell.isGap with
          | true =>
              have hboth := And.intro hout hin
              simpa [Layout.cons, hgap, hseparator] using hboth
          | false =>
              cases stages with
              | nil => simpa [Layout.cons, hgap] using hin.symm
              | cons stage stages =>
                  cases hlead : lead.any Cell.isSeparator with
                  | true =>
                      have hcons : Layout.cons cell ⟨lead, stage :: stages⟩ =
                          ⟨[], ⟨[cell], lead⟩ :: stage :: stages⟩ := by
                        simp [Layout.cons, hgap, hlead]
                      have hapart : (stage :: stages).length = stageStarts true row := by
                        simpa [hlead] using hin
                      simp only [hcons, List.length_cons] at hapart ⊢
                      simp [hapart, Nat.add_comm]
                  | false =>
                      have hcons : Layout.cons cell ⟨lead, stage :: stages⟩ =
                          ⟨[], ⟨cell :: (lead ++ stage.body), stage.gap⟩ :: stages⟩ := by
                        simp [Layout.cons, hgap, hlead]
                      have hjoined : stages.length = stageStarts true row := by
                        simpa [hlead] using hin
                      simp [hcons, hjoined, Nat.add_comm]

theorem length_split (query : List Char) :
    (split query).length = stageStarts false (cells query) := by
  rw [split, List.length_map]
  exact (length_stages_ofCells (cells query)).1

theorem stageStarts_separator (inside : Bool) (a b : List Cell) {cell : Cell}
    (hcell : cell.isSeparator = true) :
    stageStarts inside (a ++ cell :: b) = stageStarts inside a + stageStarts false b := by
  induction a generalizing inside with
  | nil => simp [stageStarts, hcell]
  | cons first a ih =>
      rw [List.cons_append, stageStarts, stageStarts, ih, ih, ih]
      split_ifs <;> omega

theorem stageStarts_append (inside : Bool) {part : List Cell}
    (hlast : ∃ cell ∈ part.getLast?, cell.isGap = false) (row : List Cell) :
    stageStarts inside (part ++ row) = stageStarts inside part + stageStarts true row := by
  obtain ⟨last, hlast, hgap⟩ := hlast
  obtain ⟨front, rfl⟩ := List.getLast?_eq_some_iff.mp hlast
  have hseparator : last.isSeparator = false := by
    rw [Cell.isGap, Bool.or_eq_false_iff] at hgap
    exact hgap.1
  clear hlast
  induction front generalizing inside with
  | nil => simp [stageStarts, hgap, hseparator]
  | cons first front ih =>
      rw [List.cons_append, List.cons_append, stageStarts, stageStarts, ih, ih, ih]
      split_ifs <;> omega

theorem stageStarts_head (inside : Bool) {part : List Cell}
    (hhead : ∃ cell ∈ part.head?, cell.isGap = false) :
    stageStarts inside part + (if inside then 1 else 0) = stageStarts false part := by
  obtain ⟨first, hfirst, hgap⟩ := hhead
  cases part with
  | nil => simp at hfirst
  | cons cell part =>
      obtain rfl : cell = first := by simpa using hfirst
      have hseparator : cell.isSeparator = false := by
        rw [Cell.isGap, Bool.or_eq_false_iff] at hgap
        exact hgap.1
      cases inside <;> simp [stageStarts, hgap, hseparator]
      omega

theorem stageStarts_pos {row : List Cell} (h : ∃ cell ∈ row, cell.isGap = false) :
    0 < stageStarts false row := by
  obtain ⟨cell, hcell, hgap⟩ := h
  induction row with
  | nil => simp at hcell
  | cons first row ih =>
      simp only [stageStarts, Bool.false_eq_true, if_false]
      split_ifs with hseparator hfirst
      · refine ih ((List.mem_cons.mp hcell).resolve_left ?_)
        rintro rfl
        simp [Cell.isGap, hseparator] at hgap
      · refine ih ((List.mem_cons.mp hcell).resolve_left ?_)
        rintro rfl
        simp [hfirst] at hgap
      · omega

theorem stageStarts_eq_zero {row : List Cell} (hrow : ∀ cell ∈ row, cell.isSeparator = false) :
    stageStarts true row = 0 := by
  induction row with
  | nil => rfl
  | cons cell row ih =>
      obtain ⟨hcell, hrow⟩ := List.forall_mem_cons.mp hrow
      simp [stageStarts, hcell, ih hrow]

section Part

variable {part : List Cell} (hhead : ∃ cell ∈ part.head?, cell.isGap = false)
  (hlast : ∃ cell ∈ part.getLast?, cell.isGap = false)
include hhead

theorem stageStarts_of_whole (hpart : ∀ cell ∈ part, cell.isSeparator = false) :
    stageStarts false part = 1 := by
  rw [← stageStarts_head true hhead, stageStarts_eq_zero hpart]
  rfl

include hlast

theorem stageStarts_eq_one_iff :
    stageStarts false part = 1 ↔ ∀ cell ∈ part, cell.isSeparator = false := by
  refine ⟨fun hone => ?_, stageStarts_of_whole hhead⟩
  by_contra hcut
  push Not at hcut
  obtain ⟨cell, hmem, hcell⟩ := hcut
  have hcell : cell.isSeparator = true := by simpa using hcell
  have hgap : cell.isGap = true := by simp [Cell.isGap, hcell]
  obtain ⟨a, b, rfl⟩ := List.append_of_mem hmem
  -- The ends are no separators, so that a stage starts on either side.
  obtain ⟨first, hfirst, hfirstGap⟩ := hhead
  obtain ⟨last, hlast, hlastGap⟩ := hlast
  have ha : first ∈ a := by
    cases a with
    | nil =>
        obtain rfl : cell = first := by simpa using hfirst
        simp [hgap] at hfirstGap
    | cons other a =>
        obtain rfl : other = first := by simpa using hfirst
        exact List.mem_cons_self
  have hb : last ∈ b := by
    rcases b.eq_nil_or_concat' with rfl | ⟨b, other, rfl⟩
    · obtain rfl : cell = last := by simpa using hlast
      simp [hgap] at hlastGap
    · obtain rfl : other = last := by
        rw [← List.cons_append, ← List.append_assoc, List.getLast?_concat] at hlast
        exact Option.some.inj hlast
      simp
  have hfront := stageStarts_pos ⟨first, ha, hfirstGap⟩
  have hback := stageStarts_pos ⟨last, hb, hlastGap⟩
  rw [stageStarts_separator _ _ _ hcell] at hone
  omega

end Part

theorem Scanner.Paints.ends {s : Scanner} {row part : List Cell} (h : s.Paints row)
    (hpart : part ⊆ row) {c d : Char} {middle : List Char}
    (htext : text part = c :: (middle ++ [d])) (hc : Solid c) (hd : Solid d) :
    (∃ cell ∈ part.head?, cell.isGap = false) ∧ ∃ cell ∈ part.getLast?, cell.isGap = false := by
  have hgap {cell : Cell} (hcell : cell ∈ part) (hsolid : Solid cell.char) :
      cell.isGap = false := by
    by_contra hcon
    rcases h.char_of_gap (hpart hcell) (by simpa using hcon) with hpipe | hblank
    · exact hsolid.2.2 hpipe
    · simp [hsolid.2.1] at hblank
  have hne : part ≠ [] := by
    rintro rfl
    simp at htext
  have hfirst : (part.head hne).char = c := by
    have hhead := congrArg List.head? htext
    rw [text, List.head?_map, List.head?_eq_some_head hne] at hhead
    exact Option.some.inj hhead
  have hlast : (part.getLast hne).char = d := by
    have hback := congrArg List.getLast? htext
    rw [text, List.getLast?_map, List.getLast?_eq_some_getLast hne, ← List.cons_append,
      List.getLast?_concat] at hback
    exact Option.some.inj hback
  exact ⟨⟨_, List.head?_eq_some_head hne, hgap (List.head_mem hne) (hfirst ▸ hc)⟩,
    _, List.getLast?_eq_some_getLast hne, hgap (List.getLast_mem hne) (hlast ▸ hd)⟩

/-! ## Parts of one stage -/

/-- The bytes of `found` behind `front` lie in the span of one stage. -/
def WithinStage (query front found : List Char) : Prop :=
  ∃ span ∈ (scan query).stageSpans,
    span.start ≤ byteSize front ∧ byteSize (front ++ found) ≤ span.stop

instance (query front found : List Char) : Decidable (WithinStage query front found) :=
  inferInstanceAs (Decidable (∃ span ∈ (scan query).stageSpans, _ ∧ _))

theorem prefix_of_byteSize_le {a b row : List Cell} (ha : a <+: row) (hb : b <+: row)
    (h : byteSize (text a) ≤ byteSize (text b)) : a <+: b := by
  rcases List.prefix_or_prefix_of_prefix ha hb with hab | ⟨more, rfl⟩
  · exact hab
  · cases more with
    | nil => simp
    | cons cell more =>
        have hpos := cell.char.utf8Size_pos
        rw [text_append, byteSize_append, text_cons, byteSize_cons] at h
        omega

namespace Layout

theorem foldr_cons_front (before core gap : List Cell) (stages : List Stage) :
    ∃ lead pre kept, before.foldr cons ⟨[], ⟨core, gap⟩ :: stages⟩ =
        ⟨lead, pre ++ ⟨kept ++ core, gap⟩ :: stages⟩ ∧
      before = lead ++ pre.flatMap Stage.cells ++ kept := by
  induction before with
  | nil => exact ⟨[], [], [], rfl, rfl⟩
  | cons cell before ih =>
      obtain ⟨lead, pre, kept, hfold, rfl⟩ := ih
      rw [List.foldr_cons, hfold]
      cases hgap : cell.isGap with
      | true => exact ⟨cell :: lead, pre, kept, by simp [cons, hgap], by simp⟩
      | false =>
          cases hlead : lead.any Cell.isSeparator with
          | true =>
              refine ⟨[], ⟨[cell], lead⟩ :: pre, kept, ?_, by simp [Stage.cells]⟩
              rw [cons_first hgap (.inr hlead)]
              rfl
          | false =>
              cases pre with
              | nil =>
                  exact ⟨[], [], cell :: (lead ++ kept), by simp [cons, hgap, hlead], by simp⟩
              | cons stage pre =>
                  exact ⟨[], ⟨cell :: (lead ++ stage.body), stage.gap⟩ :: pre, kept,
                    by simp [cons, hgap, hlead], by simp [Stage.cells]⟩

theorem ofCells_core {part rest : List Cell} (hpart : ∀ cell ∈ part, cell.isSeparator = false)
    (hhead : ∃ cell ∈ part.head?, cell.isGap = false)
    (hlast : ∃ cell ∈ part.getLast?, cell.isGap = false) :
    ∃ body gap stages, ofCells (part ++ rest) = ⟨[], ⟨part ++ body, gap⟩ :: stages⟩ := by
  obtain ⟨last, hlast, hlastGap⟩ := hlast
  obtain ⟨init, rfl⟩ := List.getLast?_eq_some_iff.mp hlast
  obtain ⟨body, gap, stages, hopen⟩ := exists_cons hlastGap (ofCells rest)
  obtain ⟨front, back, rfl, -, hstart, hfold⟩ :=
    foldr_cons_join (fun cell hcell => hpart cell (List.mem_append_left _ hcell))
      ⟨last :: body, gap⟩ stages
  have hfront : front = [] := by
    cases hinit : front ++ back with
    | nil => exact (List.append_eq_nil_iff.mp hinit).1
    | cons first more =>
        obtain ⟨cell, hcell, hgap⟩ := hhead
        obtain rfl : first = cell := by simpa [hinit] using hcell
        exact hstart first (by simp [hinit]) hgap
  refine ⟨body, gap, stages, ?_⟩
  rw [ofCells, List.foldr_append, List.foldr_append, List.foldr_cons, List.foldr_nil, ← ofCells,
    hopen, hfold, hfront]
  simp

end Layout

theorem withinStage_iff {query : List Char} {before part after : List Cell}
    (hcells : cells query = before ++ (part ++ after))
    (hhead : ∃ cell ∈ part.head?, cell.isGap = false)
    (hlast : ∃ cell ∈ part.getLast?, cell.isGap = false) :
    WithinStage query (text before) (text part) ↔ ∀ cell ∈ part, cell.isSeparator = false := by
  have hspans : (scan query).stageSpans = (places query).map Bytes.placeSpan :=
    Bytes.stages_view query
  rw [WithinStage, hspans]
  constructor
  · rintro ⟨span, hspan, hstart, hstop⟩
    obtain ⟨place, hplace, rfl⟩ := List.mem_map.mp hspan
    obtain ⟨behind, hbehind⟩ := cells_of_mem_places hplace
    rw [Bytes.placeSpan] at hstart hstop
    have hwhole : before ++ part <+: place.1 ++ place.2.body :=
      prefix_of_byteSize_le ⟨after, by rw [hcells, List.append_assoc]⟩ ⟨behind, hbehind.symm⟩
        (by simpa using hstop)
    obtain ⟨front, rfl⟩ : place.1 <+: before :=
      prefix_of_byteSize_le ⟨place.2.body ++ behind, by rw [hbehind, List.append_assoc]⟩
        ⟨part ++ after, hcells.symm⟩ hstart
    obtain ⟨back, hback⟩ := hwhole
    have hbody : place.2.body = front ++ (part ++ back) := by simpa using hback.symm
    intro cell hcell
    exact (trimmed_of_mem_places hplace).body cell (by simp [hbody, hcell])
  · intro hpart
    obtain ⟨body, gap, stages, hcore⟩ : ∃ body gap stages,
        Layout.ofCells (part ++ after) = ⟨[], ⟨part ++ body, gap⟩ :: stages⟩ :=
      Layout.ofCells_core hpart hhead hlast
    obtain ⟨lead, pre, kept, hfold, rfl⟩ := Layout.foldr_cons_front before (part ++ body) gap stages
    have hlayout : layout query = ⟨lead, pre ++ ⟨kept ++ (part ++ body), gap⟩ :: stages⟩ := by
      rw [layout, hcells, Layout.ofCells, List.foldr_append, ← Layout.ofCells, hcore, hfold]
    refine ⟨_, List.mem_map_of_mem (f := Bytes.placeSpan)
      (show (lead ++ pre.flatMap Stage.cells, Stage.mk (kept ++ (part ++ body)) gap) ∈
        places query by
          rw [places_eq (by rw [hlayout]), hlayout]
          simp), ?_, ?_⟩
    · simp [Bytes.placeSpan]
    · simp only [Bytes.placeSpan, text_append, byteSize_append]
      omega

/-- The number of stages of all texts together. -/
def stageTotal (texts : List String) : Nat := (texts.map fun text => (split text.toList).length).sum

theorem stageTotal_cons (text : String) (texts : List String) :
    stageTotal (text :: texts) = (split text.toList).length + stageTotal texts := rfl

end Query

namespace Patch

theorem mem_changes {patch : Patch} {found replacement : List Char}
    (h : .change found replacement ∈ patch) :
    ⟨String.ofList found, String.ofList replacement⟩ ∈ patch.changes :=
  List.mem_filterMap.mpr ⟨_, h, rfl⟩

theorem exists_of_mem_changes {patch : Patch} {change : Change} (h : change ∈ patch.changes) :
    ∃ found replacement, .change found replacement ∈ patch ∧
      change = ⟨String.ofList found, String.ofList replacement⟩ := by
  obtain ⟨piece, hmem, hpiece⟩ := List.mem_filterMap.mp h
  cases piece with
  | keep text => simp [Piece.change?] at hpiece
  | change found replacement => exact ⟨found, replacement, hmem, (Option.some.inj hpiece).symm⟩

end Patch

namespace ExpandTerms

open Patch Scanner

/-! ## Searches that are expanded -/

theorem withinStage_iff_of_rewrites {query front found replacement back : List Char}
    (h : (patch query).Rewrites front found replacement back) :
    (WithinStage query front found ↔ ∀ cell ∈ cells found, cell.isSeparator = false) ∧
      ((split found).length = 1 ↔ ∀ cell ∈ cells found, cell.isSeparator = false) := by
  obtain ⟨before, rest, fragment, hcells, rfl, -, hfind, hreplacement, rfl⟩ := h.exists_fragment
  obtain ⟨part, behind, field, content, rfl, hlength, hsearch, hreplaced⟩ := fragment?_eq_some hfind
  obtain ⟨-, hcode, -⟩ := hreplaced replacement hreplacement
  rw [← hlength, List.take_left]
  have hpaints := paints_cells query
  rw [hcells] at hpaints
  obtain ⟨c, middle, htext, hname⟩ := hsearch.ends
  obtain ⟨hhead, hlast⟩ := hpaints.ends (by simp) htext (solid_of_isNameChar hname)
    (show Solid '>' by decide)
  have halone := hsearch.alone hpaints hcode
  rw [length_split, halone]
  exact ⟨withinStage_iff hcells hhead hlast, stageStarts_eq_one_iff hhead hlast⟩

theorem ends_replacement {field replacement : List Char} {terms : List (List Char)}
    (h : expand? field terms = some replacement) :
    (∃ cell ∈ (cells replacement).head?, cell.isGap = false) ∧
      ∃ cell ∈ (cells replacement).getLast?, cell.isGap = false := by
  obtain ⟨-, hreplacement⟩ := ends_of_expand? h
  exact (paints_cells replacement).ends (List.Subset.refl _)
    ((text_cells replacement).trans hreplacement) (by decide) (by decide)

theorem Expands.stageStarts_eq {previous : Option Char} {row new : List Cell} {patch : Patch}
    (h : Expands previous row patch new) {s : Scanner} (hs : s.Paints row) (inside : Bool) :
    stageStarts inside row + stageTotal (patch.changes.map Change.replacement) =
      stageStarts inside new + stageTotal (patch.changes.map Change.found) := by
  induction h generalizing s inside with
  | nil => rfl
  | @pass _ cell row patch new hrest ih =>
      have hrest := ih (paints_cons.mp hs).2
      rw [stageStarts, stageStarts]
      split_ifs
      · exact hrest false
      · exact hrest inside
      all_goals
        have hin := hrest true
        simp only [changes_keep]
        omega
  | @leave _ part row patch new _ _ hsearch hrest ih =>
      obtain ⟨c, middle, htext, hname⟩ := hsearch.ends
      obtain ⟨-, hlast⟩ := hs.ends (List.subset_append_left part row) htext
        (solid_of_isNameChar hname) (show Solid '>' by decide)
      have hin := ih (paints_append.mp hs).2 true
      rw [stageStarts_append _ hlast, stageStarts_append _ hlast, changes_keep]
      omega
  | @expand _ part row patch new _ _ replacement hsearch hexpand hcode _ hrest ih =>
      obtain ⟨c, middle, htext, hname⟩ := hsearch.ends
      obtain ⟨hhead, hlast⟩ := hs.ends (List.subset_append_left part row) htext
        (solid_of_isNameChar hname) (show Solid '>' by decide)
      obtain ⟨hhead', hlast'⟩ := ends_replacement hexpand
      have hin := ih (paints_append.mp hs).2 true
      have halone : cells (text part) = part :=
        hsearch.alone (show s.Paints ([] ++ (part ++ row)) from hs) hcode
      have hold := stageStarts_head inside hhead
      have hnew := stageStarts_head inside hhead'
      rw [changes_change, List.map_cons, List.map_cons, stageTotal_cons, stageTotal_cons,
        String.toList_ofList, String.toList_ofList, length_split, length_split, halone,
        stageStarts_append _ hlast, stageStarts_append _ hlast']
      omega

theorem length_split_after {query : List Char}
    (hportable : ∀ found replacement, .change found replacement ∈ patch query →
      Portable found ∧ Portable replacement) :
    (split query).length + stageTotal ((patch query).changes.map Change.replacement) =
      (split (patch query).after).length + stageTotal ((patch query).changes.map Change.found) := by
  obtain ⟨new, hnew, hcells⟩ := cells_after_patch hportable
  rw [length_split, length_split, hcells]
  exact hnew.stageStarts_eq (paints_cells query) false

theorem portable_of_rewrites {query front found replacement back : List Char}
    (h : (patch query).Rewrites front found replacement back) :
    (Closed found → Portable found) ∧ (Closed replacement → Portable replacement) := by
  obtain ⟨field, content, hsearch, hexpand, -⟩ := of_rewrites h
  obtain ⟨c, middle, rfl, hname⟩ := hsearch.ends
  obtain ⟨-, rfl⟩ := ends_of_expand? hexpand
  exact ⟨portable_of_closed (solid_of_isNameChar hname) (by decide) (by decide),
    portable_of_closed (by decide) (by decide) (by decide)⟩

theorem length_split_after_of_closed {query : List Char}
    (hclosed : ∀ change ∈ (patch query).changes,
      Closed change.found.toList ∧ Closed change.replacement.toList) :
    (split query).length + stageTotal ((patch query).changes.map Change.replacement) =
      (split (patch query).after).length + stageTotal ((patch query).changes.map Change.found) := by
  refine length_split_after fun found replacement hmem => ?_
  obtain ⟨front, back, hrewrites⟩ := exists_rewrites hmem
  obtain ⟨hfound, hreplacement⟩ := portable_of_rewrites hrewrites
  have hchange := hclosed _ (mem_changes hmem)
  rw [String.toList_ofList, String.toList_ofList] at hchange
  exact ⟨hfound hchange.1, hreplacement hchange.2⟩

theorem replacement_of_rewrites {query front found replacement back : List Char}
    (h : (patch query).Rewrites front found replacement back)
    (hwhole : ∀ cell ∈ cells found, cell.isSeparator = false)
    (hclosed : ∀ field ∈ path? found, Closed field) :
    Portable replacement ∧ (split replacement).length = 1 := by
  obtain ⟨field, content, hsearch, hexpand, -⟩ := of_rewrites h
  obtain ⟨rest, hfound, hstops, hpath⟩ := hsearch.path?
  have hcells : cells found = cells field ++ (scan field).final.paint rest := by
    rw [hfound]
    exact paint_cut _ field fun c hc => (hstops c hc).1
  rw [hcells] at hwhole
  obtain ⟨hportable, hseparators⟩ := portable_expand? hsearch.field_path (hclosed field hpath)
    (fun cell hcell => hwhole cell (List.mem_append_left _ hcell)) hexpand
  exact ⟨hportable,
    by rw [length_split, stageStarts_of_whole (ends_replacement hexpand).1 hseparators]⟩

/-- A search that can be expanded without harm: it lies within one stage, and neither it nor its
field leaves a literal open. -/
structure Harmless (query front found : List Char) : Prop where
  within : WithinStage query front found
  closed : Closed found
  field : ∀ field ∈ path? found, Closed field

theorem Harmless.one_stage {query front found replacement back : List Char}
    (h : Harmless query front found)
    (hrewrites : (patch query).Rewrites front found replacement back) :
    (Portable found ∧ Portable replacement) ∧
      (split replacement).length = (split found).length := by
  obtain ⟨hwithin, hone⟩ := withinStage_iff_of_rewrites hrewrites
  have hwhole := hwithin.mp h.within
  obtain ⟨hreplacement, hlength⟩ := replacement_of_rewrites hrewrites hwhole h.field
  exact ⟨⟨(portable_of_rewrites hrewrites).1 h.closed, hreplacement⟩,
    hlength.trans (hone.mpr hwhole).symm⟩

theorem length_split_after_of_harmless {query : List Char}
    (h : ∀ front found replacement back, (patch query).Rewrites front found replacement back →
      Harmless query front found) :
    (split (patch query).after).length = (split query).length := by
  have hchange (found replacement : List Char) (hmem : .change found replacement ∈ patch query) :
      (Portable found ∧ Portable replacement) ∧
        (split replacement).length = (split found).length := by
    obtain ⟨front, back, hrewrites⟩ := exists_rewrites hmem
    exact (h _ _ _ _ hrewrites).one_stage hrewrites
  have hcount := length_split_after fun found replacement hmem => (hchange found replacement hmem).1
  have hsame : stageTotal ((patch query).changes.map Change.replacement) =
      stageTotal ((patch query).changes.map Change.found) := by
    rw [stageTotal, stageTotal, List.map_map, List.map_map]
    refine congrArg List.sum (List.map_congr_left fun change hmem => ?_)
    obtain ⟨found, replacement, hpiece, rfl⟩ := exists_of_mem_changes hmem
    simpa using (hchange found replacement hpiece).2
  omega

end ExpandTerms

/-- A search that is expanded lies within one stage exactly if its own text is one stage.  If no
search and nothing that one becomes leaves a literal open, the numbers of their stages make up the
difference between the query and the outcome.  The number of stages is the same if every search that
is expanded lies within one stage, and neither it nor its field leaves a literal open. -/
theorem expandTerms_keeps_stages (context : Context) (query : String) :
    let searches := ExpandTerms.patch query.toList
    let outcome := expandTerms.apply context query
    searches.Explains query outcome ∧
      (∀ front found replacement back, searches.Rewrites front found replacement back →
        (WithinStage query.toList front found ↔ (split found).length = 1)) ∧
      ((∀ change ∈ outcome.changes,
          Closed change.found.toList ∧ Closed change.replacement.toList) →
        (split query.toList).length + stageTotal (outcome.changes.map Change.replacement) =
          (split outcome.query.toList).length + stageTotal (outcome.changes.map Change.found)) ∧
      ((∀ front found replacement back, searches.Rewrites front found replacement back →
          ExpandTerms.Harmless query.toList front found) →
        (split outcome.query.toList).length = (split query.toList).length) := by
  intro searches outcome
  have hexplains : searches.Explains query outcome :=
    Patch.explains_ofPatch (ExpandTerms.before_patch _) _ _ context
  rw [← hexplains.changes, ← hexplains.after]
  refine ⟨hexplains, fun front found replacement back hrewrites => ?_,
    ExpandTerms.length_split_after_of_closed, ExpandTerms.length_split_after_of_harmless⟩
  obtain ⟨hwithin, hone⟩ := ExpandTerms.withinStage_iff_of_rewrites hrewrites
  exact hwithin.trans hone.symm

/-- The number of stages stays where the field and a term hold a pipe in quotes. -/
theorem expandTerms_keeps_stages_quoted :
    let query := "filter a.\"x|y\" ~ <\"p | q\" r> | limit 1"
    let outcome := expandTerms.apply ⟨none⟩ query
    outcome.query =
        "filter (contains(a.\"x|y\", \"p | q\") or contains(a.\"x|y\", \"r\")) | limit 1" ∧
      (split outcome.query.toList).length = (split query.toList).length := by
  intro query outcome
  refine ⟨by decide, ?_⟩
  obtain ⟨-, hwithin, -, hkeeps⟩ := expandTerms_keeps_stages ⟨none⟩ query
  refine hkeeps fun front found replacement back hrewrites => ?_
  have hstage := hwithin _ _ _ _ hrewrites
  have hchanges : (ExpandTerms.patch query.toList).changes.map Change.found =
      ["a.\"x|y\" ~ <\"p | q\" r>"] := by decide
  have hfound : String.ofList found ∈
      (ExpandTerms.patch query.toList).changes.map Change.found :=
    List.mem_map_of_mem (Patch.mem_changes hrewrites.mem)
  rw [hchanges, List.mem_singleton] at hfound
  obtain rfl : "a.\"x|y\" ~ <\"p | q\" r>".toList = found := by
    rw [← hfound, String.toList_ofList]
  exact ⟨hstage.mpr (by decide), by decide, by decide⟩

/-- A search over a separator is expanded, and so are searches that lie within one stage but have a
quote in a term or behind a backslash in the field.  Each time the number of stages changes. -/
theorem expandTerms_changes_stages :
    let pipe := "filter body ~ <disk full | filter latency > 5".toList
    let term := "filter body ~ <can't connect> | limit 1".toList
    let field := "filter a.\"x|y\".\"b\\\" ~ <x y \">".toList
    ((ExpandTerms.patch pipe).Rewrites "filter ".toList
          "body ~ <disk full | filter latency >".toList
          ("(contains(body, \"disk\") or contains(body, \"full\") or contains(body, \"|\") or " ++
            "contains(body, \"filter\") or contains(body, \"latency\"))").toList " 5".toList ∧
        ¬ WithinStage pipe "filter ".toList "body ~ <disk full | filter latency >".toList ∧
        (split pipe).length = 2 ∧ (split (ExpandTerms.patch pipe).after).length = 1) ∧
      (WithinStage term "filter ".toList "body ~ <can't connect>".toList ∧
        (split term).length = 1 ∧ (split (ExpandTerms.patch term).after).length = 2) ∧
      (WithinStage field "filter ".toList "a.\"x|y\".\"b\\\" ~ <x y \">".toList ∧
        Closed "a.\"x|y\".\"b\\\" ~ <x y \">".toList ∧
        (split field).length = 1 ∧ (split (ExpandTerms.patch field).after).length = 2) := by
  intro pipe term field
  refine ⟨⟨⟨(ExpandTerms.patch pipe).take 7, (ExpandTerms.patch pipe).drop 8, ?_, ?_, ?_⟩, ?_⟩,
    ?_, ?_⟩ <;> decide +kernel

end OpalRepair
