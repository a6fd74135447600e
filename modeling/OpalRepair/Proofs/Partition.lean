import Mathlib
import OpalRepair.Proofs.Bytes.Stage
import OpalRepair.Proofs.Dropping.Rejoin

/-!
# Stages as a partition

The spans of the stages cut a query into stages and what lies between them, separators and blanks,
without losing a byte.  Put together again with a pipe and blanks between them, the stages are read
as they were, whatever stood between them.

Main statement: `stages_partition`.
-/

namespace OpalRepair.Query

open Text

/-! ## Offsets in a row -/

theorem le_of_mem_offsetsOf {p : Cell → Bool} {offset n : Nat} {row : List Cell}
    (h : n ∈ offsetsOf p offset row) : offset ≤ n := by
  induction row generalizing offset with
  | nil => simp [offsetsOf] at h
  | cons cell row ih =>
      have hrest : n ∈ offsetsOf p (offset + cell.char.utf8Size) row → offset ≤ n :=
        fun hn => (Nat.le_add_right _ _).trans (ih hn)
      rw [offsetsOf] at h
      split at h
      · rcases List.mem_cons.mp h with rfl | h
        · exact le_rfl
        · exact hrest h
      · exact hrest h

theorem mem_offsetsOf (p : Cell → Bool) (offset : Nat) (front back : List Cell) {cell : Cell}
    (hcell : p cell = true) :
    offset + byteSize (text front) ∈ offsetsOf p offset (front ++ cell :: back) := by
  rw [offsetsOf_append, offsetsOf, if_pos hcell]
  simp

theorem exists_cell_at {row : List Cell} {offset : Nat} (h : offset < byteSize (text row)) :
    ∃ front cell back, row = front ++ cell :: back ∧ byteSize (text front) ≤ offset ∧
      offset < byteSize (text front) + cell.char.utf8Size := by
  induction row generalizing offset with
  | nil => simp at h
  | cons first row ih =>
      rcases Nat.lt_or_ge offset first.char.utf8Size with hlt | hge
      · exact ⟨[], first, row, rfl, by simp, by simpa using hlt⟩
      · rw [text_cons, byteSize_cons] at h
        obtain ⟨front, cell, back, rfl, hstart, hstop⟩ :=
          ih (show offset - first.char.utf8Size < _ by omega)
        refine ⟨first :: front, cell, back, rfl, ?_⟩
        rw [text_cons, byteSize_cons]
        omega

/-! ## What lies where -/

def ByteOf (text : List Char) (offset : Nat) (c : Char) : Prop :=
  ∃ before after, text = before ++ c :: after ∧
    byteSize before ≤ offset ∧ offset < byteSize before + c.utf8Size

/-- Spans that cut a text, together with the offsets of separators, into stages and the gaps around
them. -/
structure Partition (query : List Char) (separators : List Nat) (spans : List Span) : Prop where
  nonempty : ∀ span ∈ spans, span.start < span.stop
  /-- A span starts and ends between characters, and the text in it with ones that are not blank. -/
  trimmed : ∀ span ∈ spans, ∃ before body after, query = before ++ body ++ after ∧
    span = ⟨byteSize before, byteSize before + byteSize body⟩ ∧
    (∃ c ∈ body.head?, isBlank c = false) ∧ ∃ c ∈ body.getLast?, isBlank c = false
  /-- Spans are in order and do not overlap: a separator lies between them. -/
  ordered : spans.Pairwise fun a b =>
    ∃ separator ∈ separators, a.stop ≤ separator ∧ separator < b.start
  clear : ∀ span ∈ spans, ∀ separator ∈ separators, span.contains separator = false
  /-- A byte in no span is a separator or belongs to a blank. -/
  covered : ∀ offset < byteSize query, (∀ span ∈ spans, span.contains offset = false) →
    offset ∈ separators ∨ ∃ c, isBlank c = true ∧ ByteOf query offset c

section Places

variable {query : List Char} {before : List Cell} {stages : List Stage}

theorem separator_between (hapart : Stage.Apart stages)
    (hcells : cells query = before ++ stages.flatMap Stage.cells) :
    (placesFrom before stages).Pairwise fun a b => ∃ separator ∈ (scan query).separators,
      (Bytes.placeSpan a).stop ≤ separator ∧ separator < (Bytes.placeSpan b).start := by
  induction stages generalizing before with
  | nil => exact .nil
  | cons stage stages ih =>
      obtain ⟨-, hgap, hrest⟩ := hapart
      rw [List.flatMap_cons, ← List.append_assoc] at hcells
      refine List.pairwise_cons.mpr ⟨fun place hplace => ?_, ih hrest hcells⟩
      have hsome : stage.gap.any Cell.isSeparator = true :=
        hgap.resolve_left (by rintro rfl; simp [placesFrom] at hplace)
      obtain ⟨cell, hcell, hseparator⟩ := List.any_eq_true.mp hsome
      obtain ⟨front, back, hsplit⟩ := List.append_of_mem hcell
      refine ⟨byteSize (text (before ++ stage.body ++ front)), ?_, ?_, ?_⟩
      · have hmem := mem_offsetsOf Cell.isSeparator 0 (before ++ stage.body ++ front)
          (back ++ stages.flatMap Stage.cells) hseparator
        rw [Nat.zero_add] at hmem
        rw [Scan.separators, scan, hcells, Stage.cells, hsplit]
        simpa using hmem
      · simp [Bytes.placeSpan]
      · obtain ⟨more, hmore⟩ := prefix_of_mem_placesFrom hplace
        have hpos := cell.char.utf8Size_pos
        simp only [Bytes.placeSpan, ← hmore, Stage.cells, hsplit, text_append, text_cons,
          byteSize_append, byteSize_cons]
        omega

theorem exists_place_or_gap (hapart : Stage.Apart stages) {offset : Nat}
    (hstart : byteSize (text before) ≤ offset)
    (hstop : offset < byteSize (text (before ++ stages.flatMap Stage.cells))) :
    (∃ place ∈ placesFrom before stages, (Bytes.placeSpan place).contains offset = true) ∨
      ∃ front cell back, before ++ stages.flatMap Stage.cells = front ++ cell :: back ∧
        cell.isGap = true ∧ byteSize (text front) ≤ offset ∧
        offset < byteSize (text front) + cell.char.utf8Size := by
  induction stages generalizing before with
  | nil =>
      rw [List.flatMap_nil, List.append_nil] at hstop
      omega
  | cons stage stages ih =>
      obtain ⟨htrimmed, -, hrest⟩ := hapart
      rcases Nat.lt_or_ge offset (byteSize (text (before ++ stage.body))) with hbody | hbody
      · refine .inl ⟨_, List.mem_cons_self, ?_⟩
        rw [text_append, byteSize_append] at hbody
        exact (Bytes.contains_iff _ _).mpr ⟨hstart, hbody⟩
      rcases Nat.lt_or_ge offset (byteSize (text (before ++ stage.cells))) with hgap | hgap
      · -- Behind the body only the gap is left of the stage.
        rw [Stage.cells, ← List.append_assoc, text_append, byteSize_append] at hgap
        obtain ⟨front, cell, back, hsplit, hfront, hcell⟩ :=
          exists_cell_at (show offset - byteSize (text (before ++ stage.body)) <
            byteSize (text stage.gap) by omega)
        refine .inr ⟨before ++ stage.body ++ front, cell, back ++ stages.flatMap Stage.cells, ?_,
          htrimmed.gap cell (by simp [hsplit]), ?_⟩
        · simp [Stage.cells, hsplit]
        · rw [text_append, byteSize_append]
          omega
      · rw [List.flatMap_cons, ← List.append_assoc] at hstop ⊢
        rcases ih hrest hgap hstop with ⟨place, hplace, hcontains⟩ | hgap
        · exact .inl ⟨place, List.mem_cons_of_mem _ hplace, hcontains⟩
        · exact .inr hgap

end Places

section Spans

variable {query : List Char} {place : List Cell × Stage}

theorem stageSpans_eq_places (query : List Char) :
    (scan query).stageSpans = (places query).map Bytes.placeSpan := Bytes.stages_view query

theorem exists_text_of_place (hplace : place ∈ places query) :
    ∃ before body after, query = before ++ body ++ after ∧
      Bytes.placeSpan place = ⟨byteSize before, byteSize before + byteSize body⟩ ∧
      (∃ c ∈ body.head?, isBlank c = false) ∧ ∃ c ∈ body.getLast?, isBlank c = false := by
  obtain ⟨after, hcells⟩ := cells_of_mem_places hplace
  have hquery := congrArg text hcells
  rw [text_cells, text_append, text_append] at hquery
  have hblank {cell : Cell} (h : cell.isGap = false) : isBlank cell.char = false :=
    (Bool.or_eq_false_iff.mp h).2
  obtain ⟨first, hfirst, hfirstGap⟩ := (trimmed_of_mem_places hplace).head
  obtain ⟨last, hlast, hlastGap⟩ := (trimmed_of_mem_places hplace).last
  exact ⟨_, _, _, hquery, rfl, exists_head?_text ⟨first, hfirst, hblank hfirstGap⟩,
    exists_getLast?_text ⟨last, hlast, hblank hlastGap⟩⟩

theorem start_lt_stop (hplace : place ∈ places query) :
    (Bytes.placeSpan place).start < (Bytes.placeSpan place).stop := by
  obtain ⟨before, body, after, -, hspan, ⟨c, hc, -⟩, -⟩ := exists_text_of_place hplace
  obtain ⟨rest, rfl⟩ := List.head?_eq_some_iff.mp hc
  have hpos := c.utf8Size_pos
  rw [hspan]
  dsimp only
  rw [byteSize_cons]
  omega

theorem not_contains_separator (hplace : place ∈ places query) {separator : Nat}
    (h : separator ∈ (scan query).separators) :
    (Bytes.placeSpan place).contains separator = false := by
  obtain ⟨after, hcells⟩ := cells_of_mem_places hplace
  rw [Scan.separators, scan, hcells, offsetsOf_append, offsetsOf_append,
    offsetsOf_eq_nil (trimmed_of_mem_places hplace).body, List.append_nil, List.mem_append] at h
  rw [Bool.eq_false_iff, ne_eq, Bytes.contains_iff, Bytes.placeSpan]
  dsimp only
  rcases h with h | h
  · have hlt := lt_of_mem_offsetsOf h
    omega
  · have hle := le_of_mem_offsetsOf h
    rw [text_append, byteSize_append] at hle
    omega

theorem exists_gap_of_outside {offset : Nat} (hoffset : offset < byteSize query)
    (houtside : ∀ place ∈ places query, (Bytes.placeSpan place).contains offset = false) :
    ∃ front cell back, cells query = front ++ cell :: back ∧ cell.isGap = true ∧
      byteSize (text front) ≤ offset ∧ offset < byteSize (text front) + cell.char.utf8Size := by
  have hcells := cells_eq_layout query
  rw [← text_cells query, hcells] at hoffset
  rcases Nat.lt_or_ge offset (byteSize (text (layout query).lead)) with hlead | hlead
  · obtain ⟨front, cell, back, hsplit, hbounds⟩ := exists_cell_at hlead
    have hgap := Layout.gap_lead (cells query) cell
      (show cell ∈ (layout query).lead by simp [hsplit])
    refine ⟨front, cell, back ++ (layout query).stages.flatMap Stage.cells, ?_, hgap, hbounds⟩
    rw [hcells, hsplit]
    simp
  · rcases exists_place_or_gap (Layout.apart (cells query)) hlead hoffset with
      ⟨place, hplace, hcontains⟩ | ⟨front, cell, back, hsplit, hgap, hbounds⟩
    · rw [houtside place hplace] at hcontains
      contradiction
    · exact ⟨front, cell, back, hcells.trans hsplit, hgap, hbounds⟩

theorem separator_or_blank {front back : List Cell} {cell : Cell}
    (hcells : cells query = front ++ cell :: back) (hgap : cell.isGap = true) {offset : Nat}
    (hstart : byteSize (text front) ≤ offset)
    (hstop : offset < byteSize (text front) + cell.char.utf8Size) :
    offset ∈ (scan query).separators ∨ ∃ c, isBlank c = true ∧ ByteOf query offset c := by
  rcases Bool.or_eq_true_iff.mp hgap with hseparator | hblank
  · -- A separator is a pipe, which is a single byte.
    have hpipe : cell.char = '|' :=
      Scanner.char_of_isSeparator (show cell ∈ cells query by simp [hcells]) hseparator
    rw [hpipe, show ('|' : Char).utf8Size = 1 from rfl] at hstop
    obtain rfl : offset = 0 + byteSize (text front) := by omega
    rw [Scan.separators, scan, hcells]
    exact .inl (mem_offsetsOf _ _ _ _ hseparator)
  · have hquery := congrArg text hcells
    rw [text_cells, text_append, text_cons] at hquery
    exact .inr ⟨cell.char, hblank, text front, text back, hquery, hstart, hstop⟩

theorem partition_stageSpans (query : List Char) :
    Partition query (scan query).separators (scan query).stageSpans := by
  rw [stageSpans_eq_places]
  constructor
  case nonempty => exact List.forall_mem_map.mpr fun place => start_lt_stop
  case trimmed => exact List.forall_mem_map.mpr fun place => exists_text_of_place
  case ordered =>
    exact List.pairwise_map.mpr
      (separator_between (Layout.apart (cells query)) (cells_eq_layout query))
  case clear =>
    exact List.forall_mem_map.mpr fun place hplace separator => not_contains_separator hplace
  case covered =>
    intro offset hoffset houtside
    obtain ⟨front, cell, back, hcells, hgap, hstart, hstop⟩ :=
      exists_gap_of_outside hoffset (List.forall_mem_map.mp houtside)
    exact separator_or_blank hcells hgap hstart hstop

end Spans

/-! ## Rejoining -/

def Stage.respace : List Stage → List Stage
  | [] => []
  | [stage] => [⟨stage.body, []⟩]
  | stage :: next :: stages => ⟨stage.body, gapRow⟩ :: respace (next :: stages)

theorem Stage.map_text_respace (stages : List Stage) :
    (respace stages).map Stage.text = stages.map Stage.text := by
  fun_induction respace stages with
  | case1 => rfl
  | case2 => rfl
  | case3 stage next stages ih => rw [List.map_cons, ih, List.map_cons]; rfl

theorem Stage.text_respace (stages : List Stage) :
    Query.text ((respace stages).flatMap Stage.cells) =
      List.intercalate " | ".toList (stages.map Stage.text) := by
  fun_induction respace stages with
  | case1 => rfl
  | case2 stage => simp [Stage.cells, Stage.text]
  | case3 stage next stages ih =>
      simp only [List.flatMap_cons, text_append, ih, List.map_cons, List.intercalate_cons_cons,
        Stage.cells, List.append_assoc]
      rfl

theorem Stage.Apart.respace {stages : List Stage} (h : Stage.Apart stages) :
    Stage.Apart (Stage.respace stages) := by
  fun_induction Stage.respace stages with
  | case1 => trivial
  | case2 stage =>
      obtain ⟨htrimmed, -, -⟩ := h
      exact ⟨⟨htrimmed.head, htrimmed.last, htrimmed.body, by simp⟩, .inl rfl, trivial⟩
  | case3 stage next stages ih =>
      obtain ⟨htrimmed, -, hrest⟩ := h
      have hgap : ∀ cell ∈ gapRow, cell.isGap = true := by decide
      exact ⟨⟨htrimmed.head, htrimmed.last, htrimmed.body, hgap⟩, .inr rfl, ih hrest⟩

namespace Scanner

theorem paint_gapRow {s : Scanner} (hmode : s.mode = .code) (rest : List Char) :
    s.paint (" | ".toList ++ rest) = gapRow ++ (atCode (some '|')).paint rest := by
  have hblank : isBlank ' ' = true := by decide
  have hsame : s.paint (' ' :: ("| ".toList ++ rest)) =
      (atCode s.last).paint (' ' :: ("| ".toList ++ rest)) := by
    rw [paint, paint, step_blank hmode hblank, step_blank rfl hblank]
    rfl
  exact hsame.trans (consumes_gapRow s.last rest).1

theorem Paints.respace {stages : List Stage} {last : Option Char}
    (hpaints : (atCode last).Paints (stages.flatMap Stage.cells)) (hapart : Stage.Apart stages) :
    (atCode last).Paints ((Stage.respace stages).flatMap Stage.cells) := by
  fun_induction Stage.respace stages generalizing last with
  | case1 => rfl
  | case2 stage =>
      obtain ⟨htrimmed, -, -⟩ := hapart
      rw [List.flatMap_singleton, Stage.cells] at hpaints
      have hgap := (paints_append.mp hpaints).2
      rw [← List.append_nil stage.gap] at hgap
      have hname : (text stage.gap).takeWhile isNameChar =
          ([] : List Char).takeWhile isNameChar := by
        simpa using FlagCount.takeWhile_gap hgap htrimmed.gap fun _ => rfl
      simpa [Paints, Stage.cells, paint] using hpaints.kept (Alike.refl _) hname
  | case3 stage next stages ih =>
      obtain ⟨htrimmed, hgap, hrest⟩ := hapart
      rw [List.flatMap_cons] at hpaints
      obtain ⟨hmode, -, hbehind⟩ := reach_of_apart htrimmed hpaints (hgap.resolve_left (by simp))
      rw [Stage.cells, List.append_assoc] at hpaints
      have hname : (text (stage.gap ++ (next :: stages).flatMap Stage.cells)).takeWhile isNameChar =
          (" | ".toList ++ text ((Stage.respace (next :: stages)).flatMap Stage.cells)).takeWhile
            isNameChar :=
        FlagCount.takeWhile_gap (paints_append.mp hpaints).2 htrimmed.gap fun hnil => by
          simp [hnil] at hgap
      have hstage := hpaints.kept (Alike.refl _) hname
      rw [paint_gapRow hmode, ih hbehind hrest] at hstage
      rw [Paints, List.flatMap_cons, Stage.cells, text_append, text_append, List.append_assoc,
        List.append_assoc]
      exact hstage

end Scanner

theorem fresh_rejoined {query : List Char}
    (hfirst : ∀ first ∈ (split query).head?, first.head? ≠ some '/' ∧ first.head? ≠ some '\\') :
    Scanner.Fresh (List.intercalate " | ".toList (split query)) := by
  have hapart : Stage.Apart (layout query).stages := Layout.apart (cells query)
  rw [split] at hfirst ⊢
  cases hstages : (layout query).stages with
  | nil => simp [Scanner.Fresh, trimStart]
  | cons stage stages =>
      rw [hstages] at hfirst hapart
      obtain ⟨c, rest, htext, hblank⟩ : ∃ c rest, stage.text = c :: rest ∧ isBlank c = false := by
        obtain ⟨cell, hcell, hgap⟩ := hapart.1.head
        obtain ⟨row, hrow⟩ := List.head?_eq_some_iff.mp hcell
        exact ⟨cell.char, text row, by rw [Stage.text, hrow, text_cons],
          (Bool.or_eq_false_iff.mp hgap).2⟩
      have hc : c ≠ '/' ∧ c ≠ '\\' := by simpa [htext] using hfirst
      cases stages <;> simpa [Scanner.Fresh, trimStart, htext, hblank] using hc

/-- Stages that are joined by pipes are split into the same stages, unless the first one depends on
what precedes it. -/
theorem split_rejoined {query : List Char}
    (hfirst : ∀ first ∈ (split query).head?, first.head? ≠ some '/' ∧ first.head? ≠ some '\\') :
    split (List.intercalate " | ".toList (split query)) = split query := by
  have hapart : Stage.Apart (layout query).stages := Layout.apart (cells query)
  obtain ⟨last, -, hpaints, -⟩ := exists_lead query
  have hrespaced := hpaints.respace hapart
  have htext : text ((Stage.respace (layout query).stages).flatMap Stage.cells) =
      List.intercalate " | ".toList (split query) := Stage.text_respace _
  have hcells : cells (List.intercalate " | ".toList (split query)) =
      (Stage.respace (layout query).stages).flatMap Stage.cells := by
    rw [← hrespaced, htext]
    exact (Scanner.read_fresh (fresh_rejoined hfirst) none last).1
  have hlayout := Layout.ofCells_eq (List.forall_mem_nil _) hapart.respace
  rw [List.nil_append, ← hcells] at hlayout
  rw [split, layout, hlayout]
  exact Stage.map_text_respace _

/-! ## Both together -/

/-- The spans of the stages partition a query, the stages are the texts in them, and joined by pipes
they are split into the same stages again if the first one starts with neither a slash nor a
backslash. -/
theorem stages_partition (query : List Char) :
    Partition query (scan query).separators (scan query).stageSpans ∧
      (scan query).stageSpans.mapM (Bytes.sliceSpan? query) = some (split query) ∧
      ((∀ first ∈ (split query).head?, first.head? ≠ some '/' ∧ first.head? ≠ some '\\') →
        split (List.intercalate " | ".toList (split query)) = split query) := by
  refine ⟨partition_stageSpans query, ?_, split_rejoined⟩
  have hstages : split query = (places query).map fun place => place.2.text := by
    rw [split, ← map_snd_places, List.map_map]
    rfl
  rw [stageSpans_eq_places, hstages]
  exact Bytes.mapM_map_eq_some fun place hplace => Bytes.sliceSpan?_place hplace

/-- A stage that ends with the backslash in front of a blank, one that ends with flags, and one that
is never closed. -/
theorem stages_partition_trimmed :
    let query := "| sort \\ |\u3000filter a ~ /x|y/i|| 'b | c ".toList
    let stages := ["sort \\".toList, "filter a ~ /x|y/i".toList, "'b | c".toList]
    Partition query [0, 9, 30, 31] [⟨2, 8⟩, ⟨13, 30⟩, ⟨33, 39⟩] ∧ split query = stages ∧
      split (List.intercalate " | ".toList stages) = stages := by
  intro query stages
  have hsplit : split query = stages := by decide
  have hspans : (scan query).stageSpans = [⟨2, 8⟩, ⟨13, 30⟩, ⟨33, 39⟩] := by decide
  have hseparators : (scan query).separators = [0, 9, 30, 31] := by decide
  obtain ⟨hpartition, -, hrejoined⟩ := stages_partition query
  rw [hspans, hseparators] at hpartition
  rw [hsplit] at hrejoined
  exact ⟨hpartition, hsplit, hrejoined (by decide)⟩

-- Behind a pipe a slash divides, at the start of a query it opens a regex.
example : split (List.intercalate " | ".toList (split "| /a | b/".toList)) ≠
    split "| /a | b/".toList := by decide

end OpalRepair.Query
