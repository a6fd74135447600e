import Mathlib
import OpalRepair.Proofs.Counting.Repaint
import OpalRepair.Proofs.Dropping.Accepted
import OpalRepair.Proofs.Suggestions

/-!
# Well-formed queries

Two of the checks bound the size of a query.  The others ask that no literal is left open, that
delimiters are paired, that stages start with verbs and that only known words are called.  Up to the
pairs, which may lie in different stages, this is a property of each stage by itself.

Main statement: `wellFormed_iff_orderly`.
-/

namespace OpalRepair

open Query Text

/-- What the checks ask of a query beside its size. -/
structure WellFormed (query : List Char) : Prop where
  closed : (scan query).final.mode = .code
  paired : ∀ pair : Pair, (cells query).countP (Cell.isCode pair.left) =
    (cells query).countP (Cell.isCode pair.right)
  verbs : ∀ body ∈ (layout query).stages.map Stage.body, StartsWithVerb body
  calls : Word.idle.Sound Callable (cells query)

theorem accepted_iff_wellFormed {settings : Settings} {query : List Char} :
    Accepted settings query ↔ WellFormed query ∧
      (layout query).stages.length ≤ settings.maxStages ∧
      nestingDepth (cells query) ≤ settings.maxNestingDepth := by
  constructor
  · rintro ⟨hmode, hpaired, hstages, hnesting, hverbs, hcalls⟩
    exact ⟨⟨hmode, hpaired, hverbs, hcalls⟩, by simpa using hstages, hnesting⟩
  · rintro ⟨⟨hmode, hpaired, hverbs, hcalls⟩, hstages, hnesting⟩
    exact ⟨hmode, hpaired, by simpa using hstages, hnesting, hverbs, hcalls⟩

namespace Query

/-! ## Open literals -/

def Cell.isOpen (cell : Cell) : Bool := cell.role == .opening || cell.role == .content

def Shut (row : List Cell) : Prop := ∀ cell ∈ row.getLast?, cell.isOpen = false

theorem shut_append {a b : List Cell} (hb : b ≠ []) : Shut (a ++ b) ↔ Shut b := by
  rw [Shut, Shut, List.getLast?_append_of_ne_nil _ hb]

theorem not_isOpen_of_code {cell : Cell} (h : cell.isLiteral = false) : cell.isOpen = false := by
  obtain ⟨c, role⟩ := cell
  cases role with
  | code | separator => rfl
  | opening | content | closing | flag => simp [Cell.isLiteral, Role.isLiteral] at h

namespace Scanner

def Inside (s : Scanner) : Prop := ∃ kind, s.mode = .inside kind

theorem not_inside_of_code {s : Scanner} (h : s.mode = .code) : ¬ s.Inside := by
  rintro ⟨kind, hkind⟩
  simp [h] at hkind

theorem inside_step (s : Scanner) (c : Char) (rest : List Char) :
    (s.step c rest).2.Inside ↔ Cell.isOpen ⟨c, (s.step c rest).1⟩ = true := by
  rcases s.step_cases c rest with ⟨more, -, hrole, hnext⟩ | ⟨-, hrole, hnext⟩ |
    ⟨kind, -, -, hrole, hnext⟩ | ⟨kind, -, hrole, hnext⟩ | ⟨kind, -, -, hrole, hnext⟩
  · simp [Inside, hrole, hnext, Cell.isOpen, beforeFlags_ne_inside]
  · have hcode : Cell.isOpen ⟨c, (s.step c rest).1⟩ = false := not_isOpen_of_code hrole
    simp [Inside, hnext, hcode]
  · simp [Inside, hrole, hnext, Cell.isOpen]
  · simp [Inside, hrole, hnext, Cell.isOpen]
  · simp [Inside, hrole, hnext, Cell.isOpen, modeAfter_ne_inside]

theorem inside_reach {s : Scanner} {a b : List Cell} {cell : Cell}
    (h : s.Paints (a ++ cell :: b)) :
    (s.reach (text b) (text (a ++ [cell]))).Inside ↔ cell.isOpen = true := by
  rw [reach_concat, inside_step, h.role]

theorem Paints.inside_iff {s : Scanner} {row behind : List Cell} (hs : ¬ s.Inside)
    (h : s.Paints (row ++ behind)) :
    (s.reach (text behind) (text row)).Inside ↔ ¬ Shut row := by
  rcases row.eq_nil_or_concat' with rfl | ⟨front, cell, rfl⟩
  · simpa [Shut, reach] using hs
  · rw [List.append_assoc, List.singleton_append] at h
    rw [inside_reach h]
    simp [Shut]

theorem Paints.code_iff_shut {last : Option Char} {row : List Cell} (h : (atCode last).Paints row) :
    ((atCode last).finish (text row)).mode = .code ↔ Shut row := by
  have hwhole : (atCode last).Paints (row ++ []) := (List.append_nil row).symm ▸ h
  have hinside := hwhole.inside_iff (not_inside_of_code rfl)
  rw [text_nil, ← finish_eq_reach] at hinside
  constructor
  · exact fun hmode => not_not.mp fun hshut => not_inside_of_code hmode (hinside.mpr hshut)
  · intro hshut
    cases hmode : ((atCode last).finish (text row)).mode with
    | code => rfl
    | inside kind => exact absurd hshut (hinside.mp ⟨kind, hmode⟩)
    | flags more =>
        exact absurd hmode (finish_ne_flags (fun more h => by simp [atCode] at h) more)

theorem Paints.inside_gap {s : Scanner} {gap : List Cell} (h : s.Paints gap)
    (hgap : ∀ cell ∈ gap, cell.isGap = true) : (s.finish (text gap)).Inside ↔ s.Inside := by
  induction gap generalizing s with
  | nil => rfl
  | cons cell gap ih =>
      have hchar := h.char_of_gap List.mem_cons_self (hgap cell List.mem_cons_self)
      obtain ⟨hrole, hnext⟩ := paints_cons.mp h
      have hdelimiter (kind : Literal) : cell.char ≠ kind.delimiter := by
        intro heq
        rw [heq] at hchar
        revert hchar
        cases kind <;> decide
      rw [text_cons, finish, ih hnext fun other hother => hgap other (by simp [hother])]
      rcases s.step_cases cell.char (text gap) with ⟨more, hs, -, hstep⟩ | ⟨hs, -, hstep⟩ |
        ⟨kind, -, hc, -⟩ | ⟨kind, hs, -, hstep⟩ | ⟨kind, -, hc, -⟩
      · simp [Inside, hs, hstep, beforeFlags_ne_inside]
      · simp [Inside, hs, hstep]
      · exact absurd hc (hdelimiter kind)
      · simp [Inside, hs, hstep]
      · exact absurd hc (hdelimiter kind)

end Scanner

theorem closed_iff_not_inside (query : List Char) :
    (scan query).final.mode = .code ↔ ¬ (scan query).final.Inside := by
  refine ⟨Scanner.not_inside_of_code, fun h => ?_⟩
  exact mode_of_closed (fun hdouble => h ⟨_, hdouble⟩) fun kind _ hkind => h ⟨kind, hkind⟩

theorem closed_iff_shut (query : List Char) :
    (scan query).final.mode = .code ↔ Shut (cells query) := by
  rw [← (paints_cells query).code_iff_shut, text_cells]
  rfl

/-! ## Stages -/

section Stages

open Scanner

variable {query : List Char} {pre post : List Stage} {stage : Stage}

theorem inside_behind_stage (hstages : (layout query).stages = pre ++ stage :: post) :
    ((atCode none).reach (text (stage.gap ++ post.flatMap Stage.cells))
        (text ((layout query).lead ++ pre.flatMap Stage.cells ++ stage.body))).Inside ↔
      ¬ Shut stage.body := by
  have hstanding := standing_of_stages hstages
  have hpaints := paints_cells query
  have hne : stage.body ≠ [] := by
    obtain ⟨cell, hcell, -⟩ := hstanding.trimmed.head
    rintro hnil
    simp [hnil] at hcell
  rw [hstanding.row_eq] at hpaints
  rw [hpaints.inside_iff (not_inside_of_code rfl), shut_append hne]

theorem shut_of_apart (hstages : (layout query).stages = pre ++ stage :: post)
    (hapart : stage.gap.any Cell.isSeparator = true) : Shut stage.body := by
  have hstanding := standing_of_stages hstages
  have hpaints := paints_cells query
  rw [hstanding.row_eq] at hpaints
  have hahead : (atCode none).FlagsAhead (text ((layout query).lead ++ pre.flatMap Stage.cells ++
      stage.body ++ (stage.gap ++ post.flatMap Stage.cells))) := fun more h => by simp [atCode] at h
  have hmode := FlagCount.mode_of_apart (paints_append.mp hpaints).2 hahead.reach_row
    hstanding.trimmed.gap hapart
  by_contra hshut
  exact not_inside_of_code hmode ((inside_behind_stage hstages).mpr hshut)

theorem inside_final (hstages : (layout query).stages = pre ++ [stage]) :
    (scan query).final.Inside ↔ ¬ Shut stage.body := by
  have hstanding := standing_of_stages hstages
  have hrow := hstanding.row_eq
  have hpaints := paints_cells query
  have hinside := inside_behind_stage hstages
  rw [List.flatMap_nil, List.append_nil] at hrow hinside
  rw [hrow] at hpaints
  have hfinal : (scan query).final = ((atCode none).reach (text stage.gap)
      (text ((layout query).lead ++ pre.flatMap Stage.cells ++ stage.body))).finish
        (text stage.gap) := by
    rw [← finish_append, ← text_append, ← hrow, text_cells]
    rfl
  rw [hfinal, (paints_append.mp hpaints).2.inside_gap hstanding.trimmed.gap, hinside]

theorem closed_iff_forall_shut (query : List Char) :
    (scan query).final.mode = .code ↔ ∀ stage ∈ (layout query).stages, Shut stage.body := by
  rw [closed_iff_not_inside]
  rcases (layout query).stages.eq_nil_or_concat' with hnil | ⟨pre, last, hstages⟩
  · have hpaints := paints_cells query
    have hrow : cells query = (layout query).lead := by rw [cells_eq_layout, hnil]; simp
    have hgap : ∀ cell ∈ cells query, cell.isGap = true := by
      rw [hrow]
      exact Layout.gap_lead (cells query)
    have hfinal := hpaints.inside_gap hgap
    rw [text_cells] at hfinal
    have hclosed : ¬ (scan query).final.Inside := hfinal.not.mpr (not_inside_of_code rfl)
    simpa [hnil] using hclosed
  · rw [inside_final hstages, not_not]
    refine ⟨fun hlast stage hstage => ?_, fun h => h last (by simp [hstages])⟩
    rw [hstages, List.mem_append, List.mem_singleton] at hstage
    rcases hstage with hstage | rfl
    · obtain ⟨front, back, rfl⟩ := List.append_of_mem hstage
      rw [List.append_assoc, List.cons_append] at hstages
      refine shut_of_apart hstages ((standing_of_stages hstages).apart.resolve_left fun hend => ?_)
      obtain ⟨cell, hcell, -⟩ := ((Layout.apart (cells query)).trimmed last
        (show last ∈ (layout query).stages by simp [hstages])).head
      have hempty : last.cells = [] := List.flatMap_eq_nil_iff.mp hend last (by simp)
      rw [(List.append_eq_nil_iff.mp hempty).1] at hcell
      simp at hcell
    · exact hlast

/-! ## Pairs -/

def Pair.excess (pair : Pair) (row : List Cell) : Int :=
  row.countP (Cell.isCode pair.left) - row.countP (Cell.isCode pair.right)

theorem Pair.excess_append (pair : Pair) (a b : List Cell) :
    pair.excess (a ++ b) = pair.excess a + pair.excess b := by
  simp only [excess, List.countP_append]
  omega

theorem Pair.excess_cons (pair : Pair) (cell : Cell) (row : List Cell) :
    pair.excess (cell :: row) = pair.excess [cell] + pair.excess row :=
  pair.excess_append [cell] row

theorem Neutral.excess {row : List Cell} (h : Neutral row) (pair : Pair) : pair.excess row = 0 := by
  rw [Pair.excess, h.paired pair, sub_self]

theorem excess_cells (query : List Char) (pair : Pair) :
    pair.excess (cells query) =
      ((layout query).stages.map fun stage => pair.excess stage.body).sum := by
  have hstages {stages : List Stage} (h : ∀ stage ∈ stages, Spacing stage.gap) :
      pair.excess (stages.flatMap Stage.cells) =
        (stages.map fun stage => pair.excess stage.body).sum := by
    induction stages with
    | nil => rfl
    | cons stage stages ih =>
        obtain ⟨hgap, hrest⟩ := List.forall_mem_cons.mp h
        rw [List.flatMap_cons, Pair.excess_append, Stage.cells, Pair.excess_append,
          (neutral_of_spacing hgap).excess, ih hrest, List.map_cons, List.sum_cons, add_zero]
  rw [cells_eq_layout, Pair.excess_append, (neutral_of_spacing (spacing_lead query)).excess, zero_add]
  exact hstages fun stage hstage => spacing_gap hstage

/-! ## Calls -/

instance : DecidablePred Callable := fun word =>
  inferInstanceAs (Decidable (isCallable (String.ofList word) = true))

open Vocabulary in
theorem utf8Size_of_callable {word : List Char} (h : Callable word) :
    ∀ c ∈ word, c.utf8Size = 1 := by
  have htable {words : List String} (htable : IsTable words)
      (hword : words.contains (String.ofList word) = true) : ∀ c ∈ word, c.utf8Size = 1 := by
    have hascii := htable.ascii _ (List.contains_iff_mem.mp hword)
    simpa using hascii
  simp only [Callable, isCallable, Bool.or_eq_true] at h
  rcases h with (h | h) | h
  · exact htable isTable_functions h
  · exact htable isTable_verbs h
  · intro c hc
    -- Only letters of ASCII have another lower case.
    have hlower (h : c.toLower.utf8Size = 1) : c.utf8Size = 1 := by
      unfold Char.toLower at h
      split at h
      · rename_i hupper
        exact Char.utf8Size_eq_one_iff.mpr (UInt32.le_trans hupper.2 (by decide))
      · exact h
    have hascii : ∀ name ∈ connectives.map String.toList, name.all (·.utf8Size == 1) = true := by
      decide
    rw [String.toList_ofList, List.contains_iff_mem] at h
    have hname := hascii _ (List.mem_map_of_mem h)
    rw [String.toList_ofList] at hname
    exact hlower (by simpa using List.all_eq_true.mp hname _ (List.mem_map_of_mem hc))

theorem not_callable_of_mem {word : List Char} {c : Char} (hc : c ∈ word)
    (hword : isWordChar c = true) (hname : isNameChar c = false) : ¬ Callable word := by
  intro h
  have hsmall : c.val ≤ 127 := Char.utf8Size_eq_one_iff.mp (utf8Size_of_callable h c hc)
  have hascii : c.toNat < 0x80 := Nat.lt_succ_of_le hsmall
  rw [isWordChar, if_pos hascii, hname] at hword
  simp at hword

theorem sound_cells_iff (query : List Char) :
    Word.idle.Sound Callable (cells query) ↔
      ∀ stage ∈ (layout query).stages, Word.idle.Sound Callable stage.body := by
  have hstages {stages : List Stage} (hspacing : ∀ stage ∈ stages, Spacing stage.gap)
      (hpipe : ∀ stage ∈ stages, ∀ cell ∈ stage.gap, cell.isSeparator = true → cell.char = '|')
      (hapart : Stage.Apart stages) :
      Word.idle.Sound Callable (stages.flatMap Stage.cells) ↔
        ∀ stage ∈ stages, Word.idle.Sound Callable stage.body := by
    induction stages with
    | nil => simp
    | cons stage stages ih =>
        obtain ⟨-, hgap, hrest⟩ := hapart
        obtain ⟨hspacingStage, hspacing⟩ := List.forall_mem_cons.mp hspacing
        obtain ⟨hpipeStage, hpipe⟩ := List.forall_mem_cons.mp hpipe
        rw [List.flatMap_cons, Stage.cells, List.append_assoc, Word.sound_append,
          List.forall_mem_cons, Word.sound_append, and_iff_right (sound_spacing hspacingStage _)]
        refine and_congr_right fun _ => ?_
        rcases hgap with rfl | hgap
        · simp
        · obtain ⟨separator, hmem, hseparator⟩ := List.any_eq_true.mp hgap
          rw [after_pipe hspacingStage ⟨separator, hmem, hpipeStage separator hmem hseparator⟩]
          exact ih hspacing hpipe hrest
  rw [cells_eq_layout, Word.sound_append, after_spacing (spacing_lead query),
    and_iff_right (sound_spacing (spacing_lead query) _)]
  exact hstages (fun stage hstage => spacing_gap hstage)
    (fun stage hstage cell hcell hseparator =>
      char_of_isSeparator (mem_cells_of_gap hstage hcell) hseparator)
    (Layout.apart (cells query))

structure Orderly (body : List Cell) : Prop where
  shut : Shut body
  verb : StartsWithVerb body
  calls : Word.idle.Sound Callable body

end Stages

end Query

/-- A query is well-formed if its stages are in order and close together what they open. -/
theorem wellFormed_iff_orderly (query : List Char) :
    WellFormed query ↔
      (∀ pair : Pair, ((layout query).stages.map fun stage => pair.excess stage.body).sum = 0) ∧
        ∀ stage ∈ (layout query).stages, Orderly stage.body := by
  have hpaired : (∀ pair : Pair, (cells query).countP (Cell.isCode pair.left) =
        (cells query).countP (Cell.isCode pair.right)) ↔
      ∀ pair : Pair, ((layout query).stages.map fun stage => pair.excess stage.body).sum = 0 := by
    refine forall_congr' fun pair => ?_
    rw [← excess_cells, Pair.excess, sub_eq_zero, Nat.cast_inj]
  constructor
  · rintro ⟨hclosed, hpairs, hverbs, hcalls⟩
    exact ⟨hpaired.mp hpairs, fun stage hstage =>
      ⟨(closed_iff_forall_shut query).mp hclosed stage hstage,
        hverbs _ (List.mem_map_of_mem hstage), (sound_cells_iff query).mp hcalls stage hstage⟩⟩
  · rintro ⟨hpairs, horderly⟩
    exact ⟨(closed_iff_forall_shut query).mpr fun stage hstage => (horderly stage hstage).shut,
      hpaired.mpr hpairs, List.forall_mem_map.mpr fun stage hstage => (horderly stage hstage).verb,
      (sound_cells_iff query).mpr fun stage hstage => (horderly stage hstage).calls⟩

end OpalRepair
