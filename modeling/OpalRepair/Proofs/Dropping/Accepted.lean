import Mathlib
import OpalRepair.Proofs.Content
import OpalRepair.Proofs.Dropping.Grammar
import OpalRepair.Proofs.Dropping.Rejoin

/-!
# Accepted queries stay accepted

A time filter opens as many delimiters as it closes and leaves the depth as it was, so the other
stages are judged as before when it is dropped.

Main statement: `dropTimeFilter_keeps_accepted`.
-/

namespace OpalRepair

open Query Text Vocabulary

/-! ## Rows that can be left out -/

namespace Query

def Spacing (row : List Cell) : Prop := ∀ cell ∈ row, cell.char = '|' ∨ isBlank cell.char = true

structure Neutral (row : List Cell) : Prop where
  paired : ∀ pair : Pair,
    row.countP (Cell.isCode pair.left) = row.countP (Cell.isCode pair.right)
  level : ∀ depth, depthAfter depth row = depth

theorem Neutral.append {a b : List Cell} (ha : Neutral a) (hb : Neutral b) : Neutral (a ++ b) where
  paired pair := by rw [List.countP_append, List.countP_append, ha.paired, hb.paired]
  level depth := by rw [depthAfter_append, ha.level, hb.level]

def isDelimiter (c : Char) : Bool := Pair.all.any fun pair => c == pair.left || c == pair.right

theorem not_isCode_of_not_isDelimiter {cell : Cell}
    (h : isDelimiter cell.char = false ∨ cell.isLiteral = true) (pair : Pair) :
    cell.isCode pair.left = false ∧ cell.isCode pair.right = false := by
  rcases h with h | h
  · have hpair : (cell.char == pair.left) = false ∧ (cell.char == pair.right) = false := by
      have hall := List.any_eq_false.mp h pair (by cases pair <;> simp [Pair.all])
      simpa using hall
    simp [Cell.isCode, hpair]
  · simp [Cell.isCode, h]

theorem flat_of_not_isDelimiter {cell : Cell}
    (h : isDelimiter cell.char = false ∨ cell.isLiteral = true) :
    cell.opens = false ∧ cell.closes = false := by
  constructor <;> rw [← Bool.not_eq_true, ] <;> intro hany
  · obtain ⟨pair, -, hpair⟩ := List.any_eq_true.mp hany
    simp [(not_isCode_of_not_isDelimiter h pair).1] at hpair
  · obtain ⟨pair, -, hpair⟩ := List.any_eq_true.mp hany
    simp [(not_isCode_of_not_isDelimiter h pair).2] at hpair

theorem neutral_of_flat {row : List Cell}
    (h : ∀ cell ∈ row, isDelimiter cell.char = false ∨ cell.isLiteral = true) : Neutral row where
  paired pair := by
    rw [List.countP_eq_zero.mpr, List.countP_eq_zero.mpr]
    · exact fun cell hcell => by simp [(not_isCode_of_not_isDelimiter (h cell hcell) pair).2]
    · exact fun cell hcell => by simp [(not_isCode_of_not_isDelimiter (h cell hcell) pair).1]
  level := fun depth => (nesting_of_flat (fun cell hcell => flat_of_not_isDelimiter (h cell hcell)) depth).1

theorem neutral_parens : Neutral (codeRow "()".toList) where
  paired pair := by cases pair <;> rfl
  level depth := by
    change depthBehind (depthBehind depth ⟨'(', .code⟩) ⟨')', .code⟩ = depth
    have hopen : Cell.opens ⟨'(', .code⟩ = true := by decide
    have hclose : Cell.opens ⟨')', .code⟩ = false ∧ Cell.closes ⟨')', .code⟩ = true := by decide
    simp [depthBehind, hopen, hclose]

/-! ## Rows of bland characters -/

theorem not_isDelimiter_of_bland {c : Char} (h : c ∉ special) : isDelimiter c = false := by
  rw [isDelimiter, List.any_eq_false]
  intro pair _ hpair
  have hc : c = pair.left ∨ c = pair.right := by simpa using hpair
  cases pair <;> rcases hc with rfl | rfl <;> exact h (by decide)

theorem neutral_codeRow {part : List Char} (h : ∀ c ∈ part, c ∉ special) : Neutral (codeRow part) := by
  refine neutral_of_flat fun cell hcell => ?_
  obtain ⟨c, hc, rfl⟩ := List.mem_map.mp hcell
  exact .inl (not_isDelimiter_of_bland (h c hc))

theorem neutral_of_spacing {row : List Cell} (h : Spacing row) : Neutral row := by
  refine neutral_of_flat fun cell hcell => .inl ?_
  rcases h cell hcell with hpipe | hblank
  · rw [hpipe]
    decide
  · exact not_isDelimiter_of_bland (bland_of_isBlank hblank)

end Query

/-! ## Time filters in a row -/

namespace DropTimeFilter

open Scanner

theorem bland_of_duration {text : List Char} (h : Duration text) : ∀ c ∈ text, c ∉ special := by
  obtain @⟨number, blanks, unit, hnumber, hblanks, -, hunit⟩ := h
  have hletter {c : Char} (hc : c.isAlpha = true) : c ∉ special :=
    bland_of_isNameChar (by simp [isNameChar, Char.isAlphanum, hc])
  have hamount : ∀ c ∈ number, c ∉ special := by
    intro c hc
    cases hnumber with
    | whole _ hdigits => exact bland_of_isDecimalDigit (hdigits c hc)
    | fraction _ hdigits _ hmore =>
        rcases List.mem_append.mp hc with hc | hc
        · exact bland_of_isDecimalDigit (hdigits c hc)
        · rcases List.mem_cons.mp hc with rfl | hc
          · decide
          · exact bland_of_isDecimalDigit (hmore c hc)
  intro c hc
  rcases List.mem_append.mp hc with hc | hc
  · exact hamount c hc
  · rcases List.mem_append.mp hc with hc | hc
    · exact bland_of_isBlank (hblanks c hc)
    · exact hletter (hunit c hc)

theorem relativeTime_cases {text : List Char} (h : RelativeTime text) :
    (∃ quote time, text = '@' :: quote :: (time ++ [quote]) ∧ (quote = '"' ∨ quote = '\'') ∧
        quote ∉ time) ∨
      ∃ front back, text = front ++ ("()".toList ++ back) ∧ (∀ c ∈ front, c ∉ special) ∧
        ∀ c ∈ back, c ∉ special := by
  cases h with
  | ago hquote hclosed => exact .inl ⟨_, _, rfl, hquote, hclosed⟩
  | @before clock blanks blanks' duration hclock hblanks hblanks' hduration =>
      have hback : ∀ c ∈ blanks ++ '-' :: (blanks' ++ duration), c ∉ special := by
        intro c hc
        simp only [List.mem_append, List.mem_cons] at hc
        rcases hc with hc | rfl | hc | hc
        · exact bland_of_isBlank (hblanks c hc)
        · decide
        · exact bland_of_isBlank (hblanks' c hc)
        · exact bland_of_duration hduration c hc
      rcases hclock with rfl | rfl
      · exact .inr ⟨"now".toList, _, rfl, bland_of_isBland rfl, hback⟩
      · exact .inr ⟨"query_end_time".toList, _, rfl, bland_of_isBland rfl, hback⟩

theorem exists_front {text : List Char} (h : TimeFilter text) :
    ∃ front time, text = 'f' :: (front ++ time) ∧ (∀ c ∈ front, c ∉ special) ∧ RelativeTime time := by
  obtain ⟨-, hblanks, hcolumn, hblanks', hbound, hblanks'', htime⟩ := h
  rename_i blanks column blanks' bound blanks'' time
  refine ⟨"ilter".toList ++ (blanks ++ (column ++ (blanks' ++ (bound ++ blanks'')))), time, ?_, ?_,
    htime⟩
  · simp
  · intro c hc
    simp only [List.mem_append] at hc
    rcases hc with hc | hc | hc | hc | hc | hc
    · exact bland_of_isBland (rfl : isBland "ilter".toList = true) c hc
    · exact bland_of_isBlank (hblanks c hc)
    · exact bland_of_isNameChar ((name_of_mem_timeColumns hcolumn).2 c hc)
    · exact bland_of_isBlank (hblanks' c hc)
    · rcases hbound with rfl | rfl
      · exact bland_of_isBland rfl c hc
      · exact bland_of_isBland rfl c hc
    · exact bland_of_isBlank (hblanks'' c hc)

theorem isLiteral_of_quoted {last : Option Char} {quote : Char} (hquote : quote = '"' ∨ quote = '\'')
    {time : List Char} (hclosed : quote ∉ time) {row behind : List Cell}
    (hrow : text row = quote :: (time ++ [quote])) (hpaints : (atCode last).Paints (row ++ behind)) :
    ∀ cell ∈ row, cell.isLiteral = true := by
  obtain ⟨opening, rest, rfl, rfl, hrest⟩ := row_of_text_cons hrow
  obtain ⟨content, back, rfl, rfl, hback⟩ := row_of_text hrest
  obtain ⟨closing, more, rfl, -, hmore⟩ := row_of_text_cons hback
  obtain rfl : more = [] := List.map_eq_nil_iff.mp hmore
  rw [List.cons_append, List.append_assoc, List.singleton_append] at hpaints
  obtain ⟨hrole, hinside⟩ := paints_cons.mp hpaints
  have hmode : (atCode last).mode = .code := rfl
  obtain ⟨kind, hdelimiter, hopening, hkind⟩ :=
    step_quote hmode rfl hquote (text (content ++ closing :: behind))
  have hcontent : ∀ cell ∈ content, cell.char ≠ kind.delimiter := by
    intro cell hcell heq
    exact hclosed (by rw [← hdelimiter, ← heq]; exact List.mem_map_of_mem hcell)
  obtain ⟨hroles, t, ht, hafter⟩ := paint_inside hkind hinside hcontent
  intro cell hcell
  rcases List.mem_cons.mp hcell with rfl | hcell
  · rw [Cell.isLiteral, ← hrole, hopening]
    rfl
  rcases List.mem_append.mp hcell with hcell | hcell
  · rw [Cell.isLiteral, hroles cell hcell]
    rfl
  · obtain rfl := List.mem_singleton.mp hcell
    rw [text_cons, paint, List.cons.injEq] at hafter
    rw [Cell.isLiteral, hafter.1]
    exact isLiteral_of_inside ht _ _

theorem neutral_of_timeFilter {s : Scanner} (hs : s.mode = .code) {body behind : List Cell}
    (hpaints : s.Paints (body ++ behind)) (h : TimeFilter (text body)) : Neutral body := by
  obtain ⟨front, time, htext, hfront, htime⟩ := exists_front h
  have hsolid : Solid 'f' := solid_of_isNameChar (by decide)
  rcases relativeTime_cases htime with ⟨quote, time, rfl, hquote, hclosed⟩ | ⟨a, b, rfl, ha, hb⟩
  · -- The quote opens a literal, and only the last character of the filter may close it.
    have hplain : ∀ c ∈ front ++ ['@'], Plain c ∧ c ≠ '|' := by
      intro c hc
      rcases List.mem_append.mp hc with hc | hc
      · exact plain_of_bland (hfront c hc)
      · rw [List.mem_singleton.mp hc]
        decide
    have htext' : text body = ('f' :: (front ++ ['@'])) ++ (quote :: (time ++ [quote])) := by
      simp [htext]
    obtain ⟨code, literal, rfl, hcode, hliteral⟩ := row_of_text htext'
    rw [List.append_assoc] at hpaints
    have hpaint := settles_code hsolid hplain s hs (text (literal ++ behind))
    rw [← hcode, ← text_append, hpaints] at hpaint
    obtain ⟨hrow, hnext⟩ := List.append_inj hpaint (by simp [codeRow, text])
    rw [hrow, hcode]
    refine (neutral_codeRow fun c hc => ?_).append (neutral_of_flat fun cell hcell => .inr ?_)
    · rcases List.mem_cons.mp hc with rfl | hc
      · decide
      · rcases List.mem_append.mp hc with hc | hc
        · exact hfront c hc
        · rw [List.mem_singleton.mp hc]
          decide
    · exact isLiteral_of_quoted hquote hclosed hliteral hnext.symm cell hcell
  · have hplain : ∀ c ∈ front ++ (a ++ ("()".toList ++ b)), Plain c ∧ c ≠ '|' := by
      intro c hc
      simp only [List.mem_append] at hc
      rcases hc with hc | hc | hc | hc
      · exact plain_of_bland (hfront c hc)
      · exact plain_of_bland (ha c hc)
      · have hparen : c = '(' ∨ c = ')' := by simpa using hc
        rcases hparen with rfl | rfl <;> decide
      · exact plain_of_bland (hb c hc)
    have hpaint := settles_code hsolid hplain s hs (text behind)
    rw [← htext, ← text_append, hpaints] at hpaint
    have hbody : body = codeRow (text body) :=
      (List.append_inj hpaint (by simp [codeRow, text])).1
    have hrow : body = codeRow ('f' :: (front ++ a)) ++ (codeRow "()".toList ++ codeRow b) := by
      rw [hbody, htext]
      simp [codeRow]
    rw [hrow]
    refine (neutral_codeRow fun c hc => ?_).append (neutral_parens.append (neutral_codeRow hb))
    simp only [List.mem_cons, List.mem_append] at hc
    rcases hc with rfl | hc | hc
    · decide
    · exact hfront c hc
    · exact ha c hc

end DropTimeFilter

/-! ## Rows without some stages -/

namespace Query

structure Passes (settings : Settings) (row : List Cell) : Prop where
  paired : ∀ pair : Pair,
    row.countP (Cell.isCode pair.left) = row.countP (Cell.isCode pair.right)
  nesting : nestingDepth row ≤ settings.maxNestingDepth
  calls : Word.idle.Sound Callable row

section Spacing

variable {row : List Cell}

theorem nestingFrom_spacing (h : Spacing row) (front : List Cell) (depth : Nat) :
    nestingFrom depth (front ++ row) = nestingFrom depth front := by
  have hflat : ∀ cell ∈ row, cell.opens = false ∧ cell.closes = false := by
    intro cell hcell
    refine flat_of_not_isDelimiter (.inl ?_)
    rcases h cell hcell with hpipe | hblank
    · rw [hpipe]
      decide
    · exact not_isDelimiter_of_bland (bland_of_isBlank hblank)
  have hafter := nestingFrom_append depth front []
  rw [List.append_nil] at hafter
  rw [nestingFrom_append, (nesting_of_flat hflat _).2]
  exact hafter.symm

theorem sound_spacing (h : Spacing row) (word : Word) : word.Sound Callable row := by
  refine word.sound_of_no_paren fun cell hcell hparen => ?_
  rcases h cell hcell with hpipe | hblank
  · simp [hpipe] at hparen
  · rw [hparen] at hblank
    exact absurd hblank (by decide)

theorem after_spacing (h : Spacing row) : Word.idle.after row = .idle := by
  induction row with
  | nil => rfl
  | cons cell row ih =>
      obtain ⟨hcell, hrow⟩ := List.forall_mem_cons.mp h
      have hstep : Word.idle.step cell = .idle := by
        rcases hcell with hpipe | hblank
        · exact Word.step_ends _ (by rw [hpipe]; exact ⟨by decide, by decide, by decide⟩)
        · exact Word.step_blank_idle rfl hblank
      rw [Word.after_cons, hstep]
      exact ih hrow

theorem after_pipe (h : Spacing row) (hpipe : ∃ cell ∈ row, cell.char = '|') (word : Word) :
    word.after row = .idle := by
  obtain ⟨cell, hcell, hchar⟩ := hpipe
  obtain ⟨front, back, rfl⟩ := List.append_of_mem hcell
  have hends : Word.Ends cell.char := by
    rw [hchar]
    exact ⟨by decide, by decide, by decide⟩
  rw [Word.after_append, Word.after_cons, Word.step_ends _ hends]
  exact after_spacing fun other hother => h other (by simp [hother])

theorem Passes.respace {settings : Settings} {front other : List Cell}
    (h : Passes settings (front ++ row)) (hrow : Spacing row) (hother : Spacing other) :
    Passes settings (front ++ other) where
  paired pair := by
    have hsum := h.paired pair
    rw [List.countP_append, List.countP_append, (neutral_of_spacing hrow).paired] at hsum
    rw [List.countP_append, List.countP_append, (neutral_of_spacing hother).paired]
    omega
  nesting := by
    have hbound := h.nesting
    rw [nestingDepth, nestingFrom_spacing hrow] at hbound
    rwa [nestingDepth, nestingFrom_spacing hother]
  calls := by
    have hsound := h.calls
    rw [Word.sound_append] at hsound ⊢
    exact ⟨hsound.1, sound_spacing hother _⟩

end Spacing

section Filter

variable {keep : Stage → Bool} {stages : List Stage}

theorem countP_filter (hdropped : ∀ stage ∈ stages, keep stage = false → Neutral stage.cells)
    (pair : Pair) :
    (stages.flatMap Stage.cells).countP (Cell.isCode pair.left) +
        ((stages.filter keep).flatMap Stage.cells).countP (Cell.isCode pair.right) =
      (stages.flatMap Stage.cells).countP (Cell.isCode pair.right) +
        ((stages.filter keep).flatMap Stage.cells).countP (Cell.isCode pair.left) := by
  induction stages with
  | nil => rfl
  | cons stage stages ih =>
      obtain ⟨hstage, hrest⟩ := List.forall_mem_cons.mp hdropped
      have hsum := ih hrest
      cases hkeep : keep stage with
      | true =>
          rw [List.filter_cons_of_pos hkeep]
          simp only [List.flatMap_cons, List.countP_append]
          omega
      | false =>
          have hpaired := (hstage hkeep).paired pair
          rw [List.filter_cons_of_neg (by simp [hkeep])]
          simp only [List.flatMap_cons, List.countP_append]
          omega

theorem nestingFrom_filter (hdropped : ∀ stage ∈ stages, keep stage = false → Neutral stage.cells)
    (depth : Nat) :
    nestingFrom depth ((stages.filter keep).flatMap Stage.cells) ≤
      nestingFrom depth (stages.flatMap Stage.cells) := by
  induction stages generalizing depth with
  | nil => exact Nat.le_refl _
  | cons stage stages ih =>
      obtain ⟨hstage, hrest⟩ := List.forall_mem_cons.mp hdropped
      rw [List.flatMap_cons, nestingFrom_append]
      cases hkeep : keep stage with
      | true =>
          rw [List.filter_cons_of_pos hkeep, List.flatMap_cons, nestingFrom_append]
          exact max_le_max_left _ (ih hrest _)
      | false =>
          rw [List.filter_cons_of_neg (by simp [hkeep]), (hstage hkeep).level]
          exact (ih hrest depth).trans (Nat.le_max_right _ _)

theorem sound_filter (hspacing : ∀ stage ∈ stages, Spacing stage.gap)
    (hpipe : ∀ stage ∈ stages, ∀ cell ∈ stage.gap, cell.isSeparator = true → cell.char = '|')
    (hapart : Stage.Apart stages) (h : Word.idle.Sound Callable (stages.flatMap Stage.cells)) :
    Word.idle.Sound Callable ((stages.filter keep).flatMap Stage.cells) := by
  induction stages with
  | nil => trivial
  | cons stage stages ih =>
      obtain ⟨-, hgap, hrest⟩ := hapart
      obtain ⟨hstageSpacing, hrestSpacing⟩ := List.forall_mem_cons.mp hspacing
      obtain ⟨hstagePipe, hrestPipe⟩ := List.forall_mem_cons.mp hpipe
      rw [List.flatMap_cons, Word.sound_append] at h
      rcases hgap with rfl | hgap
      · cases hkeep : keep stage with
        | true =>
            rw [List.filter_cons_of_pos hkeep]
            simpa using h.1
        | false =>
            rw [List.filter_cons_of_neg (by simp [hkeep])]
            trivial
      · obtain ⟨separator, hmem, hseparator⟩ := List.any_eq_true.mp hgap
        have hidle : Word.idle.after stage.cells = .idle := by
          rw [Stage.cells, Word.after_append]
          exact after_pipe hstageSpacing ⟨separator, hmem, hstagePipe separator hmem hseparator⟩ _
        rw [hidle] at h
        have hsound := ih hrestSpacing hrestPipe hrest h.2
        cases hkeep : keep stage with
        | true =>
            rw [List.filter_cons_of_pos hkeep, List.flatMap_cons, Word.sound_append, hidle]
            exact ⟨h.1, hsound⟩
        | false =>
            rw [List.filter_cons_of_neg (by simp [hkeep])]
            exact hsound

theorem Passes.filter {settings : Settings} {lead : List Cell} (hlead : Spacing lead)
    (hspacing : ∀ stage ∈ stages, Spacing stage.gap)
    (hpipe : ∀ stage ∈ stages, ∀ cell ∈ stage.gap, cell.isSeparator = true → cell.char = '|')
    (hapart : Stage.Apart stages)
    (hdropped : ∀ stage ∈ stages, keep stage = false → Neutral stage.cells)
    (h : Passes settings (lead ++ stages.flatMap Stage.cells)) :
    Passes settings (lead ++ (stages.filter keep).flatMap Stage.cells) where
  paired pair := by
    have hsum := h.paired pair
    have hfilter := countP_filter hdropped pair
    rw [List.countP_append, List.countP_append] at hsum ⊢
    have hleadPaired := (neutral_of_spacing hlead).paired pair
    omega
  nesting := by
    have hbound := h.nesting
    rw [nestingDepth, nestingFrom_append, (neutral_of_spacing hlead).level] at hbound ⊢
    exact (max_le_max_left _ (nestingFrom_filter hdropped 0)).trans hbound
  calls := by
    have hsound := h.calls
    rw [Word.sound_append, after_spacing hlead] at hsound ⊢
    exact ⟨hsound.1, sound_filter hspacing hpipe hapart hsound.2⟩

end Filter

end Query

/-! ## Queries -/

theorem accepted_iff_passes {settings : Settings} {query : List Char} :
    Accepted settings query ↔ (scan query).final.mode = .code ∧ Passes settings (cells query) ∧
      ((layout query).stages.map Stage.body).length ≤ settings.maxStages ∧
      ∀ body ∈ (layout query).stages.map Stage.body, StartsWithVerb body :=
  ⟨fun h => ⟨h.mode, ⟨h.paired, h.nesting, h.calls⟩, h.stages, h.verbs⟩,
    fun ⟨hmode, hpasses, hstages, hverbs⟩ =>
      ⟨hmode, hpasses.paired, hstages, hpasses.nesting, hverbs, hpasses.calls⟩⟩

namespace Query

variable {query : List Char}

theorem mem_cells_of_gap {stage : Stage} (hstage : stage ∈ (layout query).stages) {cell : Cell}
    (hcell : cell ∈ stage.gap) : cell ∈ cells query := by
  rw [cells_eq_layout]
  exact List.mem_append_right _
    (List.mem_flatMap.mpr ⟨stage, hstage, List.mem_append_right _ hcell⟩)

theorem spacing_lead (query : List Char) : Spacing (layout query).lead := by
  intro cell hcell
  refine (paints_cells query).char_of_gap ?_ (Layout.gap_lead (cells query) cell hcell)
  rw [cells_eq_layout]
  exact List.mem_append_left _ hcell

theorem spacing_gap {stage : Stage} (hstage : stage ∈ (layout query).stages) :
    Spacing stage.gap := by
  intro cell hcell
  exact (paints_cells query).char_of_gap (mem_cells_of_gap hstage hcell)
    (((Layout.apart (cells query)).trimmed stage hstage).gap cell hcell)

end Query

namespace DropTimeFilter

open Scanner

variable {settings : Settings} {query : List Char}

theorem neutral_of_isRedundant {stage : Stage} (hstage : stage ∈ (layout query).stages)
    (hverb : stage.verb?.isSome = true) (hredundant : isRedundant stage = true) : Neutral stage.cells := by
  have hspacing := spacing_gap hstage
  obtain ⟨first, rest, hbody, hcode, -⟩ := headed_of_verb? hstage hverb
  rw [← map_snd_places] at hstage
  obtain ⟨place, hplace, rfl⟩ := List.mem_map.mp hstage
  obtain ⟨after, hcells⟩ := cells_of_mem_places hplace
  rw [List.append_assoc] at hcells
  have hpaints := paints_cells query
  rw [hcells] at hpaints
  have hmode := hpaints
  rw [hbody, List.cons_append] at hmode
  have hpart := (paints_append.mp hpaints).2
  rw [hbody, List.cons_append] at hpart
  refine Neutral.append ?_ (neutral_of_spacing hspacing)
  rw [hbody]
  refine neutral_of_timeFilter (hmode.mode hcode) hpart ?_
  rw [← hbody]
  exact (isTimeFilter_iff _).mp hredundant

theorem startsWithVerb_swallow {body swallowed : List Cell} (h : StartsWithVerb body)
    (hswallowed : swallowed = [] ∨ swallowed = [⟨'|', .code⟩]) :
    StartsWithVerb (body ++ swallowed) := by
  rcases hswallowed with rfl | rfl
  · rwa [List.append_nil]
  · obtain ⟨name, hname, hverb⟩ := h
    refine ⟨name, ?_, hverb⟩
    rw [text_append, text_cons, leadingName?_stop (by decide) (by decide)]
    exact hname

theorem accepted_remaining (h : Accepted settings query)
    (hne : (layout query).stages.filter (!isRedundant ·) ≠ []) :
    Accepted settings (remaining (layout query)) ∧
      (split (remaining (layout query))).length ≤ (split query).length := by
  obtain ⟨hmode, hpasses, hstages, hverbs⟩ := accepted_iff_passes.mp h
  have hnamed : ∀ stage ∈ (layout query).stages, stage.verb?.isSome = true := by
    intro stage hstage
    obtain ⟨name, hname, -⟩ := hverbs stage.body (List.mem_map_of_mem hstage)
    rw [Stage.verb?, Stage.text, Option.mem_def.mp hname]
    rfl
  rcases ((layout query).stages.filter (!isRedundant ·)).eq_nil_or_concat' with
    hnil | ⟨init, final, hkept⟩
  · exact absurd hnil hne
  obtain ⟨swallowed, gap, hlayout, hswallowed, hfinal⟩ :=
    exists_layout_join (!isRedundant ·) hnamed hkept (rfl : remaining (layout query) = _)
  have hlength : (init ++ [final]).length ≤ (layout query).stages.length := by
    rw [← hkept]
    exact List.length_filter_le _ _
  have hmem {stage : Stage} (hstage : stage ∈ init ++ [final]) : stage ∈ (layout query).stages := by
    rw [← hkept] at hstage
    exact List.mem_of_mem_filter hstage
  have hrow : Passes settings (cells (remaining (layout query))) := by
    have hfiltered : Passes settings
        ((layout query).lead ++ (init ++ [final]).flatMap Stage.cells) := by
      rw [cells_eq_layout] at hpasses
      rw [← hkept]
      exact hpasses.filter (spacing_lead query) (fun stage hstage => spacing_gap hstage)
        (fun stage hstage cell hcell hseparator =>
          char_of_isSeparator (mem_cells_of_gap hstage hcell) hseparator)
        (Layout.apart (cells query))
        fun stage hstage hkeep => neutral_of_isRedundant hstage (hnamed stage hstage)
          (by simpa using hkeep)
    have hlast : (⟨final.body ++ swallowed, gap⟩ : Stage) ∈
        (layout (remaining (layout query))).stages := by
      rw [hlayout]
      simp
    have hend : Spacing (swallowed ++ gap) := by
      intro cell hcell
      rcases List.mem_append.mp hcell with hcell | hcell
      · rcases hswallowed with rfl | ⟨rfl, -⟩
        · simp at hcell
        · exact .inl (by rw [List.mem_singleton.mp hcell])
      · exact spacing_gap hlast cell hcell
    have hout := hfiltered
    rw [cells_eq_layout, hlayout]
    simp only [List.flatMap_append, List.flatMap_cons, List.flatMap_nil, List.append_nil, Stage.cells]
      at hout ⊢
    rw [← List.append_assoc, ← List.append_assoc] at hout
    rw [List.append_assoc final.body, ← List.append_assoc, ← List.append_assoc]
    exact hout.respace (spacing_gap (hmem (by simp))) hend
  refine ⟨accepted_iff_passes.mpr ⟨hfinal hmode, hrow, ?_, ?_⟩, ?_⟩
  · rw [hlayout]
    simp only [List.length_map, List.length_append, List.length_singleton] at hstages hlength ⊢
    omega
  · intro body hbody
    rw [hlayout, List.map_append, List.mem_append] at hbody
    rcases hbody with hbody | hbody
    · obtain ⟨stage, hstage, rfl⟩ := List.mem_map.mp hbody
      exact hverbs _ (List.mem_map_of_mem (hmem (List.mem_append_left _ hstage)))
    · obtain rfl : body = final.body ++ swallowed := by simpa using hbody
      exact startsWithVerb_swallow (hverbs _ (List.mem_map_of_mem (hmem (by simp))))
        (hswallowed.imp id And.left)
  · rw [split, split, hlayout]
    simp only [List.length_map, List.length_append, List.length_singleton] at hlength ⊢
    omega

end DropTimeFilter

/-- If a query is accepted, it is accepted without its time filters, and it has no more stages. -/
theorem dropTimeFilter_keeps_accepted {settings : Settings} {query : String}
    (h : checkStructure settings query = .ok ()) (context : Context) :
    checkStructure settings (dropTimeFilter.apply context query).query = .ok () ∧
      (split (dropTimeFilter.apply context query).query.toList).length ≤
        (split query.toList).length := by
  have hsame : checkStructure settings (Outcome.unchanged query).query = .ok () ∧
      (split (Outcome.unchanged query).query.toList).length ≤ (split query.toList).length :=
    ⟨h, Nat.le_refl _⟩
  rw [dropTimeFilter]
  dsimp only
  cases context.declaredWindow? with
  | none => exact hsame
  | some window =>
      dsimp only
      rw [DropTimeFilter.apply]
      split_ifs with hcond
      · exact hsame
      · have hne : (layout query.toList).stages.filter (!DropTimeFilter.isRedundant ·) ≠ [] := by
          intro hnil
          rw [List.filter_eq_nil_iff] at hnil
          refine hcond (Bool.or_eq_true_iff.mpr (.inr (beq_iff_eq.mpr ?_)))
          rw [List.length_filter_eq_length_iff]
          exact fun stage hstage => by simpa using hnil stage hstage
        obtain ⟨haccepted, hlength⟩ :=
          DropTimeFilter.accepted_remaining (checkStructure_iff_accepted.mp h) hne
        simp only [Outcome.ofChanges, checkStructure_iff_accepted, String.toList_ofList]
        exact ⟨haccepted, hlength⟩

/-- The backslash at the end of the last stage that stays swallows the pipe behind the dropped one. -/
theorem dropTimeFilter_keeps_accepted_backslash :
    let query := "limit 1 | sort asc(a), b\\ | filter time > @'1h ago'|"
    checkStructure {} query = .ok () ∧
      (dropTimeFilter.apply ⟨some "1h"⟩ query).query = "limit 1 | sort asc(a), b\\|" ∧
      checkStructure {} (dropTimeFilter.apply ⟨some "1h"⟩ query).query = .ok () := by
  intro query
  have haccepted : checkStructure {} query = .ok () := by decide +kernel
  exact ⟨haccepted, by decide, (dropTimeFilter_keeps_accepted haccepted ⟨some "1h"⟩).1⟩

end OpalRepair
