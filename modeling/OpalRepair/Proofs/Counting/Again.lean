import Mathlib
import OpalRepair.Proofs.Counting.Repaint
import OpalRepair.Proofs.Selection

/-!
# No counts afterwards

Where the mended stages hold the head of a count, the stages before held it as well, and its call
was closed there.  So it is one of the counts that have been replaced.
-/

namespace OpalRepair

open Query Text Vocabulary

namespace FlagCount

/-! ## Calls that stay closed -/

def Void : List Cell → Prop
  | [] => False
  | cell :: row => cell.isCode ')' = true ∨ isBlank cell.char = true ∧ Void row

theorem isEmpty_iff_void {row : List Cell} {n : Nat} (h : closingParen? 0 row = some n) :
    (trim (text (row.take n))).isEmpty = true ↔ Void row := by
  have hempty (text : List Char) : (trim text).isEmpty = true ↔ ∀ c ∈ text, isBlank c = true :=
    ⟨forall_of_trim_isEmpty, fun h => by rw [trim_of_forall h]; rfl⟩
  rw [hempty]
  induction row generalizing n with
  | nil => simp [closingParen?] at h
  | cons cell row ih =>
      cases hright : cell.isCode ')' with
      | true =>
          rw [closingParen?_right_zero hright] at h
          obtain rfl := Option.some.inj h
          simp [Void, hright]
      | false =>
          cases hleft : cell.isCode '(' with
          | true =>
              rw [closingParen?_left hleft] at h
              obtain ⟨k, -, rfl⟩ := Option.map_eq_some_iff.mp h
              have hblank : isBlank cell.char = false := by
                rw [(by simpa [Cell.isCode] using hleft : cell.char = '(' ∧ _).1]
                decide
              simp [Void, hright, hblank]
          | false =>
              rw [closingParen?_other hleft hright] at h
              obtain ⟨k, hk, rfl⟩ := Option.map_eq_some_iff.mp h
              refine Iff.trans ?_ (or_congr_right (and_congr_right fun _ => ih hk))
              simp [hright]

theorem Void.of_append {row old new : List Cell} (h : Void (row ++ old)) (hold : Void old → Void new) :
    Void (row ++ new) := by
  induction row with
  | nil => exact hold h
  | cons cell row ih => exact h.imp id fun hrest => ⟨hrest.1, ih hrest.2⟩

def Closes (old new : List Cell) : Prop :=
  ∀ inner, (closingParen? inner new).isSome = true → (closingParen? inner old).isSome = true

namespace Closes

variable {old new : List Cell}

theorem cons (h : Closes old new) (cell : Cell) : Closes (cell :: old) (cell :: new) := by
  intro inner hnew
  cases hleft : cell.isCode '(' with
  | true =>
      rw [closingParen?_left hleft, Option.isSome_map] at hnew ⊢
      exact h _ hnew
  | false =>
      cases hright : cell.isCode ')' with
      | false =>
          rw [closingParen?_other hleft hright, Option.isSome_map] at hnew ⊢
          exact h _ hnew
      | true =>
          cases inner with
          | zero =>
              rw [closingParen?_right_zero hright]
              rfl
          | succ inner =>
              rw [closingParen?_right_succ hright, Option.isSome_map] at hnew ⊢
              exact h _ hnew

theorem append (h : Closes old new) (row : List Cell) : Closes (row ++ old) (row ++ new) := by
  induction row with
  | nil => exact h
  | cons cell row ih => exact ih.cons cell

theorem level {a b : List Cell} (h : Closes old new) (ha : Level a) (hb : Level b) :
    Closes (a ++ old) (b ++ new) := by
  intro inner hnew
  rw [hb, Option.isSome_map] at hnew
  rw [ha, Option.isSome_map]
  exact h inner hnew

end Closes

/-! ## Level parts -/

theorem level_codeRow {text : List Char} (h : ∀ c ∈ text, c ≠ '(' ∧ c ≠ ')') : Level (codeRow text) :=
  level_of_forall fun cell hcell => by
    obtain ⟨c, hc, rfl⟩ := List.mem_map.mp hcell
    exact h c hc

theorem level_call {name : List Char} (hname : ∀ c ∈ name, c ≠ '(' ∧ c ≠ ')') {inside : List Cell}
    (hinside : Level inside) : Level (codeRow (name ++ ['(']) ++ (inside ++ codeRow [')'])) := by
  have hparens : Level (⟨'(', .code⟩ :: (inside ++ [⟨')', .code⟩])) := hinside.paren rfl rfl
  have hcall := (level_codeRow hname).append hparens
  simpa [codeRow] using hcall

theorem level_trimCells {row : List Cell} (h : Level row) : Level (trimCells row) := by
  obtain ⟨blanks, spaces, hrow, hblanks, hspaces⟩ := exists_trimCells row
  have hparen {cell : Cell} (hcell : isBlank cell.char = true) :
      cell.char ≠ '(' ∧ cell.char ≠ ')' := by
    constructor <;> intro hchar <;> rw [hchar] at hcell <;> revert hcell <;> decide
  have hclosing : closingParen? 0 (row ++ [⟨')', .code⟩]) = some row.length :=
    h.closing rfl []
  rw [hrow, List.append_assoc, closingParen?_skip fun cell hcell => hparen (hblanks cell hcell),
    Option.map_eq_some_iff] at hclosing
  obtain ⟨n, hn, hlength⟩ := hclosing
  obtain rfl : n = (trimCells row).length + spaces.length := by
    simp only [List.length_append] at hlength
    omega
  rw [List.append_assoc] at hn
  exact level_of_closing_behind (fun cell hcell => hparen (hspaces cell hcell)) hn

section Parts

variable {count : Count} {head inside : List Cell} {paren close : Cell} {segment : Segment}

theorem Spelled.label_chars (h : Spelled count head paren inside close) :
    ∀ c ∈ count.label, c ≠ '(' ∧ c ≠ ')' := by
  intro c hc
  have hname := h.label c hc
  constructor <;> rintro rfl <;> revert hname <;> decide

theorem Spelled.flag_chars (h : Spelled count head paren inside close) :
    ∀ c ∈ count.flag, c ≠ '(' ∧ c ≠ ')' := by
  intro c hc
  rcases List.mem_append.mp hc with hc | hc
  · exact h.label_chars c hc
  · exact (by simp : ∀ c ∈ "_flag".toList, c ≠ '(' ∧ c ≠ ')') c hc

theorem level_sum (h : Spelled count head paren inside close) : Level (codeRow count.sum) := by
  have hname : ∀ c ∈ count.label ++ ":sum".toList, c ≠ '(' ∧ c ≠ ')' := by
    intro c hc
    rcases List.mem_append.mp hc with hc | hc
    · exact h.label_chars c hc
    · exact (by simp : ∀ c ∈ ":sum".toList, c ≠ '(' ∧ c ≠ ')') c hc
  have hcall := level_call hname (level_codeRow h.flag_chars)
  simpa [Count.sum, codeRow] using hcall

theorem level_derivationRow
    (h : Spelled segment.count segment.head segment.paren segment.inside segment.close) :
    Level segment.derivationRow := by
  have hname : ∀ c ∈ segment.count.flag ++ ":if".toList, c ≠ '(' ∧ c ≠ ')' := by
    intro c hc
    rcases List.mem_append.mp hc with hc | hc
    · exact h.flag_chars c hc
    · exact (by simp : ∀ c ∈ ":if".toList, c ≠ '(' ∧ c ≠ ')') c hc
  have hvalues : Level (codeRow ", 1, 0".toList) := level_codeRow (by simp)
  have hcall := level_call hname ((level_trimCells h.level).append hvalues)
  simpa [Segment.derivationRow, codeRow] using hcall

theorem level_derivationsRow {part : Section} (h : ∀ segment ∈ part.segments,
      Spelled segment.count segment.head segment.paren segment.inside segment.close) :
    Level part.derivationsRow := by
  obtain ⟨segments, tail, gap⟩ := part
  rw [Section.derivationsRow]
  dsimp only at h ⊢
  induction segments with
  | nil => exact Level.nil
  | cons segment segments ih =>
      have hrest := ih fun other hother => h other (by simp [hother])
      have hfirst := level_derivationRow (h segment (by simp))
      cases segments with
      | nil => simpa [List.intercalate] using hfirst
      | cons other segments =>
          have hcomma : Level (codeRow ", ".toList) := level_codeRow (by simp)
          have hall := hfirst.append (hcomma.append hrest)
          simpa only [List.map_cons, List.intercalate, List.intersperse_cons_cons,
            List.flatten_cons] using hall

theorem level_carriedRow {parts : List Section} (h : Spells parts) : Level (carriedRow parts) := by
  cases parts with
  | nil => exact Level.nil
  | cons part parts =>
      rw [carriedRow]
      split
      · exact Level.nil
      · exact (level_codeRow (by simp)).append (level_derivationsRow (h part (by simp)))

theorem level_flags {part : Section} (h : ∀ segment ∈ part.segments,
      Spelled segment.count segment.head segment.paren segment.inside segment.close) :
    Level part.flags.cells := by
  have hverb : Level (codeRow "make_col ".toList) := level_codeRow (by simp)
  have hgap : Level gapRow := level_of_forall (by simp [gapRow])
  exact (hverb.append (level_derivationsRow h)).append hgap

theorem Spelled.not_void (h : Spelled count head paren inside close) (row : List Cell) :
    ¬ Void (head ++ row) := by
  obtain ⟨c, name, hlabel, hsolid⟩ := h.solid
  obtain ⟨gap, blanks, spaces, -, -, -, hhead⟩ := h.name
  rw [hlabel] at hhead
  obtain ⟨cell, rest, rfl, rfl, -⟩ := row_of_text_cons hhead
  have hclose := (h.label_chars cell.char (by simp [hlabel])).2
  simp [Void, Cell.isCode, hclose, hsolid.2.1]

end Parts

/-! ## Mended stages -/

section Mended

variable {segments : List Segment} {old new : List Cell}

theorem closes_segments (h : ∀ segment ∈ segments,
      Spelled segment.count segment.head segment.paren segment.inside segment.close)
    (hclose : Closes old new) :
    Closes (segments.flatMap Segment.cells ++ old) (segments.flatMap Segment.sumRow ++ new) := by
  induction segments with
  | nil => exact hclose
  | cons segment segments ih =>
      have hsegment := h segment (by simp)
      have hrest := ih fun other hother => h other (by simp [hother])
      have hcall := (hrest.level hsegment.row_level (level_sum hsegment)).append segment.kept
      simpa [Segment.cells, Segment.sumRow, Segment.call] using hcall

theorem closes_mendedFrom {made : Bool} {gap : List Cell} {parts : List Section} (h : Spells parts) :
    Closes (gap ++ (parts.map Section.stage).flatMap Stage.cells) (mendedFrom made gap parts) := by
  induction parts generalizing made gap with
  | nil =>
      have hnew : mendedFrom made gap [] = gap := by cases made <;> simp [mendedFrom, mended, carriedRow]
      rw [hnew]
      simp [Closes]
  | cons part parts ih =>
      have hspelled := h part (by simp)
      have hrest : Spells parts := fun other hother => h other (by simp [hother])
      have hcarried : Level (if made then carriedRow (part :: parts) else []) := by
        split
        · exact level_carriedRow h
        · exact Level.nil
      have hflags : Level (if part.segments.isEmpty || made then [] else part.flags.cells) := by
        split
        · exact Level.nil
        · exact level_flags hspelled
      have hbehind : Closes (part.gap ++ (parts.map Section.stage).flatMap Stage.cells)
          (mendedFrom part.makes part.gap parts) := ih hrest
      have hbody := closes_segments hspelled (hbehind.append part.tail)
      have hall := ((hbody.level Level.nil hflags).append gap).level Level.nil hcarried
      rw [mendedFrom_cons]
      simpa [Section.stage, Section.body, Section.summedRow, Stage.cells] using hall

end Mended

/-! ## Heads of counts -/

section Heads

variable {count : Count} {head inside : List Cell} {paren close : Cell}

theorem Spelled.left_not_mem (h : Spelled count head paren inside close) : '(' ∉ text head := by
  intro hmem
  obtain ⟨cell, hcell, hchar⟩ := List.mem_map.mp hmem
  exact (h.head_chars cell hcell).1 hchar

theorem Spelled.not_sum (h : Spelled count head paren inside close) (label front : List Char) :
    label ++ ":sum".toList ≠ front ++ text head := by
  intro heq
  obtain ⟨gap, blanks, spaces, -, -, hspaces, hhead⟩ := h.name
  have hlast : (text head).getLast? = some 'm' := by
    have hne : text head ≠ [] := by simp [hhead]
    rw [← List.getLast?_append_of_ne_nil front hne, ← heq,
      List.getLast?_append_of_ne_nil label (by simp)]
    rfl
  rcases spaces.eq_nil_or_concat' with rfl | ⟨spaces, c, rfl⟩
  · rw [hhead, List.append_nil, List.getLast?_append_of_ne_nil _ (by simp)] at hlast
    simp at hlast
  · rw [hhead, List.getLast?_append_of_ne_nil _ (by simp), List.getLast?_concat] at hlast
    have hblank := hspaces c (by simp)
    rw [Option.some.inj hlast] at hblank
    revert hblank
    decide

theorem Spelled.not_inside (h : Spelled count head paren inside close)
    {other : Count} (hflag : ∀ c ∈ other.flag, c ≠ '(' ∧ c ≠ ')') {front back more rest : List Cell}
    (hsum : codeRow other.sum = front ++ back) (hback : back ≠ [])
    (hhead : back ++ more = head ++ paren :: rest) : False := by
  -- The sum ends with a parenthesis, so the head lies in front of that.
  have hlast : ⟨')', .code⟩ ∈ back := by
    have hend : (front ++ back).getLast? = some ⟨')', .code⟩ := by
      rw [← hsum, Count.sum, codeRow, List.map_append]
      exact List.getLast?_concat
    rw [List.getLast?_append_of_ne_nil _ hback] at hend
    exact List.mem_of_getLast? hend
  have hnone : ⟨')', .code⟩ ∉ head := fun hmem => (h.head_chars _ hmem).2.1 rfl
  rcases List.append_eq_append_iff.mp hhead with ⟨mid, rfl, -⟩ | ⟨mid, rfl, hmid⟩
  · exact hnone (List.mem_append_left _ hlast)
  · cases mid with
    | nil => exact hnone (by simpa using hlast)
    | cons cell mid =>
        obtain ⟨rfl, -⟩ := List.cons.inj hmid
        have hparen : paren.char = '(' := (by simpa [Cell.isCode] using h.paren : _ ∧ _).1
        have htext : (other.label ++ ":sum".toList) ++ '(' :: (other.flag ++ [')']) =
            (text front ++ text head) ++ '(' :: text mid := by
          have := congrArg text hsum
          simpa [Count.sum, hparen] using this
        have hnotFlag : '(' ∉ other.flag ++ [')'] := by
          simpa using fun hmem => (hflag _ hmem).1 rfl
        have hnotName : '(' ∉ other.label ++ ":sum".toList := by
          simpa using fun hmem => (hflag _ (List.mem_append_left _ hmem)).1 rfl
        exact h.not_sum _ _ ((List.append_cons_inj_of_notMem hnotName hnotFlag).mp htext).1

theorem Spelled.not_into (h : Spelled count head paren inside close)
    {other : Count} (hflag : ∀ c ∈ other.flag, c ≠ '(' ∧ c ≠ ')') {front back more rest : List Cell}
    (hhead : head = front ++ back) (hsum : codeRow other.sum ++ more = back ++ paren :: rest) :
    False := by
  have hparen : paren.char = '(' := (by simpa [Cell.isCode] using h.paren : _ ∧ _).1
  have htext : (other.label ++ ":sum".toList) ++ '(' :: (other.flag ++ ')' :: text more) =
      text back ++ '(' :: text rest := by
    have := congrArg text hsum
    simpa [Count.sum, hparen] using this
  have hnotName : '(' ∉ other.label ++ ":sum".toList := by
    simpa using fun hmem => (hflag _ (List.mem_append_left _ hmem)).1 rfl
  have hnotBack : '(' ∉ text back := fun hmem => h.left_not_mem (by simp [hhead, hmem])
  have hfirst {row more : List Char} (hrow : '(' ∉ row) :
      (row ++ '(' :: more).takeWhile (· != '(') = row := by
    rw [List.takeWhile_append_of_pos fun c hc => by simpa using ne_of_mem_of_not_mem hc hrow]
    simp
  have hback : text back = other.label ++ ":sum".toList := by
    rw [← hfirst hnotBack, ← htext, hfirst hnotName]
  exact h.not_sum (text front ++ other.label) [] (by simp [hhead, hback])

theorem Spelled.before_fence (h : Spelled count head paren inside close)
    {row behind rest : List Cell} (hfence : AlignMetric.Fence (text behind))
    (hrow : row ++ behind = head ++ paren :: rest) :
    ∃ mid, row = head ++ paren :: mid ∧ rest = mid ++ behind := by
  have hparen : isBlank paren.char = false ∧ paren.char ≠ '|' := by
    rw [(by simpa [Cell.isCode] using h.paren : paren.char = '(' ∧ _).1]
    decide
  have hnone (part : List Cell) (hpart : ∀ cell ∈ part, cell.char ≠ '|') :
      ¬ AlignMetric.Fence (text (part ++ paren :: rest)) := AlignMetric.not_fence hpart hparen
  rcases List.append_eq_append_iff.mp hrow with ⟨mid, rfl, hmid⟩ | ⟨mid, rfl, hmid⟩
  · refine absurd (hmid ▸ hfence) (hnone mid fun cell hcell => ?_)
    exact (h.head_chars cell (by simp [hcell])).2.2.2
  · cases mid with
    | nil => exact absurd (hmid ▸ hfence) (hnone [] (by simp))
    | cons cell mid =>
        obtain ⟨rfl, rfl⟩ := List.cons.inj hmid
        exact ⟨mid, rfl, rfl⟩

end Heads

/-! ## Verbs of mended stages -/

section Verbs

theorem not_aggregates {stage : Stage} (h : stage.verb? = some "make_col") : ¬ Aggregates stage := by
  rintro ⟨verb, hverb, hcontains⟩
  rw [h] at hverb
  rw [← Option.some.inj hverb] at hcontains
  revert hcontains
  decide

theorem verb?_append {row more gap : List Cell} {verb : String}
    (h : Stage.verb? ⟨row, gap⟩ = some verb)
    (hmore : ∀ c ∈ (text more).head?, isNameChar c = false) :
    Stage.verb? ⟨row ++ more, gap⟩ = some verb := by
  obtain ⟨name, hname, rfl⟩ := Option.map_eq_some_iff.mp h
  have hne : trimStart (text row) ≠ [] := by
    intro hnil
    simp [leadingName?, Stage.text, hnil] at hname
  have htrim : trimStart (text row ++ text more) = trimStart (text row) ++ text more := by
    rw [trimStart, List.dropWhile_append, if_neg (by simpa [trimStart] using hne)]
    rfl
  rw [Stage.verb?, Stage.text, text_append, leadingName?, htrim, (AlignMetric.name_append hmore _).1]
  exact h

theorem verb?_flags (part : Section) : part.flags.verb? = some "make_col" := rfl

theorem verb?_makes {part : Section} {parts : List Section} (hmakes : part.makes = true)
    (hpart : part.segments ≠ [] → Aggregates part.stage) :
    Stage.verb? ⟨part.summedRow ++ if part.makes then carriedRow parts else [], part.gap⟩ =
      some "make_col" := by
  have hverb : part.stage.verb? = some "make_col" := by
    simpa [Section.makes, Stage.hasVerb] using hmakes
  have hnil : part.segments = [] := by
    by_contra hne
    exact not_aggregates hverb (hpart hne)
  have hrow : part.summedRow = part.body := by simp [Section.summedRow, Section.body, hnil]
  rw [hmakes, if_pos rfl, hrow]
  refine verb?_append hverb fun c hc => ?_
  obtain ⟨cell, hcell, rfl⟩ : ∃ cell ∈ (carriedRow parts).head?, cell.char = c := by
    simpa [text] using hc
  rw [char_carriedRow parts cell hcell]
  decide

theorem exists_part {made : Bool} {parts : List Section} {pre post : List Stage} {stage : Stage}
    (hparts : ∀ part ∈ parts, part.segments ≠ [] → Aggregates part.stage)
    (h : mended made parts = pre ++ stage :: post) (hverb : Aggregates stage) :
    ∃ before part after, parts = before ++ part :: after ∧ stage = ⟨part.summedRow, part.gap⟩ ∧
      post = mended false after ∧ Aggregates part.stage := by
  induction parts generalizing made pre with
  | nil => simp [mended] at h
  | cons part parts ih =>
      have hfrom {pre : List Stage}
          (hpre : ⟨part.summedRow ++ if part.makes then carriedRow parts else [], part.gap⟩ ::
            mended part.makes parts = pre ++ stage :: post) :
          ∃ before other after, part :: parts = before ++ other :: after ∧
            stage = ⟨other.summedRow, other.gap⟩ ∧ post = mended false after ∧
              Aggregates other.stage := by
        cases pre with
        | cons first pre =>
            obtain ⟨-, hrest⟩ := List.cons.inj hpre
            obtain ⟨before, other, after, rfl, hother⟩ :=
              ih (fun x hx => hparts x (by simp [hx])) hrest
            exact ⟨part :: before, other, after, rfl, hother⟩
        | nil =>
            obtain ⟨rfl, rfl⟩ := List.cons.inj hpre
            have hmakes : part.makes = false := by
              by_contra hmakes
              exact not_aggregates (verb?_makes (by simpa using hmakes) (hparts part (by simp))) hverb
            rw [hmakes] at hverb ⊢
            refine ⟨[], part, parts, rfl, by simp, rfl, ?_⟩
            by_cases hnil : part.segments = []
            · simpa [Section.summedRow, Section.stage, Section.body, hnil] using hverb
            · exact hparts part (by simp) hnil
      rw [mended] at h
      split at h
      · exact hfrom h
      · cases pre with
        | nil =>
            obtain ⟨rfl, -⟩ := List.cons.inj h
            exact absurd hverb (not_aggregates (verb?_flags part))
        | cons first pre => exact hfrom (List.cons.inj h).2

end Verbs

/-! ## Heads among sums -/

section Earlier

variable {segment : Segment} {segments : List Segment} {start : Nat}
  {tail old new front row rest head inside : List Cell} {paren close : Cell} {count : Count}

theorem getLast?_cells
    (h : Spelled segment.count segment.head segment.paren segment.inside segment.close) :
    (text segment.cells).getLast? = some ')' := by
  have hcells : segment.cells =
      (segment.kept ++ (segment.head ++ segment.paren :: segment.inside)) ++ [segment.close] := by
    simp [Segment.cells, Segment.call]
  have hclose : segment.close.char = ')' := (by simpa [Cell.isCode] using h.close : _ ∧ _).1
  rw [hcells, text_append, text_cons, hclose]
  exact List.getLast?_concat

theorem getLast?_sumRow (segment : Segment) : (text segment.sumRow).getLast? = some ')' := by
  rw [Segment.sumRow, text_append, text_codeRow, Count.sum, ← List.append_assoc]
  exact List.getLast?_concat

/-- A head that `front` precedes among the sums stood among the counts, and started none of them. -/
def Earlier (start : Nat) (segments : List Segment) (behind old front head : List Cell) (paren : Cell)
    (rest : List Cell) : Prop :=
  ∃ front' rest', segments.flatMap Segment.cells ++ (behind ++ old) = front' ++ (head ++ paren :: rest') ∧
    (text front').getLast? = (text front).getLast? ∧
    front'.length < (segments.flatMap Segment.cells ++ behind).length ∧
    (∀ segment ∈ segments, segment.count.span.start ≠ start + front'.length) ∧
    Closes rest' rest ∧ (Void rest' → Void rest)

theorem Earlier.behind
    (hsegment : Spelled segment.count segment.head segment.paren segment.inside segment.close)
    (hspan : segment.count.span = ⟨start + segment.kept.length, start + segment.cells.length⟩)
    (h : Earlier (start + segment.cells.length) segments tail old front head paren rest) :
    Earlier start (segment :: segments) tail old (segment.sumRow ++ front) head paren rest := by
  obtain ⟨front', rest', hold, hlast, hlength, hother, hclose⟩ := h
  refine ⟨segment.cells ++ front', rest', ?_, ?_, ?_, fun other hmem => ?_, hclose⟩
  · rw [List.flatMap_cons, List.append_assoc, hold, List.append_assoc]
  · rw [text_append, text_append, List.getLast?_append, List.getLast?_append, hlast,
      getLast?_cells hsegment, getLast?_sumRow]
  · simpa using hlength
  · rw [List.length_append]
    rcases List.mem_cons.mp hmem with rfl | hmem
    · have hstart : other.kept.length < other.cells.length := by simp [Segment.cells, Segment.call]
      rw [hspan]
      dsimp only
      omega
    · have := hother other hmem
      omega

theorem Earlier.before (hplaced : Segment.Placed start (segment :: segments))
    (hcloses : Closes old new) {back : List Cell} (hkept : segment.kept = front ++ (head ++ paren :: back)) :
    Earlier start (segment :: segments) tail old front head paren
      (back ++ (codeRow segment.count.sum ++ (segments.flatMap Segment.sumRow ++ (tail ++ new)))) := by
  obtain ⟨hsegment, hspan, hbehind⟩ := hplaced
  have hrest := (closes_segments hbehind.spelled (hcloses.append tail)).level
    hsegment.row_level (level_sum hsegment)
  refine ⟨front, back ++ (segment.call ++ (segments.flatMap Segment.cells ++ (tail ++ old))),
    ?_, rfl, ?_, fun other hmem => ?_, ?_, fun hempty => ?_⟩
  · simp [Segment.cells, hkept]
  · simp [Segment.cells, hkept]
  · have hlt : front.length < segment.kept.length := by simp [hkept]
    have hcells : segment.kept.length ≤ segment.cells.length := by simp [Segment.cells]
    rcases List.mem_cons.mp hmem with rfl | hmem
    · rw [hspan]
      dsimp only
      omega
    · have := (hbehind.within other hmem).1
      omega
  · exact hrest.append back
  · refine hempty.of_append fun hcall => absurd hcall ?_
    simpa [Segment.call] using hsegment.not_void _

theorem exists_earlier (h : Spelled count head paren inside close)
    (hplaced : Segment.Placed start segments)
    (hrow : segments.flatMap Segment.sumRow ++ tail = front ++ row)
    (hhead : row ++ new = head ++ paren :: rest) (hfence : AlignMetric.Fence (text new))
    (hcloses : Closes old new) (hvoid : Void old → Void new) :
    Earlier start segments tail old front head paren rest := by
  induction segments generalizing start front with
  | nil =>
      obtain ⟨mid, rfl, rfl⟩ := h.before_fence hfence hhead
      rw [List.flatMap_nil, List.nil_append] at hrow
      exact ⟨front, mid ++ old, by simp [hrow], rfl, by simp [hrow], by simp, hcloses.append mid,
        fun hmid => hmid.of_append hvoid⟩
  | cons segment segments ih =>
      have hflag := hplaced.1.flag_chars
      have hafter {more : List Cell} (hmore : segments.flatMap Segment.sumRow ++ tail = more ++ row) :
          Earlier start (segment :: segments) tail old
            (segment.kept ++ (codeRow segment.count.sum ++ more)) head paren rest := by
        rw [← List.append_assoc]
        exact (ih hplaced.2.2 hmore).behind hplaced.1 hplaced.2.1
      rw [List.flatMap_cons, Segment.sumRow, List.append_assoc, List.append_assoc] at hrow
      rcases List.append_eq_append_iff.mp hrow with ⟨mid, rfl, hmid⟩ | ⟨mid, hkept, rfl⟩
      · rcases List.append_eq_append_iff.mp hmid with ⟨more, rfl, hmore⟩ | ⟨back, hsum, rfl⟩
        · exact hafter hmore
        · by_cases hnil : back = []
          · subst hnil
            rw [List.append_nil] at hsum
            rw [← hsum, ← List.append_nil (codeRow _)]
            exact hafter rfl
          · rw [List.append_assoc] at hhead
            exact (h.not_inside hflag hsum hnil hhead).elim
      · rw [List.append_assoc, List.append_assoc] at hhead
        rcases List.append_eq_append_iff.mp hhead with ⟨back, hback, hsum⟩ | ⟨back, rfl, hsum⟩
        · exact (h.not_into hflag hback hsum).elim
        · cases back with
          | nil => exact (h.not_into hflag (List.append_nil head).symm hsum.symm).elim
          | cons cell back =>
              obtain ⟨rfl, rfl⟩ := List.cons.inj hsum
              rw [List.append_assoc]
              exact Earlier.before hplaced hcloses hkept

end Earlier

/-! ## The second run -/

theorem Void.not_fence {row : List Cell} (h : Void row) : ¬ AlignMetric.Fence (text row) := by
  induction row with
  | nil => exact h.elim
  | cons cell row ih =>
      rcases h with hright | ⟨hblank, hrest⟩
      · have hchar : cell.char = ')' := (by simpa [Cell.isCode] using hright : _ ∧ _).1
        have hcell : isBlank cell.char = false ∧ cell.char ≠ '|' := by
          rw [hchar]
          decide
        have hnone : ¬ AlignMetric.Fence (text ([] ++ cell :: row)) :=
          AlignMetric.not_fence (by simp) hcell
        exact hnone
      · simpa [AlignMetric.Fence, trimStart, hblank] using ih hrest

theorem skipTo?_name {name blanks : List Char} {c : Char} (hname : ∀ d ∈ name, isNameChar d = true)
    (hblanks : ∀ b ∈ blanks, isBlank b = true) (hc : isNameChar c = false) (hblank : isBlank c = false)
    (rest : List Char) :
    (name ++ (blanks ++ c :: rest)).takeWhile isNameChar = name ∧
      skipTo? c ((name ++ (blanks ++ c :: rest)).dropWhile isNameChar) = some rest := by
  have hbehind : ∀ d ∈ (blanks ++ c :: rest).head?, isNameChar d = false := by
    cases blanks with
    | nil => simpa using hc
    | cons d blanks => simpa using isNameChar_of_isBlank (hblanks d (by simp))
  obtain ⟨htake, hdrop⟩ := AlignMetric.name_append hbehind name
  rw [htake, hdrop, List.takeWhile_eq_self_iff.mpr hname, List.dropWhile_eq_nil_iff.mpr hname,
    List.nil_append, skipTo?_blanks hblanks hblank, if_pos rfl]
  exact ⟨rfl, rfl⟩

theorem Spelled.countHead? {count : Count} {head inside : List Cell} {paren close : Cell}
    (h : Spelled count head paren inside close) (rest : List Cell) :
    countHead? (text (head ++ paren :: rest)) = some (count.label, text rest) := by
  obtain ⟨gap, blanks, spaces, hgap, hblanks, hspaces, hhead⟩ := h.name
  have hparen : paren.char = '(' := (by simpa [Cell.isCode] using h.paren : _ ∧ _).1
  have htext : text (head ++ paren :: rest) = count.label ++ (gap ++ ':' :: (blanks ++
      ("count_if".toList ++ (spaces ++ '(' :: text rest)))) := by
    rw [text_append, text_cons, hhead, hparen]
    simp
  obtain ⟨hlabel, hskip⟩ := skipTo?_name h.label hgap (by decide) (by decide)
    (blanks ++ ("count_if".toList ++ (spaces ++ '(' :: text rest))) (c := ':')
  obtain ⟨hname, hcall⟩ := skipTo?_name
    (by simp; decide : ∀ c ∈ "count_if".toList, isNameChar c = true) hspaces (by decide) (by decide)
    (text rest) (c := '(')
  have htrim : trimStart (blanks ++ ("count_if".toList ++ (spaces ++ '(' :: text rest))) =
      "count_if".toList ++ (spaces ++ '(' :: text rest) := by
    rw [trimStart, List.dropWhile_append_of_pos hblanks]
    rfl
  have hstart : (count.label ++ (gap ++ ':' :: (blanks ++ ("count_if".toList ++
      (spaces ++ '(' :: text rest))))).head?.any isNameStart = true := by
    obtain ⟨c, name, hcons, -⟩ := h.solid
    simpa [hcons] using h.start
  rw [htext, FlagCount.countHead?, hstart, hlabel, hskip]
  simp only [Option.bind_some, htrim, callHead?, hname, hcall]
  rfl
section Query

variable {query : List Char}

/-- The head of a count in a stage that aggregates makes a count, if its call is closed and has an
argument. -/
theorem exists_found {pre post : List Stage} {stage : Stage}
    (hstages : (layout query).stages = pre ++ stage :: post) (hverb : Aggregates stage)
    {count : Count} {head inside front rest : List Cell} {paren close : Cell}
    (hspelled : Spelled count head paren inside close)
    (hrow : stage.body ++ (stage.gap ++ post.flatMap Stage.cells) =
      front ++ (head ++ paren :: rest))
    (hlength : front.length < stage.body.length)
    (hprevious : joinsWord (text front).getLast? = false ∧
      ((text front).getLast?.any fun c => isNameChar c || c == '.') = false)
    (hclosing : (closingParen? 0 rest).isSome = true) (hvoid : ¬ Void rest) :
    ∃ other ∈ found query, other.stage = pre.length ∧
      other.span.start = ((layout query).lead ++ pre.flatMap Stage.cells).length + front.length := by
  have hstanding := standing_of_stages hstages
  have hcells : cells query =
      ((layout query).lead ++ pre.flatMap Stage.cells ++ front) ++ (head ++ paren :: rest) := by
    rw [hstanding.row_eq, List.append_assoc, hrow, ← List.append_assoc]
  obtain ⟨n, hn⟩ := Option.isSome_iff_exists.mp hclosing
  have hcondition : (trim (text (rest.take n))).isEmpty = false := by
    rw [Bool.eq_false_iff, ne_eq, isEmpty_iff_void hn]
    exact hvoid
  have hliteral : (head ++ paren :: rest).head?.any Cell.isLiteral = false := by
    cases head with
    | nil => simpa using (by simpa [Cell.isCode] using hspelled.paren : _ ∧ _).2
    | cons cell head => simpa using hspelled.first
  have hbefore : joinsWord (text ((layout query).lead ++ pre.flatMap Stage.cells ++ front)).getLast? =
        false ∧ ((text ((layout query).lead ++ pre.flatMap Stage.cells ++ front)).getLast?.any
          fun c => isNameChar c || c == '.') = false := by
    rw [text_append, List.getLast?_append]
    cases hlast : (text front).getLast? with
    | none => exact (AlignMetric.free_of_standing hstanding).any_eq_false
    | some c => rwa [hlast] at hprevious
  have hlength' : ((layout query).lead ++ pre.flatMap Stage.cells ++ front).length =
      ((layout query).lead ++ pre.flatMap Stage.cells).length + front.length := List.length_append
  have haggregation := aggregation?_of_stage hstages (Nat.le_add_right _ front.length)
    (Nat.add_lt_add_left hlength _) hverb
  generalize (layout query).lead ++ pre.flatMap Stage.cells ++ front = whole at *
  rw [← hlength'] at haggregation ⊢
  have hsite : (Site.inLiteral ⟨whole.length, (text whole).getLast?, head ++ paren :: rest⟩ ||
      !Site.startsWord ⟨whole.length, (text whole).getLast?, head ++ paren :: rest⟩ ||
      Site.continuesPath ⟨whole.length, (text whole).getLast?, head ++ paren :: rest⟩) = false := by
    rw [Site.inLiteral, Site.startsWord, Site.continuesPath, hliteral, hbefore.1, hbefore.2]
    rfl
  have hcount : countAt? (layout query) ⟨whole.length, (text whole).getLast?, head ++ paren :: rest⟩ =
    _ := countAt?_of_head hsite (hspelled.countHead? rest) rfl rfl
  rw [haggregation, hn] at hcount
  simp only [Option.bind_some, hcondition] at hcount
  exact ⟨_, (mem_counts _).mpr ⟨whole, _, hcells, by simp, hcount⟩, rfl, rfl⟩

theorem found_splice {parts : List Section}
    (hstages : (layout query).stages = parts.map Section.stage)
    (hcut : Cut (found query) 0 (layout query).lead.length parts) :
    found (Edit.splice query (edits (layout query) (found query))) = [] := by
  have hlayout := layout_splice hstages hcut
  refine List.eq_nil_iff_forall_not_mem.mpr fun count hcount => ?_
  obtain ⟨front, rest, hrow, -, hfound⟩ := (mem_counts _).mp hcount
  obtain ⟨hword, hpath⟩ : joinsWord (text front).getLast? = false ∧
      ((text front).getLast?.any fun c => isNameChar c || c == '.') = false := by
    have hsite := site_of_countAt? hfound
    rw [Bool.or_eq_false_iff, Bool.or_eq_false_iff, Site.startsWord, Bool.not_not] at hsite
    exact ⟨hsite.1.2, hsite.2⟩
  obtain ⟨head, paren, inside, close, back, rfl, hspelled, -, haggregation, -⟩ :=
    countAt?_eq_some hrow hfound
  obtain ⟨pre, stage, post, hnew, hpre⟩ := exists_stage haggregation
  rw [← hpre] at haggregation
  obtain ⟨hstart, hstop, hverb⟩ := aggregation?_eq_some hnew haggregation
  obtain ⟨before, part, after, rfl, rfl, rfl, hpart⟩ :=
    exists_part hcut.aggregates ((congrArg Layout.stages hlayout).symm.trans hnew) hverb
  obtain ⟨hcounts, hplaced⟩ := hcut.split
  have hstanding := standing_of_stages hnew
  obtain ⟨kept, inner, rfl, hbody, hinner⟩ := hstanding.exists_kept hrow hstart hstop
  have hspells : Spells after := fun other hother => hcut.spells other (by simp [hother])
  have hold : (layout query).stages =
      before.map Section.stage ++ part.stage :: after.map Section.stage := by
    rw [hstages, List.map_append, List.map_cons]
  have hfence := AlignMetric.fence_of_standing (standing_of_stages hold)
  have hcloses : Closes (part.gap ++ (after.map Section.stage).flatMap Stage.cells)
      (part.gap ++ (mended false after).flatMap Stage.cells) := by
    have hbehind : Closes _ (mendedFrom false part.gap after) := closes_mendedFrom hspells
    simpa [mendedFrom] using hbehind
  obtain ⟨front', rest', hrow', hlast, hlength, hother, hclose, hvoid⟩ :=
    exists_earlier hspelled hplaced hbody hinner.symm (AlignMetric.fence_of_standing hstanding) hcloses
      fun hnone => absurd hfence hnone.not_fence
  have hprevious : joinsWord (text front').getLast? = false ∧
      ((text front').getLast?.any fun c => isNameChar c || c == '.') = false := by
    rw [hlast]
    rw [text_append, List.getLast?_append] at hword hpath
    cases hkept : (text kept).getLast? with
    | none => exact ⟨rfl, rfl⟩
    | some c =>
        rw [hkept] at hword hpath
        exact ⟨hword, hpath⟩
  have hclosing := hspelled.level.closing hspelled.close back
  have hempty : ¬ Void (inside ++ close :: back) := by
    rw [← isEmpty_iff_void hclosing, List.take_left, ← hspelled.condition]
    simpa using hspelled.nonempty
  obtain ⟨other, hmem, hstage, hspan⟩ := exists_found hold hpart hspelled
    (by simpa [Section.stage, Section.body] using hrow') hlength hprevious
    (hclose 0 (by rw [hclosing]; rfl)) fun hnone => hempty (hvoid hnone)
  have hown : other ∈ part.segments.map Segment.count := by
    rw [hcounts]
    exact List.mem_filter.mpr ⟨hmem, by simpa using hstage⟩
  obtain ⟨segment, hsegment, rfl⟩ := List.mem_map.mp hown
  exact hother segment hsegment (by simpa using hspan)

end Query

theorem fired_iff (context : Context) (query : String) :
    (flagCount.apply context query).fired = true ↔ found query.toList ≠ [] := by
  change (Outcome.ofChanges _ _ ((found query.toList).map (change query.toList)) _).fired = true ↔ _
  cases found query.toList <;> simp [Outcome.ofChanges, Outcome.fired]

end FlagCount

/-- If every conditional count is closed in its stage and none stands inside another, the sums of the
flags take the place of the counts, the flags are derived in the `make_col` stage in front or in a
new one, and no other stage changes.  Then there is no count left. -/
theorem flagCount_derives_flags (context : Context) (query : String)
    (hclosed : ∀ count ∈ FlagCount.found query.toList,
      ∀ span ∈ ((layout query.toList).spans List.length)[count.stage]?,
        count.span.stop ≤ span.stop)
    (hapart : ∀ inner ∈ FlagCount.found query.toList, ∀ outer ∈ FlagCount.found query.toList,
      ¬ inner.Within outer) :
    ∃ parts, (layout query.toList).stages = parts.map FlagCount.Section.stage ∧
      FlagCount.Cut (FlagCount.found query.toList) 0 (layout query.toList).lead.length parts ∧
      split (flagCount.apply context query).query.toList = FlagCount.operated false parts ∧
      (flagCount.apply context (flagCount.apply context query).query).fired = false := by
  obtain ⟨parts, hstages, hcut⟩ := FlagCount.exists_cut hclosed hapart
  have houtput : (flagCount.apply context query).query.toList =
      Edit.splice query.toList
        (FlagCount.edits (layout query.toList) (FlagCount.found query.toList)) :=
    String.toList_ofList
  refine ⟨parts, hstages, hcut, ?_, ?_⟩
  · rw [houtput, split, FlagCount.layout_splice hstages hcut]
    exact FlagCount.text_mended hcut.spells
  · rw [Bool.eq_false_iff, ne_eq, FlagCount.fired_iff, houtput, not_not]
    exact FlagCount.found_splice hstages hcut

/-- One flag joins the columns made in front, two get a stage of their own; the call in the literal
stays. -/
theorem flagCount_derives_flags_twice :
    let query := "make_col z:1 | statsby n:count(), a:count_if( x > 1 ) | limit 5 | " ++
      "timechart b:count_if(f(y) = \"c:count_if(d)\"), e:count_if(g)"
    (flagCount.apply {} query).fired = true ∧
      (flagCount.apply {} query).query = "make_col z:1, a_flag:if(x > 1, 1, 0) | " ++
        "statsby n:count(), a:sum(a_flag) | limit 5 | " ++
        "make_col b_flag:if(f(y) = \"c:count_if(d)\", 1, 0), e_flag:if(g, 1, 0) | " ++
        "timechart b:sum(b_flag), e:sum(e_flag)" ∧
      ∃ parts, (layout query.toList).stages = parts.map FlagCount.Section.stage ∧
        FlagCount.Cut (FlagCount.found query.toList) 0 (layout query.toList).lead.length parts ∧
        split (flagCount.apply {} query).query.toList = FlagCount.operated false parts ∧
        (flagCount.apply {} (flagCount.apply {} query).query).fired = false := by
  intro query
  exact ⟨by decide +kernel, by decide +kernel,
    flagCount_derives_flags {} query (by decide +kernel) (by decide +kernel)⟩

end OpalRepair
