import Mathlib
import OpalRepair.Proofs.Account
import OpalRepair.Proofs.Counting.Operate

/-!
# Reading the sums

The mended stages are read as the cells that they are made of: conditions keep the roles they had in
their counts, and what stages keep is read as before.
-/

namespace OpalRepair.FlagCount

open Query Text Vocabulary

/-! ## New parts -/

section Parts

variable {count : Count} {head inside : List Cell} {paren close : Cell}

theorem Spelled.solid (h : Spelled count head paren inside close) :
    ∃ c name, count.label = c :: name ∧ Solid c := by
  obtain ⟨c, name, hlabel⟩ := List.exists_cons_of_ne_nil h.label_ne_nil
  exact ⟨c, name, hlabel, solid_of_isNameChar (h.label c (by simp [hlabel]))⟩

theorem Spelled.plain (h : Spelled count head paren inside close) :
    ∀ c ∈ count.label, Plain c ∧ c ≠ '|' := plain_of_name h.label

theorem settles_sum (h : Spelled count head paren inside close) :
    Scanner.Settles count.sum (codeRow count.sum) (some ')') := by
  obtain ⟨c, name, hlabel, hc⟩ := h.solid
  have hplain := h.plain
  have hsum : count.sum = c :: ((name ++ ":sum(".toList ++ count.label ++ "_flag".toList) ++ [')']) := by
    simp [Count.sum, Count.flag, hlabel]
  rw [hsum]
  refine Scanner.settles_concat hc (fun e he => ?_) (by decide)
  simp only [List.mem_append] at he
  rcases he with (((he | he) | he) | he) | he
  · exact hplain e (by simp [hlabel, he])
  · exact (by simp; decide : ∀ e ∈ ":sum(".toList, Plain e ∧ e ≠ '|') e he
  · exact hplain e he
  · exact (by simp; decide : ∀ e ∈ "_flag".toList, Plain e ∧ e ≠ '|') e he
  · rw [List.mem_singleton.mp he]
    decide

theorem settles_flag (h : Spelled count head paren inside close) :
    Scanner.Settles (count.flag ++ ":if(".toList) (codeRow (count.flag ++ ":if(".toList))
      (some '(') := by
  obtain ⟨c, name, hlabel, hc⟩ := h.solid
  have hplain := h.plain
  have hflag : count.flag ++ ":if(".toList = c :: ((name ++ "_flag:if".toList) ++ ['(']) := by
    simp [Count.flag, hlabel]
  rw [hflag]
  refine Scanner.settles_concat hc (fun e he => ?_) (by decide)
  simp only [List.mem_append] at he
  rcases he with (he | he) | he
  · exact hplain e (by simp [hlabel, he])
  · exact (by simp; decide : ∀ e ∈ "_flag:if".toList, Plain e ∧ e ≠ '|') e he
  · rw [List.mem_singleton.mp he]
    decide

theorem settles_values :
    Scanner.Settles ", 1, 0)".toList (codeRow ", 1, 0)".toList) (some ')') := by
  have hplain : ∀ e ∈ " 1, 0".toList ++ [')'], Plain e ∧ e ≠ '|' := by simp; decide
  exact Scanner.settles_concat (show Solid ',' by decide) hplain (by decide)

end Parts

/-! ## Conditions -/

section Calls

variable {s : Scanner} {front back : List Cell} {segment : Segment}

theorem paints_behind_call
    (h : Spelled segment.count segment.head segment.paren segment.inside segment.close)
    (hpaints : s.Paints (front ++ (segment.call ++ back))) :
    (Scanner.atCode (some ')')).Paints back ∧
      s.reach (text back) (text (front ++ segment.call)) = Scanner.atCode (some ')') := by
  obtain ⟨hchar, hliteral⟩ : segment.close.char = ')' ∧ segment.close.isLiteral = false := by
    simpa [Cell.isCode] using h.close
  have hrow : front ++ (segment.call ++ back) =
      (front ++ segment.head ++ segment.paren :: segment.inside) ++ segment.close :: back := by
    simp [Segment.call]
  have hfront : front ++ segment.call =
      (front ++ segment.head ++ segment.paren :: segment.inside) ++ [segment.close] := by
    simp [Segment.call]
  rw [hrow] at hpaints
  have hsolid : Solid segment.close.char := by
    rw [hchar]
    decide
  rw [hfront, hpaints.behind_solid hliteral hsolid, ← hchar]
  exact ⟨(hpaints.after_first hliteral hsolid).2, rfl⟩

theorem exists_trimCells (row : List Cell) :
    ∃ blanks spaces, row = blanks ++ (trimCells row ++ spaces) ∧
      (∀ cell ∈ blanks, isBlank cell.char = true) ∧ ∀ cell ∈ spaces, isBlank cell.char = true := by
  obtain ⟨spaces, hspaces, htrim⟩ := exists_trailing (isBlank ·.char) (row.dropWhile (isBlank ·.char))
  refine ⟨row.takeWhile (isBlank ·.char), spaces, ?_, fun cell hcell => ?_, hspaces⟩
  · rw [trimCells, ← htrim, List.takeWhile_append_dropWhile]
  · exact List.mem_takeWhile_imp (p := fun cell : Cell => isBlank cell.char) hcell

theorem settles_derivation
    (h : Spelled segment.count segment.head segment.paren segment.inside segment.close)
    (hpaints : s.Paints (front ++ (segment.call ++ back))) :
    Scanner.Settles segment.count.derivation segment.derivationRow (some ')') := by
  obtain ⟨hparen, hparenLiteral⟩ : segment.paren.char = '(' ∧ segment.paren.isLiteral = false := by
    simpa [Cell.isCode] using h.paren
  obtain ⟨hclose, hcloseLiteral⟩ : segment.close.char = ')' ∧ segment.close.isLiteral = false := by
    simpa [Cell.isCode] using h.close
  obtain ⟨blanks, spaces, hinside, hblanks, hspaces⟩ := exists_trimCells segment.inside
  have hrow : front ++ (segment.call ++ back) = (front ++ segment.head) ++ segment.paren ::
      (blanks ++ (trimCells segment.inside ++ (spaces ++ segment.close :: back))) := by
    rw [Segment.call]
    conv_lhs => rw [hinside]
    simp
  rw [hrow] at hpaints
  have hbehind := (hpaints.after_first hparenLiteral (by rw [hparen]; decide)).2
  rw [hparen] at hbehind
  have hcore := (Scanner.paints_append.mp hbehind).2
  rw [Scanner.reach_blanks (by simpa [text] using hblanks)] at hcore
  have hmode := (Scanner.paints_append.mp hcore).2.mode_of_blanks
    (Scanner.FlagsAhead.reach fun more hmore => by simp [Scanner.atCode] at hmore) hspaces
    hcloseLiteral (by rw [hclose]; decide)
  -- Neither the old nor the new text goes on with a name.
  have hname (rest : List Char) :
      (text (spaces ++ segment.close :: back)).takeWhile isNameChar =
        (", 1, 0)".toList ++ rest).takeWhile isNameChar := by
    have hright : (", 1, 0)".toList ++ rest).takeWhile isNameChar = [] := by
      simp [isNameChar]
    rw [hright]
    cases spaces with
    | nil => simp [hclose, isNameChar]
    | cons cell spaces => simp [isNameChar_of_isBlank (hspaces cell (by simp))]
  have htext : segment.count.derivation = segment.count.flag ++ ":if(".toList ++
      (text (trimCells segment.inside) ++ ", 1, 0)".toList) := by
    rw [Count.derivation, h.condition, text_trimCells]
    simp
  intro t ht rest
  rw [htext, List.append_assoc, settles_flag h t ht, List.append_assoc,
    hcore.kept (Scanner.Alike.refl _) (hname rest), settles_values _ hmode, Segment.derivationRow]
  simp

end Calls

/-! ## Stages -/

def Read (segments : List Segment) : Prop :=
  ∀ segment ∈ segments,
    Spelled segment.count segment.head segment.paren segment.inside segment.close ∧
      ∃ s front back, Scanner.Paints s (front ++ (segment.call ++ back))

theorem settles_comma : Scanner.Settles ", ".toList (codeRow ", ".toList) (some ',') := by
  have hplain : ∀ d ∈ " ".toList, Plain d ∧ d ≠ '|' := by simp; decide
  exact Scanner.settles_code (show Solid ',' by decide) hplain

theorem settles_derivations {part : Section} (hne : part.segments ≠ []) (h : Read part.segments) :
    Scanner.Settles part.derivations part.derivationsRow (some ')') := by
  obtain ⟨segments, tail, gap⟩ := part
  rw [Section.derivations, Section.derivationsRow]
  dsimp only at hne h ⊢
  induction segments with
  | nil => exact absurd rfl hne
  | cons segment segments ih =>
      obtain ⟨hspelled, s, front, back, hpaints⟩ := h segment (by simp)
      have hfirst := settles_derivation hspelled hpaints
      cases segments with
      | nil => simpa [List.intercalate] using hfirst
      | cons other segments =>
          have hrest := ih (by simp) fun segment hsegment => h segment (by simp [hsegment])
          have hall := (hfirst.append settles_comma).append hrest
          simpa [List.intercalate] using hall

theorem settles_flags {part : Section} (hne : part.segments ≠ []) (h : Read part.segments) :
    Scanner.Settles ("make_col ".toList ++ part.derivations ++ " | ".toList) part.flags.cells
      (some '|') := by
  have hplain : ∀ d ∈ "ake_col ".toList, Plain d ∧ d ≠ '|' := by simp; decide
  have hverb : Scanner.Settles "make_col ".toList (codeRow "make_col ".toList) (some 'l') :=
    Scanner.settles_code (show Solid 'm' by decide) hplain
  exact (hverb.append (settles_derivations hne h)).consumes (Scanner.consumes_gapRow _)

theorem settles_carried {part : Section} (hne : part.segments ≠ []) (h : Read part.segments) :
    Scanner.Settles (", ".toList ++ part.derivations) (codeRow ", ".toList ++ part.derivationsRow)
      (some ')') :=
  settles_comma.append (settles_derivations hne h)

section Segments

variable {s t : Scanner} {tail behind : List Cell}

theorem takeWhile_sum {segment : Segment}
    (h : Spelled segment.count segment.head segment.paren segment.inside segment.close)
    (back : List Cell) (rest : List Char) :
    (text (segment.call ++ back)).takeWhile isNameChar =
      (segment.count.sum ++ rest).takeWhile isNameChar := by
  obtain ⟨gap, blanks, spaces, hgap, -, -, hhead⟩ := h.name
  have hrun (more : List Char) (hmore : ∀ c ∈ more.head?, isNameChar c = false) :
      (segment.count.label ++ more).takeWhile isNameChar = segment.count.label := by
    rw [List.takeWhile_append_of_pos h.label]
    cases more with
    | nil => simp
    | cons c more => simp [hmore c (by simp)]
  rw [Segment.call, List.append_assoc, text_append, hhead, Count.sum]
  simp only [List.append_assoc]
  rw [hrun, hrun]
  · intro c hc
    obtain rfl : ':' = c := by simpa using hc
    decide
  · intro c hc
    cases gap with
    | nil =>
        obtain rfl : ':' = c := by simpa using hc
        decide
    | cons d gap =>
        obtain rfl : d = c := by simpa using hc
        exact isNameChar_of_isBlank (hgap d (by simp))

theorem paint_segments {segments : List Segment}
    (hspelled : ∀ segment ∈ segments,
      Spelled segment.count segment.head segment.paren segment.inside segment.close)
    (hpaints : s.Paints (segments.flatMap Segment.cells ++ (tail ++ behind))) (halike : s.Alike t)
    {rest : List Char} (hrest : (text behind).takeWhile isNameChar = rest.takeWhile isNameChar) :
    t.paint (text (segments.flatMap Segment.sumRow ++ tail) ++ rest) =
      segments.flatMap Segment.sumRow ++ tail ++
        (s.reach (text behind) (text (segments.flatMap Segment.cells ++ tail))).paint rest := by
  induction segments generalizing s t with
  | nil =>
      have htail : s.Paints (tail ++ behind) := hpaints
      exact htail.kept halike hrest
  | cons segment segments ih =>
      have hfirst := hspelled segment (by simp)
      have hrow : (segment :: segments).flatMap Segment.cells ++ (tail ++ behind) = segment.kept ++
          (segment.call ++ (segments.flatMap Segment.cells ++ (tail ++ behind))) := by
        simp [Segment.cells]
      rw [hrow] at hpaints
      obtain ⟨hback, hreach⟩ := paints_behind_call hfirst hpaints
      have hkept := hpaints.kept halike (takeWhile_sum hfirst _
        (text (segments.flatMap Segment.sumRow ++ tail) ++ rest))
      have hmode : (s.reach (text (segment.call ++ (segments.flatMap Segment.cells ++
          (tail ++ behind)))) (text segment.kept)).mode = .code := by
        obtain ⟨cell, head, hhead⟩ : ∃ cell head, segment.head = cell :: head := by
          refine List.exists_cons_of_ne_nil fun hnil => ?_
          obtain ⟨gap, blanks, spaces, -, -, -, htext⟩ := hfirst.name
          simp [hnil] at htext
        have hcell := hfirst.first
        rw [hhead, List.head?_cons, Option.any_some] at hcell
        rw [Segment.call, hhead] at hpaints ⊢
        exact hpaints.mode hcell
      have hnext := ih (fun other hother => hspelled other (by simp [hother])) hback
        (Scanner.Alike.refl _)
      have hfinal : s.reach (text behind) (text ((segment :: segments).flatMap Segment.cells ++ tail)) =
          (Scanner.atCode (some ')')).reach (text behind)
            (text (segments.flatMap Segment.cells ++ tail)) := by
        rw [List.flatMap_cons, List.append_assoc, Segment.cells, text_append, Scanner.reach_append,
          ← hreach]
        simp
      have htext : text ((segment :: segments).flatMap Segment.sumRow ++ tail) ++ rest =
          text segment.kept ++ (segment.count.sum ++
            (text (segments.flatMap Segment.sumRow ++ tail) ++ rest)) := by
        simp [Segment.sumRow]
      rw [htext, hkept, settles_sum hfirst _ hmode, hnext, hfinal]
      simp [Segment.sumRow]

section Body

variable {part : Section} (hspelled : ∀ segment ∈ part.segments,
  Spelled segment.count segment.head segment.paren segment.inside segment.close)

include hspelled

theorem read_section (hpaints : s.Paints (part.body ++ behind)) : Read part.segments := by
  intro segment hsegment
  obtain ⟨pre, post, hsegments⟩ := List.append_of_mem hsegment
  refine ⟨hspelled segment hsegment, s, pre.flatMap Segment.cells ++ segment.kept,
    post.flatMap Segment.cells ++ (part.tail ++ behind), ?_⟩
  simpa [Section.body, hsegments, Segment.cells] using hpaints

theorem paint_section (hpaints : s.Paints (part.body ++ behind)) (halike : s.Alike t)
    {rest : List Char} (hrest : (text behind).takeWhile isNameChar = rest.takeWhile isNameChar) :
    t.paint (text part.summedRow ++ rest) =
      part.summedRow ++ (s.reach (text behind) (text part.body)).paint rest := by
  have hsegments : s.Paints (part.segments.flatMap Segment.cells ++ (part.tail ++ behind)) := by
    rw [← List.append_assoc]
    exact hpaints
  exact paint_segments hspelled hsegments halike hrest

theorem paint_section_fresh (hpaints : s.Paints (part.body ++ behind)) {first : Cell}
    {more : List Cell} (hbody : part.body = first :: more) (hname : isNameChar first.char = true)
    (hcode : first.isLiteral = false) (ht : t.mode = .code) {rest : List Char}
    (hrest : (text behind).takeWhile isNameChar = rest.takeWhile isNameChar) :
    t.paint (text part.summedRow ++ rest) =
      part.summedRow ++ (s.reach (text behind) (text part.body)).paint rest := by
  rw [hbody, List.cons_append] at hpaints
  obtain ⟨hfresh, hreach⟩ := hpaints.fresh hcode (solid_of_isNameChar hname) ht
  rw [← List.cons_append, ← hbody] at hfresh
  rw [paint_section hspelled hfresh (Scanner.Alike.refl _) hrest, hbody, text_cons, hreach]

end Body

/-! ## All stages -/

theorem takeWhile_gap {gap : List Cell} (hpaints : s.Paints (gap ++ behind))
    (hgap : ∀ cell ∈ gap, cell.isGap = true) (hne : gap = [] → behind = []) :
    (text (gap ++ behind)).takeWhile isNameChar = [] := by
  cases gap with
  | nil => simp [hne rfl]
  | cons cell gap =>
      have hcell : isNameChar cell.char = false := by
        rcases Bool.or_eq_true_iff.mp (hgap cell (by simp)) with hseparator | hblank
        · have hmem : cell ∈ s.paint (text (cell :: gap ++ behind)) := by
            rw [hpaints]
            simp
          rw [Scanner.char_of_isSeparator hmem hseparator]
          decide
        · exact isNameChar_of_isBlank hblank
      simp [hcell]

theorem mode_of_apart {gap : List Cell} (hpaints : s.Paints (gap ++ behind))
    (hahead : s.FlagsAhead (text (gap ++ behind))) (hgap : ∀ cell ∈ gap, cell.isGap = true)
    (hapart : gap.any Cell.isSeparator = true) : s.mode = .code := by
  -- The first separator is code, and only blanks precede it.
  obtain ⟨cell, hfind⟩ : ∃ cell, gap.find? Cell.isSeparator = some cell := by
    rw [← Option.isSome_iff_exists, List.find?_isSome]
    exact List.any_eq_true.mp hapart
  obtain ⟨hcell, blanks, more, rfl, hnone⟩ := List.find?_eq_some_iff_append.mp hfind
  rw [List.append_assoc, List.cons_append] at hpaints hahead
  have hblanks : ∀ blank ∈ blanks, isBlank blank.char = true := by
    intro blank hblank
    have hseparator : blank.isSeparator = false := by simpa using hnone blank hblank
    simpa [Cell.isGap, hseparator] using hgap blank (by simp [hblank])
  have hchar : cell.char = '|' := by
    have hmem : cell ∈ s.paint (text (blanks ++ cell :: (more ++ behind))) := by
      rw [hpaints]
      simp
    exact Scanner.char_of_isSeparator hmem hcell
  have hliteral : cell.isLiteral = false := by
    have hrole : cell.role = .separator := by simpa [Cell.isSeparator] using hcell
    rw [Cell.isLiteral, hrole]
    rfl
  exact hpaints.mode_of_blanks hahead hblanks hliteral (by rw [hchar]; decide)

theorem firm_gap {gap : List Cell} (hpaints : s.Paints (gap ++ behind))
    (hgap : ∀ cell ∈ gap, cell.isGap = true) : ∀ cell ∈ gap.getLast?,
      isNameChar cell.char = false ∧ ¬ (cell.char = '/' ∧ cell.role = .closing) := by
  intro cell hcell
  have hmem := List.mem_of_getLast? hcell
  rcases Bool.or_eq_true_iff.mp (hgap cell hmem) with hseparator | hblank
  · have hpaint : cell ∈ s.paint (text (gap ++ behind)) := by
      rw [hpaints]
      exact List.mem_append_left _ hmem
    rw [Scanner.char_of_isSeparator hpaint hseparator]
    exact ⟨by decide, by simp⟩
  · exact ⟨isNameChar_of_isBlank hblank, fun h => (plain_of_isBlank hblank).2.2.1 h.1⟩

def Headed (parts : List Section) : Prop :=
  ∀ part ∈ parts, part.segments ≠ [] → ∃ first rest, part.body = first :: rest ∧
    isNameChar first.char = true ∧ first.isLiteral = false

theorem char_carriedRow (parts : List Section) :
    ∀ cell ∈ (carriedRow parts).head?, cell.char = ',' := by
  cases parts with
  | nil => simp [carriedRow]
  | cons part parts =>
      rw [carriedRow]
      split
      · simp
      · rintro cell ⟨rfl⟩
        rfl

theorem takeWhile_mendedFrom {made : Bool} {gap : List Cell} {parts : List Section}
    (hpaints : s.Paints (mendedFrom made gap parts)) (hgap : ∀ cell ∈ gap, cell.isGap = true)
    (hseparated : parts = [] ∨ gap.any Cell.isSeparator = true) :
    (text (mendedFrom made gap parts)).takeWhile isNameChar = [] := by
  have hne : gap = [] → (mended made parts).flatMap Stage.cells = [] := by
    rintro rfl
    obtain rfl : parts = [] := by simpa using hseparated
    rfl
  have hcomma : ∀ cell ∈ (if made then carriedRow parts else []).head?, cell.char = ',' := by
    split
    · exact char_carriedRow parts
    · simp
  cases hcarried : (if made then carriedRow parts else []) with
  | nil =>
      rw [mendedFrom, hcarried, List.nil_append] at hpaints ⊢
      exact takeWhile_gap hpaints hgap hne
  | cons cell row =>
      rw [hcarried] at hcomma
      rw [mendedFrom, hcarried]
      simp [hcomma cell (by simp), isNameChar]

theorem paints_mendedFrom {made : Bool} {gap : List Cell} {parts : List Section}
    (hpaints : s.Paints (gap ++ (parts.map Section.stage).flatMap Stage.cells))
    (hahead : s.FlagsAhead (text (gap ++ (parts.map Section.stage).flatMap Stage.cells)))
    (hgap : ∀ cell ∈ gap, cell.isGap = true)
    (hseparated : made = true → parts = [] ∨ gap.any Cell.isSeparator = true)
    (hapart : Stage.Apart (parts.map Section.stage)) (hspells : Spells parts)
    (hheaded : Headed parts) : s.Paints (mendedFrom made gap parts) := by
  induction parts generalizing s made gap with
  | nil =>
      rw [mendedFrom]
      cases made <;> simpa [carriedRow, mended] using hpaints
  | cons part parts ih =>
      obtain ⟨htrimmed, hbehind, hrest⟩ := hapart
      have hspelled := hspells part (by simp)
      have hbehind : parts = [] ∨ part.gap.any Cell.isSeparator = true :=
        hbehind.imp List.map_eq_nil_iff.mp id
      have hrow : gap ++ ((part :: parts).map Section.stage).flatMap Stage.cells = gap ++ (part.body ++
          (part.gap ++ (parts.map Section.stage).flatMap Stage.cells)) := by
        simp [Section.stage, Stage.cells]
      rw [hrow] at hpaints hahead
      have hbody := (Scanner.paints_append.mp hpaints).2
      have hnext := (Scanner.paints_append.mp hbody).2
      have hnextAhead := hahead.reach_row.reach_row
      -- The other stages are read from where the old scanner is behind this one.
      have hmended : Scanner.Paints _ (mendedFrom part.makes part.gap parts) :=
        ih hnext hnextAhead htrimmed.gap (fun _ => hbehind) hrest
          (fun other hother => hspells other (by simp [hother]))
          (fun other hother => hheaded other (by simp [hother]))
      have hrun : (text (part.gap ++ (parts.map Section.stage).flatMap Stage.cells)).takeWhile
          isNameChar = (text (mendedFrom part.makes part.gap parts)).takeWhile isNameChar := by
        rw [takeWhile_mendedFrom hmended htrimmed.gap hbehind]
        refine takeWhile_gap hnext htrimmed.gap fun hnil => ?_
        obtain rfl : parts = [] := by simpa [hnil] using hbehind
        rfl
      have hread : Read part.segments := read_section hspelled hbody
      have hkeep := hpaints.kept_firm (Scanner.Alike.refl _) (firm_gap hpaints hgap)
      rw [mendedFrom_cons, Scanner.Paints]
      by_cases hempty : part.segments = []
      · -- Nothing is derived for this stage.
        have htext : text (gap ++ (part.summedRow ++ mendedFrom part.makes part.gap parts)) =
            text gap ++ (text part.summedRow ++ text (mendedFrom part.makes part.gap parts)) := by
          simp
        simp only [hempty, List.isEmpty_nil, Bool.true_or, if_true, carriedRow, ite_self, List.nil_append]
        rw [htext, hkeep, paint_section hspelled hbody (Scanner.Alike.refl _) hrun, hmended]
      · have hnonempty : part.segments.isEmpty = false := by simpa using hempty
        obtain ⟨first, more, hfirst, hname, hcode⟩ := hheaded part (by simp) hempty
        cases made with
        | true =>
            -- The flags go to the end of the stage in front.
            have hapart := (hseparated rfl).resolve_left (by simp)
            have hmode := mode_of_apart hpaints hahead hgap hapart
            obtain ⟨hreach, hgapPaint⟩ := hpaints.gap_apart hmode hgap hapart
            have htext : text (codeRow ", ".toList ++ part.derivationsRow ++ (gap ++ (part.summedRow ++
                mendedFrom part.makes part.gap parts))) = (", ".toList ++ part.derivations) ++
                  (text gap ++ (text part.summedRow ++
                    text (mendedFrom part.makes part.gap parts))) := by
              simp [text_derivationsRow hspelled]
            rw [hreach] at hbody hmended
            simp only [if_true, carriedRow, hnonempty, Bool.or_true, Bool.false_eq_true, if_false,
              List.nil_append]
            rw [htext, settles_carried hempty hread s hmode, hgapPaint,
              paint_section hspelled hbody (Scanner.Alike.refl _) hrun, hmended]
        | false =>
            -- The flags get a stage of their own.
            have hmode : (s.reach (text (part.body ++ (part.gap ++
                (parts.map Section.stage).flatMap Stage.cells))) (text gap)).mode = .code := by
              rw [hfirst, List.cons_append] at hpaints ⊢
              exact hpaints.mode hcode
            have htext : text (gap ++ (part.flags.cells ++ (part.summedRow ++
                mendedFrom part.makes part.gap parts))) = text gap ++
                  (("make_col ".toList ++ part.derivations ++ " | ".toList) ++
                    (text part.summedRow ++ text (mendedFrom part.makes part.gap parts))) := by
              simp [Section.flags, Stage.cells, gapRow, text_derivationsRow hspelled]
            simp only [Bool.false_eq_true, if_false, hnonempty, Bool.or_false, List.nil_append]
            rw [htext, hkeep, settles_flags hempty hread _ hmode,
              paint_section_fresh hspelled hbody hfirst hname hcode rfl hrun, hmended]

end Segments

/-! ## The layout afterwards -/

section Trimmed

variable {part : Section} {parts : List Section}

theorem last_derivationsRow (hne : part.segments ≠ []) :
    ∃ row, part.derivationsRow = row ++ [⟨')', .code⟩] := by
  obtain ⟨segments, tail, gap⟩ := part
  rw [Section.derivationsRow]
  dsimp only at hne ⊢
  induction segments with
  | nil => exact absurd rfl hne
  | cons segment segments ih =>
      cases segments with
      | nil =>
          refine ⟨codeRow (segment.count.flag ++ ":if(".toList) ++
            (trimCells segment.inside ++ codeRow ", 1, 0".toList), ?_⟩
          simp [List.intercalate, Segment.derivationRow, codeRow]
      | cons other segments =>
          obtain ⟨row, hrow⟩ := ih (by simp)
          refine ⟨segment.derivationRow ++ (codeRow ", ".toList ++ row), ?_⟩
          simp only [List.map_cons, List.intercalate, List.intersperse_cons_cons,
            List.flatten_cons] at hrow ⊢
          rw [hrow]
          simp

theorem mem_of_mem_intercalate {separator : List Cell} {rows : List (List Cell)} {cell : Cell}
    (h : cell ∈ List.intercalate separator rows) : cell ∈ separator ∨ ∃ row ∈ rows, cell ∈ row := by
  induction rows with
  | nil => simp [List.intercalate] at h
  | cons row rows ih =>
      cases rows with
      | nil => exact .inr ⟨row, by simp, by simpa [List.intercalate] using h⟩
      | cons other rows =>
          simp only [List.intercalate, List.intersperse_cons_cons, List.flatten_cons,
            List.mem_append] at h
          rcases h with h | h | h
          · exact .inr ⟨row, by simp, h⟩
          · exact .inl h
          · exact (ih h).imp id fun ⟨found, hfound, hcell⟩ => ⟨found, by simp [hfound], hcell⟩

theorem isSeparator_derivationsRow (h : ∀ cell ∈ part.body, cell.isSeparator = false) :
    ∀ cell ∈ part.derivationsRow, cell.isSeparator = false := by
  have hrow : ∀ segment ∈ part.segments, ∀ cell ∈ segment.derivationRow, cell.isSeparator = false := by
    intro segment hsegment cell hcell
    rcases List.mem_append.mp hcell with hcell | hcell
    · exact isSeparator_codeRow cell hcell
    · rcases List.mem_append.mp hcell with hcell | hcell
      · obtain ⟨blanks, spaces, hinside, -⟩ := exists_trimCells segment.inside
        refine h cell (List.mem_append_left _ (List.mem_flatMap.mpr ⟨segment, hsegment, ?_⟩))
        have : cell ∈ segment.inside := by
          rw [hinside]
          simp [hcell]
        simp [Segment.cells, Segment.call, this]
      · exact isSeparator_codeRow cell hcell
  intro cell hcell
  rcases mem_of_mem_intercalate hcell with hcell | ⟨row, hmem, hcell⟩
  · exact isSeparator_codeRow cell hcell
  · obtain ⟨segment, hsegment, rfl⟩ := List.mem_map.mp hmem
    exact hrow segment hsegment cell hcell

theorem trimmed_summedRow (h : part.stage.Trimmed) (hspelled : ∀ segment ∈ part.segments,
      Spelled segment.count segment.head segment.paren segment.inside segment.close) :
    Stage.Trimmed ⟨part.summedRow, part.gap⟩ := by
  obtain ⟨segments, tail, gap⟩ := part
  have hfrom (done todo : List Segment) (htodo : ∀ segment ∈ todo,
      Spelled segment.count segment.head segment.paren segment.inside segment.close)
      (hdone : Stage.Trimmed ⟨done.flatMap Segment.sumRow ++
        (todo.flatMap Segment.cells ++ tail), gap⟩) :
      Stage.Trimmed ⟨(done ++ todo).flatMap Segment.sumRow ++ tail, gap⟩ := by
    induction todo generalizing done with
    | nil => simpa using hdone
    | cons segment todo ih =>
        have hsolid : ∀ c ∈ segment.count.sum, isBlank c = false := by
          have hlabel : ∀ c ∈ segment.count.label, isBlank c = false := fun c hc =>
            (solid_of_isNameChar ((htodo segment (by simp)).label c hc)).2.1
          intro c hc
          simp only [Count.sum, Count.flag, List.mem_append] at hc
          rcases hc with ((hc | hc) | hc | hc) | hc
          · exact hlabel c hc
          · exact (by simp; decide : ∀ c ∈ ":sum(".toList, isBlank c = false) c hc
          · exact hlabel c hc
          · exact (by simp; decide : ∀ c ∈ "_flag".toList, isBlank c = false) c hc
          · rw [List.mem_singleton.mp hc]
            decide
        have hsplice := hdone.splice (show _ = (done.flatMap Segment.sumRow ++ segment.kept) ++
            (segment.call ++ (todo.flatMap Segment.cells ++ tail)) by simp [Segment.cells])
          (ends_codeRow (by simp [Count.sum]) hsolid) isSeparator_codeRow
        have hnext := ih (done ++ [segment]) (fun other hother => htodo other (by simp [hother]))
          (by simpa [Segment.sumRow] using hsplice)
        simpa using hnext
  simpa [Section.summedRow] using hfrom [] segments hspelled (by simpa [Section.stage, Section.body] using h)

theorem trimmed_flags (hne : part.segments ≠ []) (h : ∀ cell ∈ part.body, cell.isSeparator = false) :
    part.flags.Trimmed where
  head := ⟨⟨'m', .code⟩, rfl, by decide⟩
  last := by
    obtain ⟨row, hrow⟩ := last_derivationsRow hne
    refine ⟨⟨')', .code⟩, ?_, by decide⟩
    rw [Section.flags, hrow, ← List.append_assoc]
    exact List.getLast?_concat
  body := by
    intro cell hcell
    rcases List.mem_append.mp hcell with hcell | hcell
    · exact isSeparator_codeRow cell hcell
    · exact isSeparator_derivationsRow h cell hcell
  gap := show ∀ cell ∈ gapRow, cell.isGap = true by decide

theorem trimmed_carriedRow {row gap : List Cell} (h : Stage.Trimmed ⟨row, gap⟩)
    (hparts : ∀ part ∈ parts, ∀ cell ∈ part.body, cell.isSeparator = false) :
    Stage.Trimmed ⟨row ++ carriedRow parts, gap⟩ := by
  cases parts with
  | nil => simpa [carriedRow] using h
  | cons part parts =>
      rw [carriedRow]
      split
      · simpa using h
      · rename_i hempty
        have hne : part.segments ≠ [] := by simpa using hempty
        obtain ⟨start, hstart⟩ := last_derivationsRow hne
        have hlast : (codeRow ", ".toList ++ part.derivationsRow).getLast? = some ⟨')', .code⟩ := by
          rw [hstart, ← List.append_assoc]
          exact List.getLast?_concat
        have hsplice := h.splice (show row = row ++ ([] ++ []) by simp)
          ⟨⟨⟨',', .code⟩, rfl, by decide⟩, ⟨⟨')', .code⟩, hlast, by decide⟩⟩ (fun cell hcell => ?_)
        · simpa using hsplice
        · rcases List.mem_append.mp hcell with hcell | hcell
          · exact isSeparator_codeRow cell hcell
          · exact isSeparator_derivationsRow (hparts part (by simp)) cell hcell

theorem apart_mended {made : Bool} (hapart : Stage.Apart (parts.map Section.stage))
    (hspells : Spells parts) : Stage.Apart (mended made parts) := by
  induction parts generalizing made with
  | nil => trivial
  | cons part parts ih =>
      obtain ⟨htrimmed, hbehind, hrest⟩ := hapart
      have hspelled := hspells part (by simp)
      have hnext : Stage.Apart (mended part.makes parts) :=
        ih hrest fun other hother => hspells other (by simp [hother])
      have hbodies : ∀ other ∈ parts, ∀ cell ∈ other.body, cell.isSeparator = false :=
        fun other hother => (hrest.trimmed other.stage (List.mem_map_of_mem hother)).body
      have hsummed := trimmed_summedRow htrimmed hspelled
      have hstage : Stage.Trimmed
          ⟨part.summedRow ++ if part.makes then carriedRow parts else [], part.gap⟩ := by
        split
        · exact trimmed_carriedRow hsummed hbodies
        · simpa using hsummed
      have hbehind : mended part.makes parts = [] ∨ part.gap.any Cell.isSeparator = true := by
        refine hbehind.imp (fun hnil => ?_) id
        rw [List.map_eq_nil_iff.mp hnil]
        rfl
      rw [mended]
      split
      · exact ⟨hstage, hbehind, hnext⟩
      · rename_i hnew
        have hne : part.segments ≠ [] := by
          rintro hnil
          simp [hnil] at hnew
        exact ⟨trimmed_flags hne htrimmed.body, .inr rfl, hstage, hbehind, hnext⟩

end Trimmed

section Query

variable {query : List Char} {parts : List Section}

theorem headed_of_cut (hstages : (layout query).stages = parts.map Section.stage)
    {counts : List Count} {number start : Nat} (hcut : Cut counts number start parts) :
    Headed parts := by
  intro part hpart hne
  obtain ⟨verb, hverb, -⟩ := hcut.aggregates part hpart hne
  have hmem : part.stage ∈ (places query).map Prod.snd := by
    rw [map_snd_places, hstages]
    exact List.mem_map_of_mem hpart
  obtain ⟨place, hplace, hstage⟩ := List.mem_map.mp hmem
  obtain ⟨first, rest, hbody, hname, hcode⟩ := exists_first_of_verb? hplace (hstage ▸ hverb)
  exact ⟨first, rest, by rw [← hbody, hstage]; rfl, hname, hcode⟩

theorem layout_splice (hstages : (layout query).stages = parts.map Section.stage)
    (hcut : Cut (found query) 0 (layout query).lead.length parts) :
    layout (Edit.splice query (edits (layout query) (found query))) =
      ⟨(layout query).lead, mended false parts⟩ := by
  have hcells : cells query = (layout query).lead ++ (parts.map Section.stage).flatMap Stage.cells := by
    rw [← hstages]
    exact cells_eq_layout query
  have hapart : Stage.Apart (parts.map Section.stage) := hstages ▸ Layout.apart (cells query)
  have hlead : ∀ cell ∈ (layout query).lead, cell.isGap = true := Layout.gap_lead (cells query)
  have hpaints : Scanner.Paints {} (mendedFrom false (layout query).lead parts) := by
    refine paints_mendedFrom ?_ (fun more hmore => by simp at hmore) hlead (by simp) hapart
      hcut.spells (headed_of_cut hstages hcut)
    rw [← hcells]
    exact paints_cells query
  have hnew : mendedFrom false (layout query).lead parts =
      (layout query).lead ++ (mended false parts).flatMap Stage.cells := by
    simp [mendedFrom]
  rw [splice_edits hstages hcut, layout, cells, hpaints, hnew,
    Layout.ofCells_eq hlead (apart_mended hapart hcut.spells)]

end Query

end OpalRepair.FlagCount
