import Mathlib
import OpalRepair.Proofs.Dropping.Accepted
import OpalRepair.Proofs.Quoting.Rows

/-!
# Quoting and the checks

A query is accepted with quoted keys exactly if it is accepted without them.  A key holds no
delimiter and no separator, so counting and cutting go on as before; the column in front of it is
left, and with it the verb of a stage.  Only the words need care: behind a quoted key a word may
begin where none could begin behind a name, so the key must not be followed by a word character.

Main statement: `checkStructure_quoteKey_iff`.
-/

namespace OpalRepair

open Query Text Vocabulary

/-! ## Stages -/

namespace Query.Layout

structure Akin (a b : Layout) : Prop where
  lead : a.lead = b.lead
  stages : List.Forall₂ (fun stage stage' : Stage =>
    stage.text.takeWhile isNameChar = stage'.text.takeWhile isNameChar) a.stages b.stages

theorem Akin.cons {a b : Layout} (h : Akin a b) (cell : Cell) :
    Akin (Layout.cons cell a) (Layout.cons cell b) := by
  obtain ⟨lead, stages⟩ := a
  obtain ⟨lead', stages'⟩ := b
  obtain ⟨rfl, hstages⟩ := h
  cases hgap : cell.isGap with
  | true => exact ⟨by simp [Layout.cons, hgap], by simpa [Layout.cons, hgap] using hstages⟩
  | false =>
      cases hstages with
      | nil => exact ⟨by simp [Layout.cons, hgap], by simp [Layout.cons, hgap]⟩
      | @cons stage stage' stages stages' hname hrest =>
          cases hlead : lead.any Cell.isSeparator with
          | true =>
              refine ⟨by simp [Layout.cons, hgap, hlead], ?_⟩
              simp [Layout.cons, hgap, hlead, hname, hrest]
          | false =>
              refine ⟨by simp [Layout.cons, hgap, hlead], ?_⟩
              have hjoined := Scanner.takeWhile_append_congr hname (text (cell :: lead))
              simp [Layout.cons, hgap, hlead, hrest]
              simpa [Stage.text] using hjoined

theorem Akin.foldr {a b : Layout} (h : Akin a b) (row : List Cell) :
    Akin (row.foldr Layout.cons a) (row.foldr Layout.cons b) := by
  induction row with
  | nil => exact h
  | cons cell row ih => exact ih.cons cell

theorem foldr_cons_solid {run : List Cell} (hne : run ≠ [])
    (hrun : ∀ cell ∈ run, cell.isGap = false) (layout : Layout) :
    run.foldr Layout.cons layout =
      match layout.stages with
      | [] => ⟨[], [⟨run, layout.lead⟩]⟩
      | stage :: stages =>
        if layout.lead.any Cell.isSeparator then ⟨[], ⟨run, layout.lead⟩ :: stage :: stages⟩
        else ⟨[], ⟨run ++ (layout.lead ++ stage.body), stage.gap⟩ :: stages⟩ := by
  induction run with
  | nil => exact absurd rfl hne
  | cons cell run ih =>
      obtain ⟨hcell, hrun⟩ := List.forall_mem_cons.mp hrun
      cases run with
      | nil => simp only [List.foldr_cons, List.foldr_nil, Layout.cons, hcell]; rfl
      | cons next run =>
          rw [List.foldr_cons, ih (by simp) hrun]
          cases layout.stages with
          | nil => simp [Layout.cons, hcell]
          | cons stage stages =>
              dsimp only
              split_ifs <;> simp [Layout.cons, hcell]

theorem Akin.foldr_solid {a b : Layout} (h : Akin a b) {run run' : List Cell} (hne : run ≠ [])
    (hne' : run' ≠ []) (hrun : ∀ cell ∈ run, cell.isGap = false)
    (hrun' : ∀ cell ∈ run', cell.isGap = false)
    (hname : ∀ rest rest', (text run ++ rest).takeWhile isNameChar =
      (text run' ++ rest').takeWhile isNameChar) :
    Akin (run.foldr Layout.cons a) (run'.foldr Layout.cons b) := by
  rw [foldr_cons_solid hne hrun, foldr_cons_solid hne' hrun']
  obtain ⟨lead, stages⟩ := a
  obtain ⟨lead', stages'⟩ := b
  obtain ⟨rfl, hstages⟩ := h
  have halone : (text run).takeWhile isNameChar = (text run').takeWhile isNameChar := by
    simpa using hname [] []
  cases hstages with
  | nil => exact ⟨rfl, .cons halone .nil⟩
  | @cons stage stage' stages stages' hstage hrest =>
      dsimp only
      split_ifs
      · exact ⟨rfl, .cons halone (.cons hstage hrest)⟩
      · refine ⟨rfl, .cons ?_ hrest⟩
        simpa [Stage.text] using hname (text (lead ++ stage.body)) (text (lead ++ stage'.body))

theorem Akin.startsWithVerb {row new : List Cell} (h : Akin (ofCells row) (ofCells new)) :
    (∀ body ∈ (ofCells row).stages.map Stage.body, StartsWithVerb body) ↔
      ∀ body ∈ (ofCells new).stages.map Stage.body, StartsWithVerb body := by
  have htrimmed (row : List Cell) := (apart row).trimmed
  have hold := htrimmed row
  have hnew := htrimmed new
  have hstages := h.stages
  generalize (ofCells row).stages = stages at hold hstages ⊢
  generalize (ofCells new).stages = stages' at hnew hstages ⊢
  induction hstages with
  | nil => rfl
  | @cons stage stage' stages stages' hname _ ih =>
      rw [List.forall_mem_cons] at hold hnew
      have hfirst : leadingName? stage.text = leadingName? stage'.text := by
        rw [leadingName?, leadingName?, hold.1.trimStart_text, hnew.1.trimStart_text, hname]
      rw [List.map_cons, List.map_cons, List.forall_mem_cons, List.forall_mem_cons]
      refine and_congr ?_ (ih hold.2 hnew.2)
      rw [StartsWithVerb, StartsWithVerb, ← Stage.text, ← Stage.text, hfirst]

end Query.Layout

/-! ## Attributes in a row -/

/-- The characters right behind the replaced parts, in the text before the change. -/
def Patch.followers : Patch → List Char
  | [] => []
  | .keep _ :: patch => followers patch
  | .change _ _ :: patch => (Patch.before patch).head?.toList ++ followers patch

namespace Query.Word

theorem after_path {row : List Cell} (hrow : ∀ c ∈ text row, QuoteKey.isPathChar c = true)
    {word : Word} (hword : word = .dot ∨ word = .inert) :
    word.after row = .dot ∨ word.after row = .inert := by
  induction row generalizing word with
  | nil => exact hword
  | cons cell row ih =>
      obtain ⟨hcell, hrow⟩ := List.forall_mem_cons.mp hrow
      refine ih hrow ?_
      rcases Bool.or_eq_true_iff.mp hcell with hname | hdot
      · right
        rcases hword with rfl | rfl <;> simp [step, isWordChar_of_isNameChar hname]
      · left
        have hchars : isWordChar '.' = false ∧ isBlank '.' = false := by decide
        simp [step, beq_iff_eq.mp hdot, hchars]

theorem sound_inert_iff {known : List Char → Prop} {row : List Cell}
    (h : ∀ c ∈ (text row).head?, isWordChar c = false) :
    inert.Sound known row ↔ idle.Sound known row := by
  cases row with
  | nil => rfl
  | cons cell row =>
      have hchar : isWordChar cell.char = false := h cell.char rfl
      have hstep : inert.step cell = idle.step cell := by simp [step, hchar]
      rw [sound_cons, sound_cons, hstep]
      exact and_congr_left fun _ => Iff.rfl

end Query.Word

namespace QuoteKey

namespace IsAttribute

variable {parent key rest : List Char} {part : List Cell}

theorem after_eq_inert (h : IsAttribute parent key rest) (hpart : text part = parent ++ '.' :: key)
    (word : Word) : word.after part = .inert := by
  obtain ⟨c, hlast, hc⟩ := h.key_last
  obtain ⟨front, rfl⟩ := List.getLast?_eq_some_iff.mp hlast
  obtain ⟨column, back, rfl, -, hback⟩ := row_of_text hpart
  obtain ⟨dot, names, rfl, hdot, hnames⟩ := row_of_text_cons hback
  obtain ⟨segments, ends, rfl, hsegments, hends⟩ := row_of_text hnames
  obtain ⟨last, more, rfl, rfl, hmore⟩ := row_of_text_cons hends
  obtain rfl : more = [] := List.map_eq_nil_iff.mp hmore
  have hpath : Word.dot.after segments = .dot ∨ Word.dot.after segments = .inert :=
    Word.after_path (fun c hc => h.key_path c (by simp [← hsegments, hc])) (.inl rfl)
  have hstep : (word.after column).step dot = .dot := by
    have hchars : isWordChar '.' = false ∧ isBlank '.' = false := by decide
    simp [Word.step, hdot, hchars]
  rw [Word.after_append, Word.after_cons, hstep, Word.after_append, Word.after_cons, Word.after_nil]
  rcases hpath with hpath | hpath <;>
    simp [hpath, Word.step, isWordChar_of_isNameChar hc]

theorem path_of_mem (h : IsAttribute parent key rest) (hpart : text part = parent ++ '.' :: key)
    {cell : Cell} (hcell : cell ∈ part) : isPathChar cell.char = true := by
  refine h.path _ ?_
  rw [← hpart]
  exact List.mem_map_of_mem hcell

theorem mem_quotedRow (h : IsAttribute parent key rest) {cell : Cell}
    (hcell : cell ∈ quotedRow parent key) :
    isPathChar cell.char = true ∧ cell.role = .code ∨
      (isPathChar cell.char = true ∨ cell.char = '"') ∧ cell.isLiteral = true := by
  rw [quotedRow, List.mem_append] at hcell
  rcases hcell with hcode | hliteral
  · obtain ⟨c, hc, rfl⟩ := List.mem_map.mp hcode
    refine .inl ⟨h.path c ?_, rfl⟩
    rw [List.mem_append, List.mem_singleton] at hc
    rcases hc with hc | rfl <;> simp [*]
  · have hchar : cell.char ∈ text (literalRow .double key) := List.mem_map_of_mem hliteral
    simp only [text_literalRow, Literal.delimiter, List.mem_cons, List.mem_append,
      List.not_mem_nil, or_false] at hchar
    refine .inr ⟨?_, isLiteral_literalRow hliteral⟩
    rcases hchar with hquote | hkey | hquote
    · exact .inr hquote
    · exact .inl (h.key_path _ hkey)
    · exact .inr hquote

theorem not_isDelimiter (h : IsAttribute parent key rest)
    (hpart : text part = parent ++ '.' :: key) :
    (∀ cell ∈ part, isDelimiter cell.char = false ∨ cell.isLiteral = true) ∧
      ∀ cell ∈ quotedRow parent key, isDelimiter cell.char = false ∨ cell.isLiteral = true := by
  have hbland {c : Char} (hc : isPathChar c = true) : isDelimiter c = false :=
    not_isDelimiter_of_bland (bland_of_class rfl hc)
  refine ⟨fun cell hcell => .inl (hbland (h.path_of_mem hpart hcell)), fun cell hcell => ?_⟩
  rcases h.mem_quotedRow hcell with ⟨hpath, -⟩ | ⟨-, hliteral⟩
  · exact .inl (hbland hpath)
  · exact .inr hliteral

theorem not_isGap (h : IsAttribute parent key rest) (hpart : text part = parent ++ '.' :: key)
    (hpipe : ∀ cell ∈ part, cell.isSeparator = true → cell.char = '|') :
    (∀ cell ∈ part, cell.isGap = false) ∧ ∀ cell ∈ quotedRow parent key, cell.isGap = false := by
  refine ⟨fun cell hcell => ?_, fun cell hcell => ?_⟩
  · obtain ⟨-, hblank, hbar⟩ := solid_of_isPathChar (h.path_of_mem hpart hcell)
    have hseparator : cell.isSeparator = false := by
      by_contra hseparator
      exact hbar (hpipe cell hcell (by simpa using hseparator))
    simp [Cell.isGap, hseparator, hblank]
  · rcases h.mem_quotedRow hcell with ⟨hpath, hrole⟩ | ⟨hchar, hliteral⟩
    · simp [Cell.isGap, Cell.isSeparator, hrole, (solid_of_isPathChar hpath).2.1]
    · have hblank : isBlank cell.char = false := by
        rcases hchar with hpath | hquote
        · exact (solid_of_isPathChar hpath).2.1
        · rw [hquote]
          decide
      simp [Cell.isGap, not_isSeparator_of_isLiteral hliteral, hblank]

theorem not_paren (h : IsAttribute parent key rest) (hpart : text part = parent ++ '.' :: key) :
    (∀ cell ∈ part, cell.char ≠ '(') ∧ ∀ cell ∈ quotedRow parent key, cell.char ≠ '(' := by
  have hpath {c : Char} (hc : isPathChar c = true) : c ≠ '(' := by
    rintro rfl
    exact absurd hc (by decide)
  refine ⟨fun cell hcell => hpath (h.path_of_mem hpart hcell), fun cell hcell => ?_⟩
  rcases h.mem_quotedRow hcell with ⟨hchar, -⟩ | ⟨hchar | hquote, -⟩
  · exact hpath hchar
  · exact hpath hchar
  · simp [hquote]

end IsAttribute

/-! ## The checks -/

namespace Quotes

variable {previous : Option Char} {row new : List Cell} {patch : Patch}

theorem countP_isCode (h : Quotes previous row patch new) (pair : Pair) :
    row.countP (Cell.isCode pair.left) = new.countP (Cell.isCode pair.left) ∧
      row.countP (Cell.isCode pair.right) = new.countP (Cell.isCode pair.right) := by
  induction h with
  | nil => exact ⟨rfl, rfl⟩
  | pass _ _ ih => simp [List.countP_cons, ih]
  | leave _ _ _ _ _ ih => simp [List.countP_append, ih]
  | @quote _ part _ _ _ parent key hpart hattribute _ _ _ ih =>
      have hzero {run : List Cell}
          (hrun : ∀ cell ∈ run, isDelimiter cell.char = false ∨ cell.isLiteral = true) :
          run.countP (Cell.isCode pair.left) = 0 ∧ run.countP (Cell.isCode pair.right) = 0 := by
        refine ⟨List.countP_eq_zero.mpr fun cell hcell => ?_,
          List.countP_eq_zero.mpr fun cell hcell => ?_⟩
        · simp [(not_isCode_of_not_isDelimiter (hrun cell hcell) pair).1]
        · simp [(not_isCode_of_not_isDelimiter (hrun cell hcell) pair).2]
      obtain ⟨hold, hnew⟩ := hattribute.not_isDelimiter hpart
      simp [List.countP_append, hzero hold, hzero hnew, ih]

theorem nestingFrom_eq (h : Quotes previous row patch new) (depth : Nat) :
    nestingFrom depth row = nestingFrom depth new := by
  induction h generalizing depth with
  | nil => rfl
  | pass _ _ ih => rw [nestingFrom_cons, nestingFrom_cons, ih]
  | leave _ _ _ _ _ ih => rw [nestingFrom_append, nestingFrom_append, ih]
  | quote hpart hattribute _ _ _ ih =>
      have hflat {run : List Cell}
          (hrun : ∀ cell ∈ run, isDelimiter cell.char = false ∨ cell.isLiteral = true) :=
        nesting_of_flat (fun cell hcell => flat_of_not_isDelimiter (hrun cell hcell)) depth
      obtain ⟨hold, hnew⟩ := hattribute.not_isDelimiter hpart
      obtain ⟨hdepth, hnesting⟩ := hflat hold
      obtain ⟨hdepth', hnesting'⟩ := hflat hnew
      rw [nestingFrom_append, nestingFrom_append, hdepth, hdepth', hnesting, hnesting', ih]

theorem akin (h : Quotes previous row patch new)
    (hpipe : ∀ cell ∈ row, cell.isSeparator = true → cell.char = '|') :
    Layout.Akin (Layout.ofCells row) (Layout.ofCells new) := by
  induction h with
  | nil => exact ⟨rfl, .nil⟩
  | pass _ _ ih => exact (ih fun other hother => hpipe other (by simp [hother])).cons _
  | @leave _ part row _ new _ _ _ _ _ _ _ _ ih =>
      have hrest := ih fun other hother => hpipe other (by simp [hother])
      rw [Layout.ofCells, Layout.ofCells, List.foldr_append, List.foldr_append]
      exact hrest.foldr part
  | @quote _ part row _ new parent key hpart hattribute _ _ _ ih =>
      have hrest := ih fun other hother => hpipe other (by simp [hother])
      obtain ⟨hold, hnew⟩ :=
        hattribute.not_isGap hpart fun cell hcell => hpipe cell (by simp [hcell])
      rw [Layout.ofCells, Layout.ofCells, List.foldr_append, List.foldr_append]
      refine hrest.foldr_solid (by rintro rfl; simp at hpart) (by simp [quotedRow, codeRow]) hold
        hnew fun rest rest' => ?_
      rw [hpart, text_quotedRow]
      exact takeWhile_quoted ..

theorem sound_iff (h : Quotes previous row patch new) {known : List Char → Prop} (word : Word)
    (hfollow : ∀ c ∈ patch.followers, isWordChar c = false) :
    word.Sound known row ↔ word.Sound known new := by
  induction h generalizing word with
  | nil => rfl
  | pass _ _ ih => rw [Word.sound_cons, Word.sound_cons, ih _ hfollow]
  | leave _ _ _ _ _ ih => rw [Word.sound_append, Word.sound_append, ih _ hfollow]
  | @quote _ part row patch new parent key hpart hattribute _ _ hrest ih =>
      obtain ⟨hparen, hparen'⟩ := hattribute.not_paren hpart
      rw [Patch.followers, List.forall_mem_append, hrest.before_patch] at hfollow
      have hafter : word.after (quotedRow parent key) = .idle := by
        rw [quotedRow, Word.after_append, Word.after_literalRow]
      calc word.Sound known (part ++ row)
        _ ↔ Word.inert.Sound known row := by
            rw [Word.sound_append, hattribute.after_eq_inert hpart]
            exact and_iff_right (Word.sound_of_no_paren word hparen)
        _ ↔ Word.idle.Sound known row := Word.sound_inert_iff (by simpa using hfollow.1)
        _ ↔ Word.idle.Sound known new := ih .idle hfollow.2
        _ ↔ word.Sound known (quotedRow parent key ++ new) := by
            rw [Word.sound_append, hafter]
            exact (and_iff_right (Word.sound_of_no_paren word hparen')).symm

theorem passes_iff (h : Quotes previous row patch new) {settings : Settings}
    (hfollow : ∀ c ∈ patch.followers, isWordChar c = false) :
    Passes settings row ↔ Passes settings new := by
  have hnesting : nestingDepth row = nestingDepth new := h.nestingFrom_eq 0
  have hcalls : Word.idle.Sound Callable row ↔ Word.idle.Sound Callable new :=
    h.sound_iff .idle hfollow
  constructor
  · rintro ⟨hpaired, hbound, hsound⟩
    refine ⟨fun pair => ?_, hnesting ▸ hbound, hcalls.mp hsound⟩
    rw [← (h.countP_isCode pair).1, ← (h.countP_isCode pair).2, hpaired]
  · rintro ⟨hpaired, hbound, hsound⟩
    refine ⟨fun pair => ?_, hnesting ▸ hbound, hcalls.mpr hsound⟩
    rw [(h.countP_isCode pair).1, (h.countP_isCode pair).2, hpaired]

end Quotes

end QuoteKey

/-- Quoting the keys of a query does not change whether it is accepted, if no attribute that it
changes is followed by a word character. -/
theorem checkStructure_quoteKey_iff (settings : Settings) (context : Context) (query : String)
    (h : ∀ c ∈ (QuoteKey.patch query.toList).followers, isWordChar c = false) :
    checkStructure settings query = .ok () ↔
      checkStructure settings (quoteKey.apply context query).query = .ok () := by
  obtain ⟨new, hnew, hcells, hmode⟩ := QuoteKey.cells_after_patch query.toList
  have hquery : (quoteKey.apply context query).query.toList =
      (QuoteKey.patch query.toList).after := String.toList_ofList
  have hakin : Layout.Akin (layout query.toList) (Layout.ofCells new) :=
    hnew.akin fun cell hcell => Scanner.char_of_isSeparator hcell
  have hlayout : layout (QuoteKey.patch query.toList).after = Layout.ofCells new := by
    rw [layout, hcells]
  rw [checkStructure_iff_accepted, checkStructure_iff_accepted, hquery, accepted_iff_passes,
    accepted_iff_passes, hmode, hcells, hlayout, List.length_map, List.length_map]
  refine and_congr_right fun _ => and_congr (hnew.passes_iff h) (and_congr ?_ hakin.startsWithVerb)
  rw [hakin.stages.length_eq]

/-- Two keys are quoted, the first as an argument of a call; the one in a string is left. -/
theorem checkStructure_quoteKey_iff_labels :
    let query := "sort sum(labels.os.a) | filter 'labels.os.b' < fields.db.x"
    (∀ c ∈ (QuoteKey.patch query.toList).followers, isWordChar c = false) ∧
      (quoteKey.apply {} query).query =
        "sort sum(labels.\"os.a\") | filter 'labels.os.b' < fields.\"db.x\"" ∧
      (checkStructure {} query = .ok () ↔
        checkStructure {} (quoteKey.apply {} query).query = .ok ()) := by
  intro query
  have hfollowers : (QuoteKey.patch query.toList).followers = [')'] := by decide
  have hfollow : ∀ c ∈ (QuoteKey.patch query.toList).followers, isWordChar c = false := by
    rw [hfollowers, List.forall_mem_singleton]
    decide
  exact ⟨hfollow, by decide, checkStructure_quoteKey_iff _ _ _ hfollow⟩

end OpalRepair
