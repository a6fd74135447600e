import Mathlib
import OpalRepair.Pass.AlignMetric
import OpalRepair.Proofs.Characters
import OpalRepair.Proofs.Code
import OpalRepair.Proofs.Place
import OpalRepair.Proofs.Reading
import OpalRepair.Proofs.Scanning

/-!
# Metric selections

A selection never reaches over the end of its stage, so selections can be looked for in the whole
query as well as stage by stage.
-/

namespace OpalRepair.AlignMetric

open Query Text Vocabulary

/-! ## Fences -/

def Fence (behind : List Char) : Prop :=
  trimStart behind = [] ∨ ∃ rest, trimStart behind = '|' :: rest

theorem Fence.skipTo?_eq_none {behind : List Char} (h : Fence behind) : skipTo? '(' behind = none := by
  rw [skipTo?]
  rcases h with h | ⟨rest, h⟩ <;> rw [h]
  rfl

theorem Fence.head? {behind : List Char} (h : Fence behind) :
    ∀ c ∈ behind.head?, isBlank c = true ∨ c = '|' := by
  intro c hc
  cases behind with
  | nil => simp at hc
  | cons d behind =>
      obtain rfl : d = c := by simpa using hc
      by_cases hd : isBlank d = true
      · exact .inl hd
      · rw [Fence, trimStart, List.dropWhile_cons_of_neg hd] at h
        rcases h with h | ⟨rest, h⟩
        · simp at h
        · exact .inr (List.cons.inj h).1

theorem not_isNameChar_of_gap {c : Char} (h : isBlank c = true ∨ c = '|') : isNameChar c = false := by
  rcases h with h | rfl
  · exact isNameChar_of_isBlank h
  · decide

theorem skipTo?_append {c : Char} {behind : List Char} (h : skipTo? c behind = none)
    (text : List Char) : skipTo? c (text ++ behind) = (skipTo? c text).map (· ++ behind) := by
  induction text with
  | nil => simpa [skipTo?, trimStart] using h
  | cons d text ih =>
      by_cases hd : isBlank d = true
      · have hstep (rest : List Char) : skipTo? c (d :: rest) = skipTo? c rest := by
          rw [skipTo?, skipTo?, trimStart, List.dropWhile_cons_of_pos hd, trimStart]
        rw [List.cons_append, hstep, hstep, ih]
      · have hstep (rest : List Char) : skipTo? c (d :: rest) = if d = c then some rest else none := by
          rw [skipTo?, trimStart, List.dropWhile_cons_of_neg hd]
        rw [List.cons_append, hstep, hstep]
        split <;> rfl

theorem name_append {behind : List Char} (hbehind : ∀ c ∈ behind.head?, isNameChar c = false)
    (text : List Char) :
    (text ++ behind).takeWhile isNameChar = text.takeWhile isNameChar ∧
      (text ++ behind).dropWhile isNameChar = text.dropWhile isNameChar ++ behind := by
  induction text with
  | nil =>
      cases behind with
      | nil => exact ⟨rfl, rfl⟩
      | cons c behind => simp [hbehind c (by simp)]
  | cons c text ih => by_cases hc : isNameChar c = true <;> simp [hc, ih]

theorem callHead?_append {behind : List Char} (h : Fence behind) (text : List Char) :
    callHead? (text ++ behind) =
      (callHead? text).map fun call => (call.1, call.2 ++ behind) := by
  have hname := name_append (fun c hc => not_isNameChar_of_gap (h.head? c hc)) text
  rw [callHead?, callHead?, hname.1, hname.2, skipTo?_append h.skipTo?_eq_none, Option.map_map,
    Option.map_map]
  rfl

theorem fence_gap {gap after : List Cell} (hgap : ∀ cell ∈ gap, cell.isGap = true)
    (hpipe : ∀ cell ∈ gap, cell.isSeparator = true → cell.char = '|')
    (hapart : after = [] ∨ gap.any Cell.isSeparator = true) : Fence (text (gap ++ after)) := by
  induction gap with
  | nil =>
      obtain rfl : after = [] := by simpa using hapart
      exact .inl rfl
  | cons cell gap ih =>
      by_cases hblank : isBlank cell.char = true
      · have hcell : cell.isSeparator = false := by
          by_contra hseparator
          rw [hpipe cell (by simp) (by simpa using hseparator)] at hblank
          revert hblank
          decide
        have hrest : Fence (text (gap ++ after)) := by
          refine ih (fun x hx => hgap x (by simp [hx])) (fun x hx => hpipe x (by simp [hx])) ?_
          simpa [hcell] using hapart
        simpa [Fence, trimStart, hblank] using hrest
      · have hseparator : cell.isSeparator = true := by
          simpa [Cell.isGap, hblank] using hgap cell (by simp)
        refine .inr ⟨text (gap ++ after), ?_⟩
        simp [trimStart, hpipe cell (by simp) hseparator]
        decide

theorem not_fence {front rest : List Cell} {cell : Cell} (hfront : ∀ other ∈ front, other.char ≠ '|')
    (hcell : isBlank cell.char = false ∧ cell.char ≠ '|') :
    ¬ Fence (text (front ++ cell :: rest)) := by
  have hfirst {other : Cell} {row : List Cell} (hblank : isBlank other.char = false)
      (hpipe : other.char ≠ '|') : ¬ Fence (text (other :: row)) := by
    simp [Fence, trimStart, hblank, hpipe]
  induction front with
  | nil => exact hfirst hcell.1 hcell.2
  | cons other front ih =>
      cases hblank : isBlank other.char with
      | true => simpa [Fence, trimStart, hblank] using ih fun x hx => hfront x (by simp [hx])
      | false => exact hfirst hblank (hfront other (by simp))

theorem char_of_separator {query : List Char} {cell : Cell} (hcell : cell ∈ cells query)
    (hseparator : cell.isSeparator = true) : cell.char = '|' :=
  Scanner.char_of_isSeparator hcell hseparator

theorem fence_of_standing {query : List Char} {before after : List Cell} {stage : Stage}
    (h : Standing (cells query) before stage after) : Fence (text (stage.gap ++ after)) := by
  have hmem : ∀ cell ∈ stage.gap, cell ∈ cells query := by
    intro cell hcell
    rw [h.row_eq]
    simp [hcell]
  exact fence_gap h.trimmed.gap (fun cell hcell => char_of_separator (hmem cell hcell)) h.apart

/-! ## Selections of a query -/

def Free (previous : Option Char) : Prop :=
  ∀ c ∈ previous, isBlank c = true ∨ c = '|'

theorem free_of_standing {query : List Char} {before after : List Cell} {stage : Stage}
    (h : Standing (cells query) before stage after) : Free (text before).getLast? := by
  intro c hc
  rw [text, List.getLast?_map, Option.mem_def, Option.map_eq_some_iff] at hc
  obtain ⟨cell, hcell, rfl⟩ := hc
  have hmem : cell ∈ cells query := by
    rw [h.row_eq]
    simp [List.mem_of_getLast? hcell]
  rcases Bool.or_eq_true_iff.mp (h.front cell hcell) with hseparator | hblank
  · exact .inr (char_of_separator hmem hseparator)
  · exact .inl hblank

theorem Free.any_eq_false {previous : Option Char} (h : Free previous) :
    joinsWord previous = false ∧ (previous.any fun c => isNameChar c || c == '.') = false := by
  cases previous with
  | none => exact ⟨rfl, rfl⟩
  | some c =>
      have hword : isWordChar c = false := by
        rcases h c rfl with hc | rfl
        · exact isWordChar_of_isBlank hc
        · decide
      have hdot : (c == '.') = false := by
        rw [beq_eq_false_iff_ne]
        rintro rfl
        revert h
        simp [Free]
        decide
      simp [joinsWord, hword, hdot, not_isNameChar_of_gap (h c rfl)]

theorem selectionAt?_previous {previous : Option Char} (h : Free previous) (index : Nat)
    (rest : List Cell) : selectionAt? ⟨index, previous, rest⟩ = selectionAt? ⟨index, none, rest⟩ := by
  obtain ⟨hword, hpath⟩ := h.any_eq_false
  simp only [selectionAt?, Site.inLiteral, Site.startsWord, Site.continuesPath, hword, hpath]
  rfl

theorem selectionAt?_append {behind : List Cell} (h : Fence (text behind)) (index : Nat)
    (previous : Option Char) (cell : Cell) (rest : List Cell) :
    selectionAt? ⟨index, previous, (cell :: rest) ++ behind⟩ =
      selectionAt? ⟨index, previous, cell :: rest⟩ := by
  have hskip : (Site.inLiteral ⟨index, previous, (cell :: rest) ++ behind⟩ ||
      !Site.startsWord ⟨index, previous, (cell :: rest) ++ behind⟩ ||
      Site.continuesPath ⟨index, previous, (cell :: rest) ++ behind⟩) =
      (Site.inLiteral ⟨index, previous, cell :: rest⟩ ||
      !Site.startsWord ⟨index, previous, cell :: rest⟩ ||
      Site.continuesPath ⟨index, previous, cell :: rest⟩) := rfl
  rw [selectionAt?, selectionAt?, hskip, text_append, callHead?_append h, Option.bind_map]
  have hsize (call : List Char × List Char) :
      ((cell :: rest) ++ behind).length - (call.2 ++ text behind).length =
        (cell :: rest).length - call.2.length := by
    simp [text]
    omega
  simp only [Function.comp_def, hsize]

theorem selectionAt?_of_gap {cell : Cell} (h : isBlank cell.char = true ∨ cell.char = '|')
    (index : Nat) (previous : Option Char) (rest : List Cell) :
    selectionAt? ⟨index, previous, cell :: rest⟩ = none := by
  rw [selectionAt?]
  split
  · rfl
  · have hname : (text (cell :: rest)).takeWhile isNameChar = [] := by
      simp [not_isNameChar_of_gap h]
    rw [callHead?, hname]
    cases skipTo? '(' ((text (cell :: rest)).dropWhile isNameChar) with
    | none => rfl
    | some inside =>
        simp only [Option.map_some, Option.bind_some]
        rw [if_neg (by decide)]

def Selection.shift (offset : Nat) (selection : Selection) : Selection :=
  { selection with start := offset + selection.start }

theorem selectionAt?_shift (offset index : Nat) (previous : Option Char) (rest : List Cell) :
    selectionAt? ⟨offset + index, previous, rest⟩ =
      (selectionAt? ⟨index, previous, rest⟩).map (Selection.shift offset) := by
  simp only [selectionAt?, Site.inLiteral, Site.startsWord, Site.continuesPath]
  split
  · rfl
  · cases callHead? (text rest) with
    | none => rfl
    | some call =>
        simp only [Option.bind_some]
        split <;> rfl

section Sites

variable {index : Nat} {previous : Option Char}

theorem selections_body {behind : List Cell} (h : Fence (text behind)) (row : List Cell) :
    (sitesFrom index previous (row ++ behind)).filterMap selectionAt? =
      (sitesFrom index previous row).filterMap selectionAt? ++
        (sitesFrom (index + row.length) ((text row).getLast?.or previous) behind).filterMap
          selectionAt? := by
  induction row generalizing index previous with
  | nil => simp [sitesFrom]
  | cons cell row ih =>
      have hlast : (text (cell :: row)).getLast?.or previous =
          (text row).getLast?.or (some cell.char) := by
        cases hrow : (text row).getLast? with
        | none =>
            obtain rfl : row = [] := by simpa [text] using hrow
            rfl
        | some c => simp [List.getLast?_cons, hrow]
      have hindex : index + (cell :: row).length = index + 1 + row.length := by
        simp
        omega
      rw [List.cons_append, sitesFrom, sitesFrom, List.filterMap_cons, List.filterMap_cons,
        ← List.cons_append, selectionAt?_append h, ih, hlast, hindex]
      cases selectionAt? ⟨index, previous, cell :: row⟩ <;> rfl

theorem selections_gap {gap : List Cell} (hgap : ∀ cell ∈ gap, isBlank cell.char = true ∨ cell.char = '|')
    (behind : List Cell) :
    (sitesFrom index previous (gap ++ behind)).filterMap selectionAt? =
      (sitesFrom (index + gap.length) ((text gap).getLast?.or previous) behind).filterMap
        selectionAt? := by
  induction gap generalizing index previous with
  | nil => rfl
  | cons cell gap ih =>
      have hlast : (text (cell :: gap)).getLast?.or previous =
          (text gap).getLast?.or (some cell.char) := by
        cases hrow : (text gap).getLast? with
        | none =>
            obtain rfl : gap = [] := by simpa [text] using hrow
            rfl
        | some c => simp [List.getLast?_cons, hrow]
      have hindex : index + (cell :: gap).length = index + 1 + gap.length := by
        simp
        omega
      rw [List.cons_append, sitesFrom, List.filterMap_cons, selectionAt?_of_gap (hgap cell (by simp)),
        ih fun x hx => hgap x (by simp [hx]), hlast, hindex]

theorem selections_shift (hprevious : Free previous) (offset : Nat) (row : List Cell) :
    (sitesFrom offset previous row).filterMap selectionAt? =
      ((sites row).filterMap selectionAt?).map (Selection.shift offset) := by
  have hshift (index : Nat) (previous : Option Char) (row : List Cell) :
      (sitesFrom (offset + index) previous row).filterMap selectionAt? =
        ((sitesFrom index previous row).filterMap selectionAt?).map (Selection.shift offset) := by
    induction row generalizing index previous with
    | nil => rfl
    | cons cell row ih =>
        rw [sitesFrom, sitesFrom, List.filterMap_cons, List.filterMap_cons, selectionAt?_shift,
          Nat.add_assoc, ih]
        cases selectionAt? ⟨index, previous, cell :: row⟩ <;> rfl
  rw [← Nat.add_zero offset, hshift, Nat.add_zero]
  cases row with
  | nil => rfl
  | cons cell row =>
      rw [sites, sitesFrom, sitesFrom, List.filterMap_cons, List.filterMap_cons,
        selectionAt?_previous hprevious]

end Sites

theorem gap_chars {gap : List Cell} (hgap : ∀ cell ∈ gap, cell.isGap = true)
    (hpipe : ∀ cell ∈ gap, cell.isSeparator = true → cell.char = '|') :
    ∀ cell ∈ gap, isBlank cell.char = true ∨ cell.char = '|' := by
  intro cell hcell
  rcases Bool.or_eq_true_iff.mp (hgap cell hcell) with h | h
  · exact .inr (hpipe cell hcell h)
  · exact .inl h

theorem selections_placesFrom {before : List Cell} {stages : List Stage} {previous : Option Char}
    (hstages : Stage.Apart stages)
    (hpipe : ∀ cell ∈ stages.flatMap Stage.cells, cell.isSeparator = true → cell.char = '|')
    (hprevious : Free previous) :
    (sitesFrom before.length previous (stages.flatMap Stage.cells)).filterMap selectionAt? =
      (placesFrom before stages).flatMap fun place =>
        (selections place.2).map (Selection.shift place.1.length) := by
  induction stages generalizing before previous with
  | nil => rfl
  | cons stage stages ih =>
      obtain ⟨htrimmed, hapart, hrest⟩ := hstages
      have hpipeGap : ∀ cell ∈ stage.gap, cell.isSeparator = true → cell.char = '|' :=
        fun cell hcell => hpipe cell (by simp [Stage.cells, hcell])
      have hchars := gap_chars htrimmed.gap hpipeGap
      have hfence : Fence (text (stage.gap ++ stages.flatMap Stage.cells)) :=
        fence_gap htrimmed.gap hpipeGap (hapart.imp (fun h => by simp [h]) id)
      have hbody : (sitesFrom before.length previous stage.body).filterMap selectionAt? =
          (selections stage).map (Selection.shift before.length) :=
        selections_shift hprevious before.length stage.body
      rw [List.flatMap_cons, Stage.cells, List.append_assoc, selections_body hfence, placesFrom,
        List.flatMap_cons, selections_gap hchars]
      refine congrArg₂ (· ++ ·) hbody ?_
      rcases hapart with rfl | hapart
      · rfl
      · have hindex : before.length + stage.body.length + stage.gap.length =
            (before ++ stage.cells).length := by
          simp [Stage.cells, Nat.add_assoc]
        rw [hindex]
        refine ih hrest (fun cell hcell => hpipe cell (List.mem_append_right _ hcell)) ?_
        obtain ⟨front, cell, hgap⟩ : ∃ front cell, stage.gap = front ++ [cell] := by
          rcases stage.gap.eq_nil_or_concat' with hnil | hcons
          · simp [hnil] at hapart
          · exact hcons
        intro c hc
        obtain rfl : cell.char = c := by simpa [hgap] using hc
        exact hchars cell (by simp [hgap])

theorem selections_query (query : List Char) :
    (sites (cells query)).filterMap selectionAt? =
      (places query).flatMap fun place =>
        (selections place.2).map (Selection.shift place.1.length) := by
  have hcells : (layout query).lead ++ (layout query).stages.flatMap Stage.cells = cells query :=
    Layout.cells_ofCells _
  have hpipe : ∀ cell ∈ (layout query).lead ++ (layout query).stages.flatMap Stage.cells,
      cell.isSeparator = true → cell.char = '|' := by
    rw [hcells]
    exact fun cell hcell => char_of_separator hcell
  have hlead : ∀ cell ∈ (layout query).lead, isBlank cell.char = true ∨ cell.char = '|' :=
    gap_chars (Layout.gap_lead (cells query))
      fun cell hcell => hpipe cell (List.mem_append_left _ hcell)
  have hfree : Free ((text (layout query).lead).getLast?.or none) := by
    intro c hc
    rw [Option.or_none, text, List.getLast?_map, Option.mem_def, Option.map_eq_some_iff] at hc
    obtain ⟨cell, hcell, rfl⟩ := hc
    exact hlead cell (List.mem_of_getLast? hcell)
  rw [sites, ← hcells, selections_gap hlead, Nat.zero_add]
  exact selections_placesFrom (Layout.apart (cells query))
    (fun cell hcell => hpipe cell (List.mem_append_right _ hcell)) hfree

theorem isNameChar_of_metricSelector {name : List Char}
    (h : metricSelectors.contains (String.ofList name) = true) :
    name ≠ [] ∧ ∀ c ∈ name, isNameChar c = true := by
  have hname : name = "m".toList ∨ name = "m_tdigest".toList := by
    simp only [metricSelectors, List.contains_cons, List.contains_nil, Bool.or_false, Bool.or_eq_true,
      beq_iff_eq] at h
    exact h.imp (fun h => by rw [← h, String.toList_ofList]) fun h => by rw [← h, String.toList_ofList]
  rcases hname with rfl | rfl <;> simp <;> decide

theorem row_of_callHead? {row : List Cell} {name rest : List Char}
    (h : callHead? (text row) = some (name, rest)) :
    ∃ head paren arguments blanks, row = head ++ paren :: arguments ∧ paren.char = '(' ∧
      text arguments = rest ∧ (∀ b ∈ blanks, isBlank b = true) ∧ text head = name ++ blanks ∧
      row.length - rest.length = head.length + 1 := by
  obtain ⟨-, blanks, hblanks, htext⟩ := callHead?_eq h
  obtain ⟨head, back, rfl, hhead, hback⟩ := row_of_text htext
  obtain ⟨paren, arguments, rfl, hparen, harguments⟩ := row_of_text_cons hback
  refine ⟨head, paren, arguments, blanks, rfl, hparen, harguments, hblanks, hhead, ?_⟩
  rw [← harguments]
  simp [text]
  omega

theorem selectionAt?_eq_some {site : Site} {selection : Selection}
    (h : selectionAt? site = some selection) :
    site.inLiteral = false ∧ selection.start = site.index ∧
      metricSelectors.contains selection.selector = true ∧
      ∃ head paren arguments blanks, site.rest = head ++ paren :: arguments ∧ paren.char = '(' ∧
        (∀ b ∈ blanks, isBlank b = true) ∧ text head = selection.selector.toList ++ blanks ∧
        selection.size = head.length + 1 := by
  rw [selectionAt?] at h
  split at h
  · simp at h
  rename_i hskip
  simp only [Bool.or_eq_true, not_or, Bool.not_eq_true] at hskip
  obtain ⟨⟨name, rest⟩, hcall, h⟩ := Option.bind_eq_some_iff.mp h
  dsimp only at h
  split at h
  · rename_i hselector
    obtain rfl := Option.some.inj h
    obtain ⟨head, paren, arguments, blanks, hrow, hparen, -, hblanks, hhead, hsize⟩ :=
      row_of_callHead? hcall
    exact ⟨hskip.1.1, rfl, hselector, head, paren, arguments, blanks, hrow, hparen, hblanks,
      by rw [hhead, String.toList_ofList], hsize⟩
  · simp at h

/-! ## Names and enclosing calls -/

theorem quotedName?_eq {arguments name : List Char} (h : quotedName? arguments = some name) :
    ∃ blanks quote spaces, (∀ c ∈ blanks, isBlank c = true) ∧ (quote = '"' ∨ quote = '\'') ∧
      (∀ c ∈ spaces, isBlank c = true) ∧ (∀ c ∈ name, c ≠ quote) ∧ name ≠ [] ∧
      arguments = blanks ++ quote :: (name ++ quote :: spaces) := by
  obtain ⟨blanks, hblanks, htrim⟩ := exists_blanks arguments
  rw [quotedName?] at h
  split at h
  · simp at h
  rename_i quote rest hrest
  dsimp only at h
  rw [drop_length_takeWhile] at h
  split at h
  · rename_i hquoted
    obtain rfl := Option.some.inj h
    simp only [Bool.and_eq_true, Bool.or_eq_true, beq_iff_eq, Bool.not_eq_true',
      List.isEmpty_eq_false_iff] at hquoted
    obtain ⟨⟨hquote, hname⟩, htail⟩ := hquoted
    obtain ⟨spaces, hspaces, hback⟩ := exists_trailing isBlank (rest.dropWhile (· != quote))
    rw [← trimEnd, htail] at hback
    refine ⟨blanks, quote, spaces, hblanks, hquote, hspaces, ?_, hname, ?_⟩
    · intro c hc
      simpa using List.mem_takeWhile_imp hc
    · rw [htrim, hrest, ← List.singleton_append (x := quote) (l := spaces), ← hback,
        List.takeWhile_append_dropWhile]
  · simp at h

theorem isSeparator_of_quotedName? {query : List Char} {before inside after : List Cell}
    {paren : Cell} (hcells : cells query = before ++ paren :: (inside ++ after))
    (hparen : paren.isCode '(' = true) {name : List Char}
    (hname : quotedName? (text inside) = some name) : ∀ cell ∈ inside, cell.isSeparator = false := by
  obtain ⟨blanks, quote, spaces, hblanks, hquote, hspaces, hchars, -, htext⟩ := quotedName?_eq hname
  obtain ⟨lead, rest, rfl, hlead, hrest⟩ := row_of_text htext
  obtain ⟨opening, rest, rfl, hopening, hrest⟩ := row_of_text_cons hrest
  obtain ⟨names, rest, rfl, hnames, hrest⟩ := row_of_text hrest
  obtain ⟨closing, tail, rfl, hclosing, htail⟩ := row_of_text_cons hrest
  have hmem {row : List Cell} {cell : Cell} (hcell : cell ∈ row) : cell.char ∈ text row :=
    List.mem_map_of_mem hcell
  have hleadBlank : ∀ cell ∈ lead, isBlank cell.char = true :=
    fun cell hcell => hblanks _ (hlead ▸ hmem hcell)
  have hcontent : ∀ cell ∈ names, cell.isSeparator = false := by
    have hsplit : cells query = before ++ paren :: (lead ++ opening ::
        (names ++ (closing :: tail ++ after))) := by
      rw [hcells]
      simp
    refine isSeparator_of_quoted hsplit hparen hleadBlank (by rw [hopening]; exact hquote) ?_
    intro cell hcell
    rw [hopening]
    exact hchars _ (hnames ▸ hmem hcell)
  -- all other characters are blanks or quotes
  have hother {cell : Cell} (hcell : cell ∈ lead ++ opening :: (names ++ closing :: tail))
      (hchar : isBlank cell.char = true ∨ cell.char = quote) : cell.isSeparator = false := by
    by_contra hseparator
    have hpipe : cell.char = '|' := by
      refine char_of_separator (show cell ∈ cells query from ?_) (by simpa using hseparator)
      rw [hcells]
      simp only [List.mem_append, List.mem_cons]
      simp only [List.mem_append, List.mem_cons] at hcell
      tauto
    rcases hchar with hchar | hchar
    · rw [hpipe] at hchar
      revert hchar
      decide
    · rw [hpipe] at hchar
      rcases hquote with hquote | hquote <;> simp [hquote] at hchar
  intro cell hcell
  have hcases := hcell
  simp only [List.mem_append, List.mem_cons] at hcases
  rcases hcases with h | rfl | h | rfl | h
  · exact hother hcell (.inl (hleadBlank cell h))
  · exact hother hcell (.inr hopening)
  · exact hcontent cell h
  · exact hother hcell (.inr hclosing)
  · exact hother hcell (.inl (hspaces _ (htail ▸ hmem h)))

theorem getLast?_dropWhile {α : Type} {p : α → Bool} {xs : List α} {x : α}
    (hx : xs.getLast? = some x) (hp : p x = false) : (xs.dropWhile p).getLast? = some x := by
  induction xs with
  | nil => simp at hx
  | cons y xs ih =>
      cases hy : p y with
      | false => simpa [hy] using hx
      | true =>
          rw [List.dropWhile_cons_of_pos hy]
          refine ih ?_
          cases xs with
          | nil =>
              obtain rfl : y = x := by simpa using hx
              simp [hp] at hy
          | cons z xs => rwa [List.getLast?_cons_cons] at hx

/-- The name that a parenthesis calls, when `rest` is read backwards from there. -/
def calledBefore? (rest : List Char) : Option (List Char × List Char) :=
  let word := rest.dropWhile isBlank
  let front := word.dropWhile isNameChar
  if (word.takeWhile isNameChar).isEmpty || front.head?.any isAlphanumeric then none
  else some (front.reverse, (word.takeWhile isNameChar).reverse)

theorem calledBefore?_eq {rest front name : List Char} (h : calledBefore? rest = some (front, name)) :
    ∃ gap, rest.reverse = front ++ name ++ gap ∧ (∀ c ∈ gap, isBlank c = true) ∧ name ≠ [] ∧
      (∀ c ∈ name, isNameChar c = true) ∧ ∀ c ∈ front.getLast?, isNameChar c = false := by
  rw [calledBefore?] at h
  split at h
  · simp at h
  rename_i hcalled
  simp only [Bool.or_eq_true, not_or, List.isEmpty_iff] at hcalled
  obtain ⟨rfl, rfl⟩ := Prod.mk.inj (Option.some.inj h)
  refine ⟨(rest.takeWhile isBlank).reverse, ?_, ?_, by simpa using hcalled.1, ?_, ?_⟩
  · rw [← List.reverse_append, ← List.reverse_append, List.takeWhile_append_dropWhile,
      List.takeWhile_append_dropWhile]
  · intro c hc
    exact List.mem_takeWhile_imp (List.mem_reverse.mp hc)
  · intro c hc
    exact List.mem_takeWhile_imp (List.mem_reverse.mp hc)
  · intro c hc
    rw [List.getLast?_reverse] at hc
    have := List.head?_dropWhile_not isNameChar (rest.dropWhile isBlank)
    rw [Option.mem_def.mp hc] at this
    simpa using this

theorem enclosingCall?_of_paren {text rest : List Char}
    (h : text.reverse.dropWhile isBlank = '(' :: rest) : enclosingCall? text = calledBefore? rest := by
  rw [enclosingCall?, h]
  rfl

theorem enclosingCall?_of_ne {text : List Char}
    (h : (text.reverse.dropWhile isBlank).head? ≠ some '(') : enclosingCall? text = none := by
  rw [enclosingCall?]
  split
  · rename_i heq
    simp [heq] at h
  · rfl

theorem enclosingCall?_append {front text : List Char} (hfront : Free front.getLast?)
    (htext : ∃ c ∈ text.head?, isBlank c = false ∧ c ≠ '(') :
    enclosingCall? (front ++ text) =
      (enclosingCall? text).map fun call => (front ++ call.1, call.2) := by
  obtain ⟨c, hc, hblank, hparen⟩ := htext
  have hlast : text.reverse.getLast? = some c := by rw [List.getLast?_reverse]; exact hc
  have hcore := getLast?_dropWhile hlast hblank
  have hboth : (front ++ text).reverse.dropWhile isBlank =
      text.reverse.dropWhile isBlank ++ front.reverse := by
    rw [List.reverse_append, List.dropWhile_append, if_neg]
    rw [List.isEmpty_iff]
    intro hnil
    simp [hnil] at hcore
  by_cases hhead : (text.reverse.dropWhile isBlank).head? = some '('
  · obtain ⟨rest, hrest⟩ := List.head?_eq_some_iff.mp hhead
    rw [hrest] at hcore hboth
    rw [List.cons_append] at hboth
    rw [enclosingCall?_of_paren hrest, enclosingCall?_of_paren hboth]
    have hlast' : rest.getLast? = some c := by
      cases rest with
      | nil => simp [Ne.symm hparen] at hcore
      | cons e rest => rwa [List.getLast?_cons_cons] at hcore
    have hname := getLast?_dropWhile hlast' hblank
    have hfree : ∀ c ∈ front.reverse.head?, isBlank c = true ∨ c = '|' := by
      rw [List.head?_reverse]
      exact hfront
    have hword : (rest ++ front.reverse).dropWhile isBlank =
        rest.dropWhile isBlank ++ front.reverse := by
      rw [List.dropWhile_append, if_neg]
      rw [List.isEmpty_iff]
      intro hnil
      simp [hnil] at hname
    have hsplit := name_append (fun c hc => not_isNameChar_of_gap (hfree c hc))
      (rest.dropWhile isBlank)
    have hscript : ((rest.dropWhile isBlank).dropWhile isNameChar ++ front.reverse).head?.any
        isAlphanumeric = ((rest.dropWhile isBlank).dropWhile isNameChar).head?.any isAlphanumeric := by
      cases (rest.dropWhile isBlank).dropWhile isNameChar with
      | cons f rest => rfl
      | nil =>
          cases hhead : front.reverse.head? with
          | none => simp [hhead]
          | some f =>
              have hf : isAlphanumeric f = false := by
                rcases hfree f hhead with hf | rfl
                · exact isAlphanumeric_of_isBlank hf
                · decide
              simp [hhead, hf]
    simp only [calledBefore?, hword, hsplit.1, hsplit.2, hscript]
    split <;> simp
  · have hhead' : ((front ++ text).reverse.dropWhile isBlank).head? ≠ some '(' := by
      rw [hboth]
      cases hdrop : text.reverse.dropWhile isBlank with
      | nil => simp [hdrop] at hcore
      | cons d rest => simpa [hdrop] using hhead
    rw [enclosingCall?_of_ne hhead, enclosingCall?_of_ne hhead']
    rfl

/-! ## Aggregates -/

theorem aggregationVerbs_apart : aggregationVerbs.all (fun verb =>
    !functions.contains verb && !metricSelectors.contains verb) = true := by decide +kernel

theorem not_function_of_aggregation {verb : String} (h : aggregationVerbs.contains verb = true) :
    functions.contains verb = false ∧ metricSelectors.contains verb = false := by
  have hapart := List.all_eq_true.mp aggregationVerbs_apart verb (List.contains_iff_mem.mp h)
  simpa using hapart

theorem takeWhile_called {name blanks : List Char} (hname : ∀ c ∈ name, isNameChar c = true)
    (hblanks : ∀ b ∈ blanks, isBlank b = true) (rest : List Char) :
    (name ++ (blanks ++ '(' :: rest)).takeWhile isNameChar = name := by
  have hbehind : ∀ c ∈ (blanks ++ '(' :: rest).head?, isNameChar c = false := by
    intro c hc
    cases blanks with
    | nil =>
        obtain rfl : '(' = c := by simpa using hc
        decide
    | cons b blanks =>
        obtain rfl : b = c := by simpa using hc
        exact isNameChar_of_isBlank (hblanks b (by simp))
  rw [(name_append hbehind name).1, List.takeWhile_eq_self_iff.mpr hname]

/-- A text that starts with another name than the one called in it has that name in front of the
call. -/
theorem front_of_run {text front name gap rest run : List Char}
    (htext : text = front ++ (name ++ (gap ++ '(' :: rest)))
    (hrun : text.takeWhile isNameChar = run) (hname : ∀ c ∈ name, isNameChar c = true)
    (hgap : ∀ c ∈ gap, isBlank c = true) (hfront : ∀ c ∈ front.getLast?, isNameChar c = false)
    (hother : name ≠ run) : ∃ more, front = run ++ more := by
  rcases front.eq_nil_or_concat' with rfl | ⟨start, c, rfl⟩
  · rw [htext, List.nil_append, takeWhile_called hname hgap] at hrun
    exact absurd hrun hother
  · have hc : isNameChar c = false := hfront c (by simp)
    have hstart : text.takeWhile isNameChar = start.takeWhile isNameChar := by
      rw [htext, List.append_assoc, List.singleton_append]
      exact (name_append (by simpa using hc) start).1
    refine ⟨start.dropWhile isNameChar ++ [c], ?_⟩
    rw [← hrun, hstart, ← List.append_assoc, List.takeWhile_append_dropWhile]

theorem front_of_verb {text front name gap rest : List Char} {verb : String}
    (htext : text = front ++ (name ++ (gap ++ '(' :: rest)))
    (hverb : text.takeWhile isNameChar = verb.toList)
    (haggregation : aggregationVerbs.contains verb = true)
    (hname : ∀ c ∈ name, isNameChar c = true) (hgap : ∀ c ∈ gap, isBlank c = true)
    (hfront : ∀ c ∈ front.getLast?, isNameChar c = false)
    (hfunction : functions.contains (String.ofList name) = true) :
    ∃ more, front = verb.toList ++ more := by
  refine front_of_run htext hverb hname hgap hfront ?_
  rintro rfl
  rw [String.ofList_toList, (not_function_of_aggregation haggregation).1] at hfunction
  simp at hfunction

theorem alignAggregate?_none {verb : String} {call : Call}
    (h : enclosingCall? (text call.before) = none) : alignAggregate? verb call = none := by
  rw [alignAggregate?, h]

theorem alignAggregate?_not_function {verb : String} {call : Call} {front name : List Char}
    (h : enclosingCall? (text call.before) = some (front, name))
    (hfunction : (functions.contains (String.ofList name) &&
      !metricSelectors.contains (String.ofList name)) = false) : alignAggregate? verb call = none := by
  rw [alignAggregate?, h]
  split
  · rename_i heq _
    obtain ⟨-, rfl⟩ := Prod.mk.inj (Option.some.inj heq)
    exact if_neg (by rw [hfunction]; simp)
  · rfl

theorem alignAggregate?_not_closed {verb : String} {call : Call}
    (h : ∀ rest, trimStart call.after ≠ ')' :: rest) : alignAggregate? verb call = none := by
  rw [alignAggregate?]
  split
  · rename_i heq
    exact absurd heq (h _)
  · rfl

theorem alignAggregate?_closed {verb : String} {call : Call} {front name rest : List Char}
    (h : enclosingCall? (text call.before) = some (front, name))
    (hfunction : (functions.contains (String.ofList name) &&
      !metricSelectors.contains (String.ofList name)) = true)
    (hclosed : trimStart call.after = ')' :: rest) :
    alignAggregate? verb call = some (alignStage name call
      ++ (if verb = "statsby" then "aggregate" else verb).toList ++ front.drop verb.length ++ name
      ++ ['('] ++ call.column ++ [')'] ++ rest) := by
  rw [alignAggregate?, h, hclosed]
  exact if_pos hfunction

def Closed (back : List Cell) : Prop :=
  ∃ blanks close rest, back = blanks ++ close :: rest ∧
    (∀ cell ∈ blanks, isBlank cell.char = true) ∧ close.isCode ')' = true

end OpalRepair.AlignMetric
