import Mathlib
import OpalRepair.Proofs.Bracket
import OpalRepair.Proofs.Bytes.Match
import OpalRepair.Proofs.Bytes.Stage
import OpalRepair.Proofs.Characters
import OpalRepair.Proofs.Code
import OpalRepair.Proofs.Reading

/-!
# Conditional counts by byte offsets

The counts of a query are found by a pattern, and their edits may lie anywhere.  Byte offsets order
and place them like positions do.
-/

namespace OpalRepair.Bytes

open Query Text Vocabulary

/-! ## Edits at positions -/

def spanBytes (query : List Char) (span : Span) : Span :=
  ⟨offsetOf query span.start, offsetOf query span.stop⟩

def editBytes (query : List Char) (edit : Edit) : Edit :=
  ⟨spanBytes query edit.span, edit.replacement⟩

def Within (query : List Char) (span : Span) : Prop :=
  span.start ≤ span.stop ∧ span.stop ≤ query.length

section Positions

variable {query : List Char}

theorem le_editBytes {a b : Edit} (ha : Within query a.span) (hb : Within query b.span) :
    (editBytes query a).le (editBytes query b) = a.le b := by
  obtain ⟨ha, ha'⟩ := ha
  obtain ⟨hb, hb'⟩ := hb
  have hlt := offsetOf_lt_iff (a := a.span.start) (Nat.le_trans hb hb')
  have hge := offsetOf_lt_iff (a := b.span.start) (Nat.le_trans ha ha')
  have hstop := offsetOf_le_iff (b := b.span.stop) ha'
  rw [Bool.eq_iff_iff, le_iff, le_iff]
  simp only [editBytes, spanBytes]
  omega

theorem insertSorted_editBytes {edit : Edit} {edits : List Edit} (hedit : Within query edit.span)
    (hedits : ∀ other ∈ edits, Within query other.span) :
    Edit.insertSorted (editBytes query edit) (edits.map (editBytes query)) =
      (Edit.insertSorted edit edits).map (editBytes query) := by
  induction edits with
  | nil => rfl
  | cons other edits ih =>
      rw [List.map_cons, Edit.insertSorted, Edit.insertSorted,
        le_editBytes hedit (hedits other (by simp)), ih fun x hx => hedits x (by simp [hx])]
      split <;> rfl

theorem mem_insertSorted {edit other : Edit} {edits : List Edit}
    (h : other ∈ Edit.insertSorted edit edits) : other = edit ∨ other ∈ edits := by
  induction edits with
  | nil => simpa [Edit.insertSorted] using h
  | cons first edits ih =>
      rw [Edit.insertSorted] at h
      split at h
      · simpa using h
      · rcases List.mem_cons.mp h with rfl | h
        · simp
        · rcases ih h with rfl | h <;> simp [*]

theorem mem_sort {edit : Edit} {edits : List Edit} (h : edit ∈ Edit.sort edits) : edit ∈ edits := by
  induction edits with
  | nil => simp [Edit.sort] at h
  | cons first edits ih =>
      rcases mem_insertSorted h with rfl | h
      · simp
      · simp [ih h]

theorem sort_editBytes {edits : List Edit} (hedits : ∀ edit ∈ edits, Within query edit.span) :
    Edit.sort (edits.map (editBytes query)) = (Edit.sort edits).map (editBytes query) := by
  induction edits with
  | nil => rfl
  | cons edit edits ih =>
      have hrest : ∀ other ∈ edits, Within query other.span := fun x hx => hedits x (by simp [hx])
      change Edit.insertSorted (editBytes query edit) (Edit.sort (edits.map _)) = _
      rw [ih hrest, insertSorted_editBytes (hedits edit (by simp)) fun x hx => hrest x (mem_sort hx)]
      rfl

theorem spliceFrom?_editBytes {cursor : Nat} (hcursor : cursor ≤ query.length) {edits : List Edit}
    (hedits : ∀ edit ∈ edits, Within query edit.span) :
    spliceFrom? query (offsetOf query cursor) (edits.map (editBytes query)) =
      some (Edit.applyFrom cursor (query.drop cursor) edits) := by
  induction edits generalizing cursor with
  | nil => exact sliceFrom?_eq (query.take cursor) _ (List.take_append_drop _ _).symm rfl
  | cons edit edits ih =>
      have hrest : ∀ other ∈ edits, Within query other.span := fun x hx => hedits x (by simp [hx])
      obtain ⟨hstart, hstop⟩ := hedits edit (by simp)
      have hlt : (editBytes query edit).span.start < offsetOf query cursor ↔
          edit.span.start < cursor := offsetOf_lt_iff hcursor
      rw [List.map_cons, spliceFrom?, Edit.applyFrom]
      by_cases hbehind : edit.span.start < cursor
      · rw [if_pos (hlt.mpr hbehind), if_pos hbehind, ih hcursor hrest]
      · have hle := Nat.le_of_not_lt hbehind
        have hkept : slice? query (offsetOf query cursor) (editBytes query edit).span.start =
            some ((query.drop cursor).take (edit.span.start - cursor)) := slice?_offsetOf hle
        have hnext : spliceFrom? query (editBytes query edit).span.stop (edits.map (editBytes query)) =
            some (Edit.applyFrom edit.span.stop (query.drop edit.span.stop) edits) := ih hstop hrest
        have hdrop : (query.drop cursor).drop (edit.span.stop - cursor) = query.drop edit.span.stop := by
          rw [List.drop_drop, Nat.add_sub_cancel' (Nat.le_trans hle hstart)]
        rw [if_neg (hlt.not.mpr hbehind), if_neg hbehind, hkept, hnext, hdrop]
        rfl

theorem splice?_editBytes {edits : List Edit} (hedits : ∀ edit ∈ edits, Within query edit.span) :
    splice? query (edits.map (editBytes query)) = some (Edit.splice query edits) := by
  rw [splice?, sort_editBytes hedits]
  exact spliceFrom?_editBytes (Nat.zero_le _) fun edit hedit => hedits edit (mem_sort hedit)

/-! ## Stages at positions -/

def placePositions (place : List Cell × Stage) : Span :=
  ⟨place.1.length, place.1.length + place.2.body.length⟩

theorem spans_length_placesFrom (before : List Cell) (stages : List Stage) :
    Stage.spans List.length before.length stages =
      (placesFrom before stages).map placePositions := by
  induction stages generalizing before with
  | nil => rfl
  | cons stage stages ih =>
      rw [Stage.spans, placesFrom, List.map_cons, ← ih]
      simp [placePositions, Stage.cells, Nat.add_assoc]

theorem spans_length (query : List Char) :
    (layout query).spans List.length = (places query).map placePositions :=
  spans_length_placesFrom _ _

theorem length_cells (query : List Char) : (cells query).length = query.length := by
  conv_rhs => rw [← text_cells query]
  simp [text]

theorem within_place {place : List Cell × Stage} (h : place ∈ places query) :
    Within query (placePositions place) := by
  obtain ⟨after, hafter⟩ := cells_of_mem_places h
  have hlength := congrArg List.length hafter
  rw [length_cells] at hlength
  simp at hlength
  exact ⟨by simp [placePositions], by simp [placePositions]; omega⟩

theorem offsetOf_cells (before row : List Cell) (hcells : cells query = before ++ row) :
    offsetOf query before.length = byteSize (text before) := by
  have hquery : query = text before ++ text row := by rw [← text_cells query, hcells, text_append]
  have hlength : before.length = (text before).length := by simp [text]
  rw [hlength, hquery, offsetOf_append]

theorem spanBytes_place {place : List Cell × Stage} (h : place ∈ places query) :
    spanBytes query (placePositions place) = placeSpan place := by
  obtain ⟨after, hafter⟩ := cells_of_mem_places h
  have hstart := offsetOf_cells place.1 (place.2.body ++ after) (by simpa using hafter)
  have hstop := offsetOf_cells (place.1 ++ place.2.body) after hafter
  simp only [List.length_append, text_append, byteSize_append] at hstop
  rw [spanBytes, placePositions, placeSpan, hstart, hstop]

theorem contains_iff (span : Span) (position : Nat) :
    span.contains position = true ↔ span.start ≤ position ∧ position < span.stop := by
  simp [Span.contains]

theorem contains_place {place : List Cell × Stage} (h : place ∈ places query) (position : Nat) :
    (placeSpan place).contains (offsetOf query position) =
      (placePositions place).contains position := by
  obtain ⟨hstart, hstop⟩ := within_place h
  rw [← spanBytes_place h, Bool.eq_iff_iff, contains_iff, contains_iff, spanBytes,
    offsetOf_le_iff (Nat.le_trans hstart hstop), offsetOf_lt_iff hstop]

theorem findIdx?_stages (position : Nat) :
    (view query).stages.findIdx? (·.contains (offsetOf query position)) =
      ((layout query).spans List.length).findIdx? (·.contains position) := by
  have hcontains (places' : List (List Cell × Stage)) (h : ∀ place ∈ places', place ∈ places query) :
      (places'.map placeSpan).findIdx? (·.contains (offsetOf query position)) =
        (places'.map placePositions).findIdx? (·.contains position) := by
    induction places' with
    | nil => rfl
    | cons place places' ih =>
        rw [List.map_cons, List.map_cons, List.findIdx?_cons, List.findIdx?_cons,
          contains_place (h place (by simp)), ih fun x hx => h x (by simp [hx])]
  rw [stages_view, spans_length]
  exact hcontains _ fun _ h => h

end Positions

/-! ## Counts -/

def readCount? (previous : Option Char) (text : List Char) : Option (List Char × List Char) :=
  if joinsWord previous then none
  else (FlagCount.countHead? text).map fun (label, arguments) =>
    (text.take (text.length - arguments.length), label)

def aggregation? (query : List Char) (view : View) (offset : Nat) : Option (Option Nat) :=
  (view.stages.findIdx? (·.contains offset)).elim (some none) fun number => do
    let span ← view.stages[number]?
    let verb ← stageVerb? query span
    some (if verb.any aggregationVerbs.contains then some number else none)

def countAt? (query : List Char) (view : View) (found : Match (List Char)) :
    Option (Option FlagCount.Count) := do
  let inPath ← continuesPath? query found.start
  if view.inLiteral found.start || inPath then some none
  else
    let stage? ← aggregation? query view found.start
    stage?.elim (some none) fun stage => do
      let opening ← sub? found.stop 1
      let closing? ← matchingParen? query view opening
      closing?.elim (some none) fun closing => do
        let condition ← (slice? query (opening + 1) closing).map trim
        some (if condition.isEmpty then none
          else some ⟨stage, ⟨found.start, closing + 1⟩, found.parts, condition⟩)

def countChange? (query : List Char) (count : FlagCount.Count) : Option Change :=
  (sliceSpan? query count.span).map fun found =>
    ⟨String.ofList found, String.ofList
      ("make_col ".toList ++ count.derivation ++ " | ".toList ++ count.sum)⟩

def derivingStage? (query : List Char) (view : View) : Nat → Option (Option Span)
  | 0 => some none
  | last + 1 => do
    let span ← view.stages[last]?
    let verb ← stageVerb? query span
    some (if verb == some "make_col" then some span else none)

def derive? (query : List Char) (view : View) (counts : List FlagCount.Count) (number : Nat) :
    Option (Option Edit) :=
  let own := counts.filter (·.stage == number)
  let derivations := List.intercalate ", ".toList (own.map FlagCount.Count.derivation)
  if own.isEmpty then some none
  else do
    let deriving? ← derivingStage? query view number
    match deriving? with
    | some span => some (some ⟨⟨span.stop, span.stop⟩, ", ".toList ++ derivations⟩)
    | none =>
      let span ← view.stages[number]?
      some (some ⟨⟨span.start, span.start⟩, "make_col ".toList ++ derivations ++ " | ".toList⟩)

def flagCount? (query : String) : Option Outcome := do
  let view ← scan? query.toList
  let found ← (matchesFrom readCount? 0 0 none query.toList).mapM (countAt? query.toList view)
  let counts := found.reduceOption
  let changes ← counts.mapM (countChange? query.toList)
  let derived ← (List.range view.stages.length).mapM (derive? query.toList view counts)
  let text ← splice? query.toList (counts.map FlagCount.Count.edit ++ derived.reduceOption)
  some (.ofChanges (String.ofList text) flagCount.name changes FlagCount.rationale)

section Counts

variable {query : List Char}

theorem aggregation?_eq (query : List Char) (position : Nat) :
    aggregation? query (view query) (offsetOf query position) =
      some (FlagCount.aggregation? (layout query) position) := by
  rw [aggregation?, findIdx?_stages, FlagCount.aggregation?, spans_length]
  cases hfind : ((places query).map placePositions).findIdx? (·.contains position) with
  | none => rfl
  | some number =>
      have hlength : number < (places query).length := by
        have := (List.findIdx?_eq_some_iff_findIdx_eq.mp hfind).1
        simpa using this
      have hplace : (places query)[number]? = some (places query)[number] :=
        List.getElem?_eq_getElem hlength
      have hspan : (view query).stages[number]? = some (placeSpan (places query)[number]) := by
        rw [stages_view, List.getElem?_map, hplace]
        rfl
      have hstage : (layout query).stages[number]? = some (places query)[number].2 := by
        rw [← map_snd_places, List.getElem?_map, hplace]
        rfl
      simp only [Option.elim_some, hspan, Option.bind_eq_bind, Option.bind_some,
        stageVerb?_place (List.mem_of_getElem? hplace), Option.filter_some, hstage]

theorem readCount?_eq {previous : Option Char} {text whole label : List Char}
    (h : readCount? previous text = some (whole, label)) :
    joinsWord previous = false ∧ ∃ arguments gap blanks spaces,
      FlagCount.countHead? text = some (label, arguments) ∧
      (∀ c ∈ gap, isBlank c = true) ∧ (∀ c ∈ blanks, isBlank c = true) ∧
      (∀ c ∈ spaces, isBlank c = true) ∧ label = text.takeWhile isNameChar ∧
      whole = label ++ gap ++ ':' :: blanks ++ "count_if".toList ++ spaces ++ ['('] ∧
      text = whole ++ arguments := by
  rw [readCount?] at h
  split at h
  · simp at h
  rename_i hjoins
  obtain ⟨⟨label, arguments⟩, hhead, hpair⟩ := Option.map_eq_some_iff.mp h
  obtain ⟨rfl, rfl⟩ := Prod.mk.inj hpair
  obtain ⟨gap, blanks, spaces, hgap, hblanks, hspaces, hlabel, htext⟩ :=
    FlagCount.countHead?_eq hhead
  refine ⟨by simpa using hjoins, arguments, gap, blanks, spaces, hhead, hgap, hblanks, hspaces,
    hlabel, ?_⟩
  have hsplit : text = (label ++ gap ++ ':' :: blanks ++ "count_if".toList ++ spaces ++ ['(']) ++
      arguments := by simpa using htext
  have hwhole : text.take (text.length - arguments.length) =
      label ++ gap ++ ':' :: blanks ++ "count_if".toList ++ spaces ++ ['('] := by
    conv_lhs => rw [hsplit]
    rw [List.length_append, Nat.add_sub_cancel, List.take_left]
  exact ⟨hwhole, by rw [hwhole]; exact hsplit⟩

theorem readCount?_of_not_isNameStart {c : Char} (hc : isNameStart c = false)
    (previous : Option Char) (rest : List Char) : readCount? previous (c :: rest) = none := by
  rw [readCount?]
  split
  · rfl
  · simp [FlagCount.countHead?, hc]

theorem readCount?_of_joinsWord (previous : Option Char) (text : List Char)
    (h : joinsWord previous = true) : readCount? previous text = none := by
  rw [readCount?, if_pos h]

theorem not_isNameStart_of_isBlank {c : Char} (h : isBlank c = true) : isNameStart c = false := by
  by_contra hstart
  have := isNameChar_of_isNameStart (by simpa using hstart)
  simp [isNameChar_of_isBlank h] at this

theorem readCount?_called {name spaces : List Char} (hname : ∀ c ∈ name, isNameChar c = true)
    (hspaces : ∀ c ∈ spaces, isBlank c = true) (previous : Option Char) (arguments : List Char) :
    readCount? previous (name ++ (spaces ++ '(' :: arguments)) = none := by
  have hdrop : (name ++ (spaces ++ '(' :: arguments)).dropWhile isNameChar =
      spaces ++ '(' :: arguments := by
    rw [List.dropWhile_append_of_pos hname]
    cases spaces with
    | nil => rfl
    | cons c spaces => simp [isNameChar_of_isBlank (hspaces c (by simp))]
  rw [readCount?, FlagCount.countHead?, hdrop, skipTo?_blanks hspaces (by decide)]
  split <;> simp

theorem clear_called {name spaces arguments : List Char}
    (hname : ∀ c ∈ name, isNameChar c = true) (hspaces : ∀ c ∈ spaces, isBlank c = true)
    (previous : Option Char) :
    Clear readCount? name.length previous (name ++ (spaces ++ '(' :: arguments)) := by
  have hnone := readCount?_called hname hspaces previous arguments
  cases name with
  | nil => trivial
  | cons c name =>
      have hchars : ∀ d ∈ c :: name, isWordChar d = true :=
        fun d hd => isWordChar_of_isNameChar (hname d hd)
      refine ⟨hnone, Clear.of_word readCount?_of_joinsWord ?_ fun d hd => hchars d (by simp [hd])⟩
      simpa [joinsWord] using hchars c (by simp)

theorem readCount?_clear (previous : Option Char) (c : Char) (text whole label : List Char)
    (h : readCount? previous (c :: text) = some (whole, label)) :
    Clear readCount? (whole.length - 1) (some c) text := by
  obtain ⟨-, arguments, gap, blanks, spaces, hhead, hgap, hblanks, hspaces, hlabel, hwhole, htext⟩ :=
    readCount?_eq h
  have hstart : isNameStart c = true := by
    by_contra hstart
    simp [FlagCount.countHead?, hstart] at hhead
  have hc := isNameChar_of_isNameStart hstart
  obtain ⟨name, hname⟩ : ∃ name, label = c :: name := ⟨_, by rw [hlabel, List.takeWhile_cons, if_pos hc]⟩
  have hchars : ∀ d ∈ label, isWordChar d = true := by
    intro d hd
    rw [hlabel] at hd
    exact isWordChar_of_isNameChar (List.mem_takeWhile_imp hd)
  have hrest : text = name ++ (gap ++ ':' :: blanks ++
      ("count_if".toList ++ (spaces ++ ['('] ++ arguments))) := by
    rw [hwhole, hname] at htext
    simpa using htext
  have hlength : whole.length - 1 = name.length + ((gap ++ ':' :: blanks).length +
      ("count_if".toList.length + (spaces ++ ['(']).length)) := by
    rw [hwhole, hname]
    simp
    omega
  have hspaces' (previous : Option Char) :
      Clear readCount? (spaces ++ ['(']).length previous (spaces ++ ['('] ++ arguments) := by
    refine Clear.of_forall fun d hd previous rest => readCount?_of_not_isNameStart ?_ _ _
    rcases List.mem_append.mp hd with hd | hd
    · exact not_isNameStart_of_isBlank (hspaces d hd)
    · rw [List.mem_singleton.mp hd]
      decide
  have hcalled (previous : Option Char) : Clear readCount? "count_if".toList.length previous
      ("count_if".toList ++ (spaces ++ ['('] ++ arguments)) := by
    rw [List.append_assoc, List.singleton_append]
    exact clear_called (by simp; decide) hspaces previous
  have hgap' (previous : Option Char) : Clear readCount? (gap ++ ':' :: blanks).length previous
      (gap ++ ':' :: blanks ++ ("count_if".toList ++ (spaces ++ ['('] ++ arguments))) := by
    refine Clear.of_forall fun d hd previous rest => readCount?_of_not_isNameStart ?_ _ _
    rcases List.mem_append.mp hd with hd | hd
    · exact not_isNameStart_of_isBlank (hgap d hd)
    · rcases List.mem_cons.mp hd with rfl | hd
      · decide
      · exact not_isNameStart_of_isBlank (hblanks d hd)
  have hlabel' : Clear readCount? name.length (some c) (name ++ (gap ++ ':' :: blanks ++
      ("count_if".toList ++ (spaces ++ ['('] ++ arguments)))) := by
    refine Clear.of_word readCount?_of_joinsWord ?_ fun d hd => hchars d (by simp [hname, hd])
    simpa [joinsWord] using hchars c (by simp [hname])
  rw [hlength, hrest]
  exact hlabel'.append ((hgap' _).append ((hcalled _).append (hspaces' _)))

def countBytes (query : List Char) (count : FlagCount.Count) : FlagCount.Count :=
  { count with span := spanBytes query count.span }

theorem plain_of_blank_or_name {c : Char} (h : isBlank c = true ∨ isNameChar c = true) :
    c ≠ '"' ∧ c ≠ '\'' ∧ c ≠ '/' := by
  refine ⟨?_, ?_, ?_⟩ <;> rintro rfl <;> revert h <;> decide

theorem plain_count {label gap blanks spaces : List Char} (hlabel : ∀ c ∈ label, isNameChar c = true)
    (hgap : ∀ c ∈ gap, isBlank c = true) (hblanks : ∀ c ∈ blanks, isBlank c = true)
    (hspaces : ∀ c ∈ spaces, isBlank c = true) :
    ∀ c ∈ label ++ gap ++ ':' :: blanks ++ "count_if".toList ++ spaces ++ ['('],
      c ≠ '"' ∧ c ≠ '\'' ∧ c ≠ '/' := by
  intro c hc
  simp only [List.mem_append, List.mem_cons, List.not_mem_nil, or_false] at hc
  rcases hc with ((((hc | hc) | rfl | hc) | hc) | hc) | rfl
  · exact plain_of_blank_or_name (.inr (hlabel c hc))
  · exact plain_of_blank_or_name (.inl (hgap c hc))
  · decide
  · exact plain_of_blank_or_name (.inl (hblanks c hc))
  · exact plain_of_blank_or_name (.inr ((by simp; decide : ∀ c ∈ "count_if".toList, isNameChar c = true) c hc))
  · exact plain_of_blank_or_name (.inl (hspaces c hc))
  · decide

theorem paren_of_count {before row : List Cell} (hcells : cells query = before ++ row)
    (hcode : row.head?.any Cell.isLiteral = false) {whole arguments : List Char}
    (htext : text row = whole ++ arguments) {front : List Char} (hwhole : whole = front ++ ['('])
    (hplain : ∀ c ∈ whole, c ≠ '"' ∧ c ≠ '\'' ∧ c ≠ '/') :
    ∃ head paren inside, row = head ++ paren :: inside ∧ text head = front ∧
      paren.isCode '(' = true ∧ text inside = arguments := by
  obtain ⟨front', inside, rfl, hfront, hinside⟩ := row_of_text htext
  rw [hwhole] at hfront
  obtain ⟨head, back, rfl, hhead, hback⟩ := row_of_text hfront
  obtain ⟨paren, back, rfl, hparen, hback⟩ := row_of_text_cons hback
  obtain rfl : back = [] := by simpa [text] using hback
  refine ⟨head, paren, inside, by simp, hhead, ?_, hinside⟩
  have hliteral : paren.isLiteral = false := by
    cases head with
    | nil => simpa using hcode
    | cons first head =>
        have hpaint : Scanner.paint {} query = before ++ first :: (head ++ [paren] ++ inside) := by
          rw [show Scanner.paint {} query = cells query from rfl, hcells]
          simp
        refine Scanner.paint_behind_code hpaint (by simpa using hcode) ?_ paren (by simp)
        intro cell hcell
        refine hplain cell.char ?_
        have htext : whole = text (first :: (head ++ [paren])) := by
          rw [hwhole, ← hhead, ← hparen]
          simp
        rw [htext]
        exact List.mem_map_of_mem (List.mem_cons_of_mem _ hcell)
  simp [Cell.isCode, hparen, hliteral]

section Closing

variable {front inside : List Cell} {paren : Cell} {n : Nat}

theorem char_of_isCode {cell : Cell} {c : Char} (h : cell.isCode c = true) : cell.char = c := by
  simp only [Cell.isCode, Bool.and_eq_true, beq_iff_eq] at h
  exact h.1

theorem slice?_inside (hcells : cells query = front ++ paren :: inside)
    (hparen : paren.isCode '(' = true) (n : Nat) :
    slice? query (byteSize (text front) + 1)
        (byteSize (text (front ++ paren :: inside.take n))) =
      some (text (inside.take n)) := by
  have hchar := char_of_isCode hparen
  have hsize : '('.utf8Size = 1 := rfl
  refine slice?_eq (text (front ++ [paren])) _ (text (inside.drop n)) ?_ ?_ ?_
  · rw [← text_append, ← text_append, ← text_cells query, hcells]
    simp
  · simp [hchar, hsize]
  · simp [hchar, hsize, Nat.add_assoc]

theorem offsetOf_closing (hcells : cells query = front ++ paren :: inside)
    (hclosing : closingParen? 0 inside = some n) :
    offsetOf query (front.length + 1 + n + 1) =
      byteSize (text (front ++ paren :: inside.take n)) + 1 := by
  obtain ⟨arguments, cell, after, rfl, rfl, hcell, -⟩ := closingParen?_eq hclosing
  have hsize : ')'.utf8Size = 1 := rfl
  have hoffset := offsetOf_cells (front ++ paren :: arguments ++ [cell]) after
    (by rw [hcells]; simp)
  simp only [List.length_append, List.length_cons, List.length_nil] at hoffset
  rw [show front.length + 1 + arguments.length + 1 = front.length + (arguments.length + 1) + (0 + 1) by
    omega, hoffset]
  simp [char_of_isCode hcell, hsize, Nat.add_assoc]

end Closing

theorem countAt?_eq {before row : List Cell} {whole label : List Char}
    (hcells : cells query = before ++ row)
    (hread : readCount? (text before).getLast? (text row) = some (whole, label)) :
    countAt? query (view query) ⟨byteSize (text before), whole, label⟩ =
      some ((FlagCount.countAt? (layout query) ⟨before.length, (text before).getLast?, row⟩).map
        (countBytes query)) := by
  obtain ⟨hjoins, arguments, gap, blanks, spaces, hhead, hgap, hblanks, hspaces, hlabel, hwhole,
    htext⟩ := readCount?_eq hread
  have hquery : query = text before ++ text row := by rw [← text_cells query, hcells, text_append]
  have hpath : continuesPath? query (byteSize (text before)) =
      some (Site.continuesPath ⟨before.length, (text before).getLast?, row⟩) :=
    continuesPath?_eq (text before) (text row) hquery rfl
  have hliteral : (view query).inLiteral (byteSize (text before)) =
      Site.inLiteral ⟨before.length, (text before).getLast?, row⟩ := inLiteral_head before row hcells
  have hstage := aggregation?_eq query before.length
  rw [offsetOf_cells before row hcells] at hstage
  rw [countAt?, FlagCount.countAt?]
  simp only [hpath, hliteral, Option.bind_eq_bind, Option.bind_some]
  by_cases hskip : (Site.inLiteral ⟨before.length, (text before).getLast?, row⟩ ||
      Site.continuesPath ⟨before.length, (text before).getLast?, row⟩) = true
  · rw [if_pos hskip, if_pos]
    · rfl
    · rcases Bool.or_eq_true_iff.mp hskip with h | h <;> simp [h]
  · rw [if_neg hskip, if_neg (by simpa [Site.startsWord, hjoins] using hskip), hhead, hstage]
    simp only [Option.bind_some]
    cases FlagCount.aggregation? (layout query) before.length with
    | none => rfl
    | some stage =>
        have hcode : row.head?.any Cell.isLiteral = false := by
          simp only [Bool.or_eq_true, not_or, Bool.not_eq_true] at hskip
          exact hskip.1
        have hname : ∀ c ∈ label, isNameChar c = true := by
          rw [hlabel]
          exact fun c hc => List.mem_takeWhile_imp hc
        have hplain := plain_count hname hgap hblanks hspaces
        rw [← hwhole] at hplain
        obtain ⟨head, paren, inside, rfl, hheadText, hparen, hinside⟩ :=
          paren_of_count hcells hcode htext hwhole hplain
        have hfront : cells query = (before ++ head) ++ paren :: inside := by simp [hcells]
        have hsize : (head ++ paren :: inside).length - arguments.length = head.length + 1 := by
          rw [← hinside]
          simp [text]
          omega
        have hdrop : (head ++ paren :: inside).drop (head.length + 1) = inside := by
          simp
        have hopening : sub? (Match.stop ⟨byteSize (text before), whole, label⟩) 1 =
            some (byteSize (text (before ++ head))) := by
          have hsize : '('.utf8Size = 1 := rfl
          rw [Match.stop, hwhole, ← hheadText, sub?_eq (by simp [hsize]; omega)]
          simp [hsize]
        simp only [Option.elim_some, hopening, Option.bind_some, matchingParen?_eq _ _ _ hfront hparen,
          hsize, hdrop]
        cases hclosing : closingParen? 0 inside with
        | none => rfl
        | some n =>
            have hstop := offsetOf_closing hfront hclosing
            simp only [Option.map_some, Option.elim_some, slice?_inside hfront hparen, Option.bind_some]
            cases (trim (text (inside.take n))).isEmpty with
            | true => rfl
            | false =>
                simp only [Bool.false_eq_true, if_false, Option.map_some, countBytes, spanBytes,
                  offsetOf_cells before _ hcells]
                rw [← hstop]
                simp [Nat.add_assoc]

theorem countAt?_none {before row : List Cell}
    (hread : readCount? (text before).getLast? (text row) = none) :
    FlagCount.countAt? (layout query) ⟨before.length, (text before).getLast?, row⟩ = none := by
  rw [readCount?] at hread
  rw [FlagCount.countAt?]
  split at hread
  · rename_i hjoins
    rw [if_pos (by simp [Site.startsWord, hjoins])]
  · rw [Option.map_eq_none_iff.mp hread]
    simp

theorem mapM_countAt? (query : List Char) :
    ((matchesFrom readCount? 0 0 none query).mapM (countAt? query (view query))).map
        List.reduceOption =
      some ((FlagCount.counts (cells query) (layout query)).map (countBytes query)) := by
  have hfound : ((everywhere readCount? 0 none (text (cells query))).mapM
      (countAt? query (view query))).map List.reduceOption =
      some ((sites (cells query)).filterMap fun site =>
        (FlagCount.countAt? (layout query) site).map (countBytes query)) :=
    mapM_everywhere (fun _ _ _ hread => by rw [countAt?_none hread]; rfl)
      (fun _ _ _ _ hcells hread => countAt?_eq hcells hread) [] (cells query) rfl
  rw [text_cells, ← matchesFrom_eq_everywhere readCount?_clear 0 0 none query trivial] at hfound
  rw [hfound, FlagCount.counts, List.map_filterMap]

theorem within_count {count : FlagCount.Count}
    (h : count ∈ FlagCount.counts (cells query) (layout query)) : Within query count.span := by
  obtain ⟨site, hsite, hcount⟩ := List.mem_filterMap.mp h
  obtain ⟨front, hrow, hindex⟩ := of_mem_sitesFrom hsite
  have hlength := congrArg List.length hrow
  rw [length_cells, List.length_append] at hlength
  rw [FlagCount.countAt?] at hcount
  split at hcount
  · simp at hcount
  obtain ⟨⟨label, arguments⟩, hhead, hcount⟩ := Option.bind_eq_some_iff.mp hcount
  obtain ⟨stage, -, hcount⟩ := Option.bind_eq_some_iff.mp hcount
  obtain ⟨n, hclosing, hcount⟩ := Option.bind_eq_some_iff.mp hcount
  obtain ⟨inside, cell, after, hinside, rfl, -⟩ := closingParen?_eq hclosing
  have hinside := congrArg List.length hinside
  simp only [List.length_drop, List.length_append, List.length_cons] at hinside
  dsimp only at hcount
  split at hcount
  · simp at hcount
  · obtain rfl := Option.some.inj hcount
    exact ⟨by dsimp only; omega, by dsimp only; omega⟩

theorem mapM_countChange? :
    ((FlagCount.counts (cells query) (layout query)).map (countBytes query)).mapM
        (countChange? query) =
      some ((FlagCount.counts (cells query) (layout query)).map (FlagCount.change query)) := by
  refine mapM_map_eq_some fun count hcount => ?_
  rw [countChange?, sliceSpan?]
  simp only [countBytes, spanBytes, slice?_offsetOf (within_count hcount).1]
  rfl

/-! ## Derivations -/

theorem derive?_eq (counts : List FlagCount.Count) {number : Nat}
    (hnumber : number < (view query).stages.length) :
    derive? query (view query) (counts.map (countBytes query)) number =
      some ((FlagCount.derive? (layout query) counts number).map (editBytes query)) := by
  have hown : (counts.map (countBytes query)).filter (·.stage == number) =
      (counts.filter (·.stage == number)).map (countBytes query) := by
    rw [List.filter_map]
    rfl
  have hderivations : ((counts.filter (·.stage == number)).map (countBytes query)).map
      FlagCount.Count.derivation =
        (counts.filter (·.stage == number)).map FlagCount.Count.derivation := by
    rw [List.map_map]
    rfl
  have hat (i : Nat) (hi : i < (view query).stages.length) :
      ∃ place ∈ places query, (view query).stages[i]? = some (placeSpan place) ∧
        (layout query).stages[i]? = some place.2 ∧
        ((layout query).spans List.length)[i]? = some (placePositions place) := by
    have hi : i < (places query).length := by simpa [stages_view] using hi
    refine ⟨(places query)[i], List.getElem_mem hi, ?_, ?_, ?_⟩
    · simp [stages_view, hi]
    · simp [← map_snd_places, hi]
    · simp [spans_length, hi]
  obtain ⟨place, hplace, hspan, -, hposition⟩ := hat number hnumber
  have hbytes := spanBytes_place hplace
  simp only [spanBytes, placeSpan, Span.mk.injEq] at hbytes
  rw [derive?, FlagCount.derive?]
  simp only [hown, hderivations, List.isEmpty_map]
  generalize ", ".toList ++ List.intercalate _ _ = appended
  generalize "make_col ".toList ++ List.intercalate _ _ ++ " | ".toList = made
  cases (counts.filter (·.stage == number)).isEmpty with
  | true => rfl
  | false =>
      cases number with
      | zero =>
          rw [derivingStage?, hspan, hposition]
          simp [editBytes, spanBytes, placeSpan, hbytes]
      | succ last =>
          obtain ⟨previous, hprevious, hspan', hstage, hposition'⟩ := hat last (by omega)
          have hbytes' := spanBytes_place hprevious
          simp only [spanBytes, placeSpan, Span.mk.injEq] at hbytes'
          have hverb : (layout query).stages[last]?.any (·.hasVerb "make_col") =
              (previous.2.verb? == some "make_col") := by
            rw [hstage]
            rfl
          have hderiving : derivingStage? query (view query) (last + 1) =
              some (if (previous.2.verb? == some "make_col") = true then some (placeSpan previous)
                else none) := by
            rw [derivingStage?, hspan']
            simp only [Option.bind_eq_bind, Option.bind_some, stageVerb?_place hprevious]
          rw [Nat.add_sub_cancel, hverb, hderiving, hspan, hposition, hposition']
          generalize (previous.2.verb? == some "make_col") = derives
          cases derives <;> simp [editBytes, spanBytes, placeSpan, hbytes, hbytes']

theorem mapM_derive? (counts : List FlagCount.Count) :
    ((List.range (view query).stages.length).mapM
        (derive? query (view query) (counts.map (countBytes query)))).map List.reduceOption =
      some (((List.range (layout query).stages.length).filterMap
        (FlagCount.derive? (layout query) counts)).map (editBytes query)) := by
  have hlength : (view query).stages.length = (layout query).stages.length := by
    rw [stages_view, ← map_snd_places, List.length_map, List.length_map]
  rw [mapM_eq_some_map fun number hnumber => derive?_eq counts (List.mem_range.mp hnumber),
    Option.map_some, hlength, List.reduceOption, List.filterMap_map, List.map_filterMap]
  rfl

theorem within_derive {counts : List FlagCount.Count} {number : Nat} {edit : Edit}
    (h : FlagCount.derive? (layout query) counts number = some edit) : Within query edit.span := by
  have hspans : ∀ (i : Nat) (span : Span), ((layout query).spans List.length)[i]? = some span → Within query span := by
    intro i span hspan
    rw [spans_length, List.getElem?_map] at hspan
    obtain ⟨place, hplace, rfl⟩ := Option.map_eq_some_iff.mp hspan
    exact within_place (List.mem_of_getElem? hplace)
  rw [FlagCount.derive?] at h
  split at h
  · simp at h
  · split at h
    · obtain ⟨span, hspan, rfl⟩ := Option.map_eq_some_iff.mp h
      exact ⟨Nat.le_refl _, (hspans _ _ hspan).2⟩
    · obtain ⟨span, hspan, rfl⟩ := Option.map_eq_some_iff.mp h
      exact ⟨Nat.le_refl _, Nat.le_trans (hspans _ _ hspan).1 (hspans _ _ hspan).2⟩

theorem within_edits (query : List Char) :
    ∀ edit ∈ FlagCount.edits (layout query) (FlagCount.counts (cells query) (layout query)),
      Within query edit.span := by
  intro edit h
  rcases List.mem_append.mp h with h | h
  · obtain ⟨count, hcount, rfl⟩ := List.mem_map.mp h
    exact within_count hcount
  · obtain ⟨number, -, hderive⟩ := List.mem_filterMap.mp h
    exact within_derive hderive

end Counts

theorem flagCount?_eq (context : Context) (query : String) :
    flagCount? query = some (flagCount.apply context query) := by
  obtain ⟨found, hfound, hcounts⟩ :=
    Option.map_eq_some_iff.mp (mapM_countAt? query.toList)
  obtain ⟨derived, hderived, hedits⟩ := Option.map_eq_some_iff.mp
    (mapM_derive? (FlagCount.counts (cells query.toList) (layout query.toList)))
  have hsplice := splice?_editBytes (within_edits query.toList)
  rw [FlagCount.edits, List.map_append, List.map_map, ← hedits] at hsplice
  rw [flagCount?, scan?_eq]
  simp only [Option.bind_eq_bind, Option.bind_some]
  refine (congrArg (Option.bind · _) hfound).trans ?_
  simp only [Option.bind_some, hcounts, mapM_countChange?, hderived, List.map_map]
  refine (congrArg (Option.bind · _) hsplice).trans ?_
  rfl

end OpalRepair.Bytes
