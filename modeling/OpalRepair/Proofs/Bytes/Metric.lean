import Mathlib
import OpalRepair.Proofs.Bracket
import OpalRepair.Proofs.Bytes.Count
import OpalRepair.Proofs.Code
import OpalRepair.Proofs.Selection

/-!
# Aligning metrics by byte offsets

The only metric call of a query is found by a pattern, its stage by its offset, and the aggregate
around it by searching backwards.  The offsets of these searches are combined freely; that they stay
inside the stage is a matter of what the scanner calls code.
-/

namespace OpalRepair.Bytes

open Query Text Vocabulary

/-! ## Selectors -/

def readSelector? (previous : Option Char) (text : List Char) : Option (List Char × List Char) :=
  if joinsWord previous then none
  else (callHead? text).bind fun (name, rest) =>
    if metricSelectors.contains (String.ofList name) then
      some (text.take (text.length - rest.length), name)
    else none

/-- A metric selector in code: its offset, its name and the offset of its parenthesis. -/
structure Located where
  start : Nat
  selector : String
  opening : Nat
  deriving DecidableEq, Repr

def locate? (query : List Char) (view : View) (found : Match (List Char)) :
    Option (Option Located) := do
  let inPath ← continuesPath? query found.start
  if view.inLiteral found.start || inPath then some none
  else
    let opening ← sub? found.stop 1
    some (some ⟨found.start, String.ofList found.parts, opening⟩)

def locatedBytes (query : List Char) (selection : AlignMetric.Selection) : Located :=
  ⟨offsetOf query selection.start, selection.selector,
    offsetOf query (selection.start + selection.size - 1)⟩

section Selectors

variable {query : List Char}

theorem readSelector?_of_joinsWord (previous : Option Char) (text : List Char)
    (h : joinsWord previous = true) : readSelector? previous text = none := by
  rw [readSelector?, if_pos h]

theorem readSelector?_of_not_isNameChar {c : Char} (hc : isNameChar c = false)
    (previous : Option Char) (rest : List Char) : readSelector? previous (c :: rest) = none := by
  rw [readSelector?]
  split
  · rfl
  · cases hcall : callHead? (c :: rest) with
    | none => rfl
    | some call =>
        obtain ⟨name, behind⟩ := call
        have hname : name = [] := by
          rw [(callHead?_eq hcall).1, List.takeWhile_cons_of_neg (by simp [hc])]
        subst hname
        simp only [Option.bind_some]
        rw [if_neg (by decide)]

theorem readSelector?_eq {previous : Option Char} {text whole name : List Char}
    (h : readSelector? previous text = some (whole, name)) :
    joinsWord previous = false ∧ ∃ rest, callHead? text = some (name, rest) ∧
      metricSelectors.contains (String.ofList name) = true ∧
      whole = text.take (text.length - rest.length) := by
  rw [readSelector?] at h
  split at h
  · simp at h
  rename_i hjoins
  obtain ⟨⟨name, rest⟩, hcall, h⟩ := Option.bind_eq_some_iff.mp h
  dsimp only at h
  split at h
  · rename_i hselector
    obtain ⟨rfl, rfl⟩ := Prod.mk.inj (Option.some.inj h)
    exact ⟨by simpa using hjoins, rest, hcall, hselector, rfl⟩
  · simp at h

theorem readSelector?_clear (previous : Option Char) (c : Char) (text whole name : List Char)
    (h : readSelector? previous (c :: text) = some (whole, name)) :
    Clear readSelector? (whole.length - 1) (some c) text := by
  obtain ⟨-, rest, hcall, hselector, rfl⟩ := readSelector?_eq h
  obtain ⟨-, blanks, hblanks, htext⟩ := callHead?_eq hcall
  obtain ⟨hne, hchars⟩ := AlignMetric.isNameChar_of_metricSelector hselector
  cases name with
  | nil => simp at hne
  | cons d word =>
      obtain ⟨rfl, hrest⟩ : c = d ∧ text = word ++ (blanks ++ ['('] ++ rest) := by simpa using htext
      have hlength : ((c :: text).take ((c :: text).length - rest.length)).length - 1 =
          word.length + (blanks ++ ['(']).length := by
        rw [hrest]
        simp
        omega
      have hword : Clear readSelector? word.length (some c) (word ++ (blanks ++ ['('] ++ rest)) := by
        refine Clear.of_word readSelector?_of_joinsWord ?_ fun d hd =>
          isWordChar_of_isNameChar (hchars d (by simp [hd]))
        simpa [joinsWord] using isWordChar_of_isNameChar (hchars c (by simp))
      have hbehind (previous : Option Char) :
          Clear readSelector? (blanks ++ ['(']).length previous (blanks ++ ['('] ++ rest) := by
        refine Clear.of_forall fun d hd previous rest => readSelector?_of_not_isNameChar ?_ _ _
        rcases List.mem_append.mp hd with hd | hd
        · exact isNameChar_of_isBlank (hblanks d hd)
        · rw [List.mem_singleton.mp hd]
          decide
      rw [hlength, hrest]
      exact hword.append (hbehind _)

theorem selectionAt?_none {before row : List Cell}
    (hread : readSelector? (text before).getLast? (text row) = none) :
    AlignMetric.selectionAt? ⟨before.length, (text before).getLast?, row⟩ = none := by
  rw [readSelector?] at hread
  rw [AlignMetric.selectionAt?]
  split at hread
  · rename_i hjoins
    rw [if_pos (by simp [Site.startsWord, hjoins])]
  · split
    · rfl
    · cases hcall : callHead? (text row) with
      | none => rfl
      | some call =>
          obtain ⟨name, rest⟩ := call
          rw [hcall] at hread
          simp only [Option.bind_some] at hread ⊢
          split at hread
          · simp at hread
          · rename_i hselector
            rw [if_neg hselector]

theorem locate?_eq {before row : List Cell} {whole name : List Char}
    (hcells : cells query = before ++ row)
    (hread : readSelector? (text before).getLast? (text row) = some (whole, name)) :
    locate? query (view query) ⟨byteSize (text before), whole, name⟩ =
      some ((AlignMetric.selectionAt? ⟨before.length, (text before).getLast?, row⟩).map
        (locatedBytes query)) := by
  obtain ⟨hjoins, rest, hcall, hselector, hwhole⟩ := readSelector?_eq hread
  have hquery : query = text before ++ text row := by rw [← text_cells query, hcells, text_append]
  have hpath : continuesPath? query (byteSize (text before)) =
      some (Site.continuesPath ⟨before.length, (text before).getLast?, row⟩) :=
    continuesPath?_eq (text before) (text row) hquery rfl
  have hliteral : (view query).inLiteral (byteSize (text before)) =
      Site.inLiteral ⟨before.length, (text before).getLast?, row⟩ := inLiteral_head before row hcells
  rw [locate?, AlignMetric.selectionAt?]
  simp only [hpath, hliteral, Option.bind_eq_bind, Option.bind_some]
  by_cases hskip : (Site.inLiteral ⟨before.length, (text before).getLast?, row⟩ ||
      Site.continuesPath ⟨before.length, (text before).getLast?, row⟩) = true
  · rw [if_pos hskip, if_pos]
    · rfl
    · rcases Bool.or_eq_true_iff.mp hskip with h | h <;> simp [h]
  · obtain ⟨head, paren, arguments, blanks, hrow, hparen, hrest, hblanks, hhead, hsize⟩ :=
      AlignMetric.row_of_callHead? hcall
    have hwholeText : whole = text (head ++ [paren]) := by
      have hlength : (text row).length = row.length := by simp [text]
      have hsplit : text row = text (head ++ [paren]) ++ text arguments := by
        rw [hrow]
        simp
      have hcount : head.length + 1 = (text (head ++ [paren])).length := by simp [text]
      rw [hwhole, hlength, hsize, hsplit, hcount, List.take_left]
    have hopening : sub? (Match.stop ⟨byteSize (text before), whole, name⟩) 1 =
        some (byteSize (text (before ++ head))) := by
      have hsize : '('.utf8Size = 1 := rfl
      rw [Match.stop, hwholeText, sub?_eq (by simp [hparen, hsize]; omega)]
      simp [hparen, hsize]
    have hstart := offsetOf_cells before row hcells
    have hoffset := offsetOf_cells (before ++ head) (paren :: arguments)
      (show cells query = _ by simp [hcells, hrow])
    rw [if_neg hskip, if_neg (by simpa [Site.startsWord, hjoins] using hskip), hcall, hopening]
    simp only [Option.bind_some, hselector, if_true, Option.map_some, locatedBytes, hsize, hstart]
    rw [← hoffset]
    simp

theorem mapM_locate? (query : List Char) :
    ((matchesFrom readSelector? 0 0 none query).mapM (locate? query (view query))).map
        List.reduceOption =
      some (((sites (cells query)).filterMap AlignMetric.selectionAt?).map (locatedBytes query)) := by
  have hfound : ((everywhere readSelector? 0 none (text (cells query))).mapM
      (locate? query (view query))).map List.reduceOption =
      some ((sites (cells query)).filterMap fun site =>
        (AlignMetric.selectionAt? site).map (locatedBytes query)) :=
    mapM_everywhere (fun _ _ _ hread => by rw [selectionAt?_none hread]; rfl)
      (fun _ _ _ _ hcells hread => locate?_eq hcells hread) [] (cells query) rfl
  rw [text_cells, ← matchesFrom_eq_everywhere readSelector?_clear 0 0 none query trivial] at hfound
  rw [hfound, List.map_filterMap]

end Selectors

/-! ## Enclosing calls -/

def enclosingCall? (query : List Char) (offset : Nat) : Option (Option (Span × Nat)) := do
  let before ← (slice? query 0 offset).map trimEnd
  if before.getLast? ≠ some '(' then some none
  else
    let opening ← sub? (byteSize before) 1
    let stop ← (slice? query 0 opening).map (byteSize ∘ trimEnd)
    let front ← (slice? query 0 stop).map fun word => word.reverse.dropWhile isNameChar
    if front.head?.any isAlphanumeric || byteSize front.reverse == stop then some none
    else some (some (⟨byteSize front.reverse, stop⟩, opening))

section Enclosing

variable {query : List Char}

theorem byteSize_eq_zero {text : List Char} : byteSize text = 0 ↔ text = [] := by
  cases text with
  | nil => simp
  | cons c text =>
      have := c.utf8Size_pos
      simp
      omega

theorem slice?_front {front rest : List Char} (hquery : query = front ++ rest) :
    slice? query 0 (byteSize front) = some front :=
  slice?_eq [] front rest (by simpa using hquery) rfl (by simp)

theorem enclosingCall?_eq {before rest : List Char} (hquery : query = before ++ rest) :
    AlignMetric.enclosingCall? before = none ∧
        enclosingCall? query (byteSize before) = some none ∨
      ∃ front name gap blanks, AlignMetric.enclosingCall? before = some (front, name) ∧
        before = front ++ name ++ gap ++ '(' :: blanks ∧ (∀ c ∈ gap, isBlank c = true) ∧
        (∀ c ∈ blanks, isBlank c = true) ∧ name ≠ [] ∧ (∀ c ∈ name, isNameChar c = true) ∧
        (∀ c ∈ front.getLast?, isNameChar c = false) ∧
        enclosingCall? query (byteSize before) =
          some (some (⟨byteSize front, byteSize (front ++ name)⟩, byteSize (front ++ name ++ gap))) := by
  have htrim : trimEnd before = (before.reverse.dropWhile isBlank).reverse :=
    dropTrailing_eq_reverse before
  rw [enclosingCall?, slice?_front hquery]
  simp only [Option.map_some, Option.bind_eq_bind, Option.bind_some, htrim, List.getLast?_reverse]
  by_cases hhead : (before.reverse.dropWhile isBlank).head? = some '('
  · obtain ⟨back, hback⟩ := List.head?_eq_some_iff.mp hhead
    obtain ⟨blanks, hblanks, hbefore⟩ : ∃ blanks, (∀ c ∈ blanks, isBlank c = true) ∧
        before = back.reverse ++ '(' :: blanks := by
      refine ⟨(before.reverse.takeWhile isBlank).reverse, ?_, ?_⟩
      · intro c hc
        exact List.mem_takeWhile_imp (List.mem_reverse.mp hc)
      · have hsplit := List.takeWhile_append_dropWhile (p := isBlank) (l := before.reverse)
        rw [hback] at hsplit
        simpa using (congrArg List.reverse hsplit).symm
    have hopening : sub? (byteSize ('(' :: back).reverse) 1 = some (byteSize back.reverse) := by
      have hsize : '('.utf8Size = 1 := rfl
      rw [sub?_eq (by simp [hsize])]
      simp [hsize]
    have hfront : slice? query 0 (byteSize back.reverse) = some back.reverse :=
      slice?_front (by rw [hquery, hbefore, List.append_assoc])
    have hback' : trimEnd back.reverse = (back.dropWhile isBlank).reverse := by
      rw [trimEnd, dropTrailing_eq_reverse, List.reverse_reverse]
    have hword : slice? query 0 (byteSize (back.dropWhile isBlank).reverse) =
        some (back.dropWhile isBlank).reverse := by
      obtain ⟨spaces, -, hspaces⟩ := exists_trailing isBlank back.reverse
      rw [← trimEnd, hback'] at hspaces
      exact slice?_front (by rw [hquery, hbefore, hspaces, List.append_assoc, List.append_assoc])
    simp only [hback, List.head?_cons, ne_eq, not_true_eq_false, if_false, hopening, hfront,
      Option.map_some, Option.bind_some, Function.comp_apply, hback', hword, List.reverse_reverse]
    rw [AlignMetric.enclosingCall?_of_paren hback]
    have hsplit := List.takeWhile_append_dropWhile (p := isNameChar) (l := back.dropWhile isBlank)
    have hsize : byteSize (back.dropWhile isBlank).reverse =
        byteSize ((back.dropWhile isBlank).dropWhile isNameChar).reverse +
          byteSize ((back.dropWhile isBlank).takeWhile isNameChar).reverse := by
      rw [← byteSize_append, ← List.reverse_append, hsplit]
    have hempty : (byteSize ((back.dropWhile isBlank).dropWhile isNameChar).reverse ==
        byteSize (back.dropWhile isBlank).reverse) =
          ((back.dropWhile isBlank).takeWhile isNameChar).isEmpty := by
      rw [Bool.eq_iff_iff, beq_iff_eq, List.isEmpty_iff, hsize, Nat.left_eq_add, byteSize_eq_zero,
        List.reverse_eq_nil_iff]
    rw [hempty, Bool.or_comm]
    cases hcalled : AlignMetric.calledBefore? back with
    | none =>
        refine .inl ⟨rfl, if_pos ?_⟩
        by_contra hnot
        simp [AlignMetric.calledBefore?, hnot] at hcalled
    | some call =>
        obtain ⟨front, name⟩ := call
        obtain ⟨gap, hrest, hgap, hne, hchars, hlast⟩ := AlignMetric.calledBefore?_eq hcalled
        refine .inr ⟨front, name, gap, blanks, rfl, ?_, hgap, hblanks, hne, hchars, hlast, ?_⟩
        · rw [hbefore, hrest]
        · rw [AlignMetric.calledBefore?] at hcalled
          split at hcalled
          · simp at hcalled
          · rename_i hnot
            obtain ⟨rfl, rfl⟩ := Prod.mk.inj (Option.some.inj hcalled)
            rw [if_neg hnot, hrest, ← List.reverse_append, hsplit]
  · refine .inl ⟨AlignMetric.enclosingCall?_of_ne hhead, ?_⟩
    rw [if_pos hhead]

end Enclosing

/-! ## Replacing the stage -/

structure MetricCall where
  selector : String
  span : Span
  name : List Char
  deriving DecidableEq, Repr

def alignStage (function callText name : List Char) : List Char :=
  AlignMetric.alignStage function ⟨[], callText, AlignMetric.column name, []⟩

def filterReplacement? (query : List Char) (view : View) (stage : Span) (call : MetricCall) :
    Option (Option (List Char)) := do
  let depth ← parenDepth? query view stage.start call.span.start
  if call.selector = "m" ∧ depth = 0 then
    let callText ← sliceSpan? query call.span
    let front ← slice? query stage.start call.span.start
    let back ← slice? query call.span.stop stage.stop
    some (some (alignStage "avg".toList callText call.name ++ front
      ++ AlignMetric.column call.name ++ back))
  else some none

def wrapAggregate? (query : List Char) (view : View) (stage : Span) (verb : String)
    (call : MetricCall) (name : Span) (opening : Nat) : Option (Option (List Char)) := do
  let function ← sliceSpan? query name
  if name.start < stage.start || !(functions.contains (String.ofList function)
      && !metricSelectors.contains (String.ofList function)) then some none
  else
    let closing? ← matchingParen? query view opening
    closing?.elim (some none) fun closing => do
      let between ← slice? query call.span.stop closing
      if !(trim between).isEmpty then some none
      else
        let callText ← sliceSpan? query call.span
        let front ← slice? query (stage.start + byteSize verb.toList) name.start
        let back ← slice? query (closing + 1) stage.stop
        let newVerb := if verb = "statsby" then "aggregate" else verb
        some (some (alignStage function callText call.name ++ newVerb.toList ++ front ++ function
          ++ ['('] ++ AlignMetric.column call.name ++ [')'] ++ back))

def aggregateReplacement? (query : List Char) (view : View) (stage : Span) (verb : String)
    (call : MetricCall) : Option (Option (List Char)) :=
  (enclosingCall? query call.span.start).bind fun enclosing? =>
    enclosing?.elim (some none) fun (name, opening) =>
      wrapAggregate? query view stage verb call name opening

structure CallAt (query : List Char) (selector : String) (before : List Cell) (stage : Stage)
    (after front head inside back : List Cell) (paren close : Cell) : Prop where
  standing : Standing (cells query) before stage after
  body : stage.body = front ++ (head ++ paren :: (inside ++ close :: back))
  paren_code : paren.isCode '(' = true
  close_code : close.isCode ')' = true
  closing : closingParen? 0 (inside ++ close :: back) = some inside.length
  head_code : ∃ cell ∈ head.head?, cell.isLiteral = false
  selects : metricSelectors.contains selector = true
  head_text : ∃ blanks, (∀ b ∈ blanks, isBlank b = true) ∧ text head = selector.toList ++ blanks

theorem slice?_row {query : List Char} {start stop : Nat} (before part after : List Cell)
    (hcells : cells query = before ++ part ++ after) (hstart : start = byteSize (text before))
    (hstop : stop = byteSize (text before) + byteSize (text part)) :
    slice? query start stop = some (text part) := by
  refine slice?_eq (text before) (text part) (text after) ?_ hstart hstop
  rw [← text_cells query, hcells, text_append, text_append]

theorem closingParen?_bare {bare : List Cell} {last : Cell}
    (hbare : ∀ cell ∈ bare, isBlank cell.char = true) (hlast : last.isCode ')' = true)
    (rest : List Cell) : closingParen? 0 (bare ++ last :: rest) = some bare.length := by
  have hskip : ∀ cell ∈ bare, cell.char ≠ '(' ∧ cell.char ≠ ')' := by
    intro cell hcell
    have hblank := hbare cell hcell
    refine ⟨?_, ?_⟩ <;> intro hchar <;> rw [hchar] at hblank <;> revert hblank <;> decide
  rw [closingParen?_skip hskip, closingParen?_right_zero hlast]
  simp

theorem trimStart_bare {bare : List Cell} {last : Cell}
    (hbare : ∀ cell ∈ bare, isBlank cell.char = true) (hlast : last.isCode ')' = true)
    (rest : List Cell) : trimStart (text (bare ++ last :: rest)) = ')' :: text rest := by
  rw [trimStart, text_append, List.dropWhile_append_of_pos (forall_mem_text hbare), text_cons,
    char_of_isCode hlast]
  rfl

/-- The text in front of a call ends with `function`, blanks, a parenthesis and blanks. -/
structure Encloses (row : List Cell) (start function gap blanks : List Char) : Prop where
  front : text row = start ++ (function ++ (gap ++ '(' :: blanks))
  gap : ∀ c ∈ gap, isBlank c = true
  blanks : ∀ c ∈ blanks, isBlank c = true
  name : ∀ c ∈ function, isNameChar c = true
  start : ∀ c ∈ start.getLast?, isNameChar c = false

theorem Encloses.exists_rows {row : List Cell} {start function gap blanks : List Char}
    (h : Encloses row start function gap blanks) :
    ∃ startRow nameRow gapRow outer spaces,
      row = startRow ++ (nameRow ++ (gapRow ++ outer :: spaces)) ∧ text startRow = start ∧
        text nameRow = function ∧ text gapRow = gap ∧ outer.char = '(' ∧
        ∀ cell ∈ spaces, isBlank cell.char = true := by
  obtain ⟨startRow, rest, hrow, hstart, hrest⟩ := row_of_text h.front
  obtain ⟨nameRow, rest, rfl, hname, hrest⟩ := row_of_text hrest
  obtain ⟨gapRow, rest, rfl, hgap, hrest⟩ := row_of_text hrest
  obtain ⟨outer, spaces, rfl, houter, rfl⟩ := row_of_text_cons hrest
  exact ⟨startRow, nameRow, gapRow, outer, spaces, hrow, hstart, hname, hgap, houter,
    fun cell hcell => h.blanks _ (List.mem_map_of_mem hcell)⟩

namespace CallAt

variable {query : List Char} {selector : String} {before after front head inside back : List Cell}
  {stage : Stage} {paren close : Cell}

def span (before front head inside : List Cell) (paren : Cell) : Span :=
  ⟨byteSize (text (before ++ front)),
    byteSize (text (before ++ front ++ head ++ paren :: inside)) + 1⟩

theorem cells_eq (h : CallAt query selector before stage after front head inside back paren close) :
    cells query = before ++ front ++ head ++ paren :: inside ++ close :: back ++
      (stage.gap ++ after) := by
  rw [h.standing.row_eq, h.body]
  simp

theorem isNameChar_selector
    (h : CallAt query selector before stage after front head inside back paren close) :
    ∀ c ∈ selector.toList, isNameChar c = true := by
  have hselects := h.selects
  rw [← String.ofList_toList (s := selector)] at hselects
  exact (AlignMetric.isNameChar_of_metricSelector hselects).2

theorem sliceSpan?_call (h : CallAt query selector before stage after front head inside back paren close) :
    sliceSpan? query (span before front head inside paren) =
      some (text (head ++ paren :: inside ++ [close])) := by
  have hsize : ')'.utf8Size = 1 := rfl
  refine slice?_row (before ++ front) _ (back ++ (stage.gap ++ after)) ?_ rfl ?_
  · rw [h.cells_eq]
    simp
  · simp [span, char_of_isCode h.close_code, hsize, Nat.add_assoc]

theorem slice?_behind (h : CallAt query selector before stage after front head inside back paren close) :
    slice? query (span before front head inside paren).stop (placeSpan (before, stage)).stop =
      some (text back) := by
  have hsize : ')'.utf8Size = 1 := rfl
  refine slice?_row (before ++ front ++ head ++ paren :: inside ++ [close]) back
    (stage.gap ++ after) ?_ ?_ ?_
  · rw [h.cells_eq]
    simp
  · simp [span, char_of_isCode h.close_code, hsize, Nat.add_assoc]
  · simp [placeSpan, h.body, Nat.add_assoc]

theorem filterReplacement?_eq
    (h : CallAt query selector before stage after front head inside back paren close)
    {selection : AlignMetric.Selection} (hselection : selection.selector = selector)
    (name : List Char) :
    filterReplacement? query (view query) (placeSpan (before, stage))
        ⟨selector, span before front head inside paren, name⟩ =
      some (AlignMetric.alignFilter? selection ⟨front, text (head ++ paren :: inside ++ [close]),
        AlignMetric.column name, text back⟩) := by
  have hdepth : parenDepth? query (view query) (placeSpan (before, stage)).start
      (span before front head inside paren).start = some (parenBalance front) := by
    refine parenDepth?_eq before front (head ++ paren :: inside ++ close :: back ++
      (stage.gap ++ after)) ?_ rfl (by simp [span])
    rw [h.cells_eq]
    simp
  have hfront : slice? query (placeSpan (before, stage)).start
      (span before front head inside paren).start = some (text front) := by
    refine slice?_row before front (head ++ paren :: inside ++ close :: back ++
      (stage.gap ++ after)) ?_ rfl (by simp [span])
    rw [h.cells_eq]
    simp
  rw [filterReplacement?, hdepth, AlignMetric.alignFilter?, hselection]
  simp only [Option.bind_eq_bind, Option.bind_some, h.sliceSpan?_call, hfront, h.slice?_behind]
  split <;> rfl

theorem closed_of_trimStart (h : CallAt query selector before stage after front head inside back paren close)
    {rest : List Char} (htrim : trimStart (text back) = ')' :: rest) : AlignMetric.Closed back := by
  obtain ⟨blanks, hblanks, htext⟩ := exists_blanks (text back)
  rw [htrim] at htext
  obtain ⟨spaces, tail, rfl, hspaces, htail⟩ := row_of_text htext
  obtain ⟨last, tail, rfl, hlast, -⟩ := row_of_text_cons htail
  have hspace : ∀ cell ∈ spaces, isBlank cell.char = true := by
    intro cell hcell
    exact hblanks cell.char (by rw [← hspaces]; exact List.mem_map_of_mem hcell)
  refine ⟨spaces, last, tail, rfl, hspace, ?_⟩
  have hcells : Scanner.paint {} query = (before ++ front ++ head ++ paren :: inside) ++
      close :: ((spaces ++ [last]) ++ (tail ++ (stage.gap ++ after))) := by
    rw [show Scanner.paint {} query = cells query from rfl, h.cells_eq]
    simp
  have hclose : close.isLiteral = false := by
    have := h.close_code
    simp only [Cell.isCode, Bool.and_eq_true, Bool.not_eq_true'] at this
    exact this.2
  have hliteral := Scanner.paint_behind_code hcells hclose (by
    intro cell hcell
    rcases List.mem_append.mp hcell with hcell | hcell
    · obtain ⟨hdouble, hsingle, hslash, -⟩ := plain_of_isBlank (hspace cell hcell)
      exact ⟨hdouble, hsingle, hslash⟩
    · rw [List.mem_singleton.mp hcell, hlast]
      decide) last (by simp)
  simp [Cell.isCode, hlast, hliteral]

theorem closed_of_closingParen?
    (h : CallAt query selector before stage after front head inside back paren close) {n : Nat}
    (hclosing : closingParen? 0 (back ++ (stage.gap ++ after)) = some n)
    (hblank : ∀ cell ∈ (back ++ (stage.gap ++ after)).take n, isBlank cell.char = true) :
    AlignMetric.Closed back := by
  obtain ⟨blanks, last, rest, hsplit, rfl, hlast, -⟩ := closingParen?_eq hclosing
  rw [hsplit, List.take_left] at hblank
  have hfence := AlignMetric.fence_of_standing h.standing
  have hright : isBlank last.char = false ∧ last.char ≠ '|' := by
    rw [char_of_isCode hlast]
    decide
  rcases List.append_eq_append_iff.mp hsplit with ⟨more, rfl, hbehind⟩ | ⟨more, rfl, hbehind⟩
  · rw [hbehind] at hfence
    refine absurd hfence (AlignMetric.not_fence (fun cell hcell hpipe => ?_) hright)
    have hcell := hblank cell (by simp [hcell])
    rw [hpipe] at hcell
    revert hcell
    decide
  · cases more with
    | nil =>
        rw [List.nil_append] at hbehind
        rw [← hbehind, ← List.nil_append (last :: rest)] at hfence
        exact absurd hfence (AlignMetric.not_fence (by simp) hright)
    | cons cell more =>
        obtain ⟨rfl, -⟩ := List.cons.inj hbehind
        exact ⟨blanks, last, more, rfl, hblank, hlast⟩

theorem front_of_aggregation
    (h : CallAt query selector before stage after front head inside back paren close) {verb : String}
    (hverb : stage.verb? = some verb) (haggregation : aggregationVerbs.contains verb = true) :
    ∃ c ∈ (text front).head?, isBlank c = false ∧ c ≠ '(' := by
  obtain ⟨blanks, hblanks, hhead⟩ := h.head_text
  obtain ⟨hrun, hne⟩ := h.standing.trimmed.text_of_verb? hverb
  have htext : stage.text = text front ++ (text head ++ '(' :: text (inside ++ close :: back)) := by
    rw [Stage.text, h.body]
    simp [char_of_isCode h.paren_code]
  cases front with
  | nil =>
      rw [htext, hhead, text_nil, List.nil_append, List.append_assoc,
        AlignMetric.takeWhile_called h.isNameChar_selector hblanks] at hrun
      have hselects := h.selects
      rw [String.toList_inj.mp hrun, (AlignMetric.not_function_of_aggregation haggregation).2]
        at hselects
      simp at hselects
  | cons first front =>
      have hfirst : isNameChar first.char = true := by
        by_contra hfirst
        rw [htext, text_cons, List.cons_append, List.takeWhile_cons_of_neg hfirst] at hrun
        exact hne hrun.symm
      refine ⟨first.char, by simp, ?_, ?_⟩
      · exact isBlank_of_isNameChar hfirst
      · intro hparen
        rw [hparen] at hfirst
        revert hfirst
        decide

theorem closingParen?_around
    (h : CallAt query selector before stage after front head inside back paren close) {spaces : List Cell}
    (hspaces : ∀ cell ∈ spaces, isBlank cell.char = true) (behind : List Cell) :
    closingParen? 0 (spaces ++ head ++ paren :: inside ++ close :: (back ++ behind)) =
      (closingParen? 0 (back ++ behind)).map
        (· + (spaces ++ head ++ paren :: inside ++ [close]).length) := by
  obtain ⟨blanks, hblanks, hhead⟩ := h.head_text
  have hnoParen : ∀ cell ∈ spaces ++ head, cell.char ≠ '(' ∧ cell.char ≠ ')' := by
    have hchar (c : Char) (hc : isBlank c = true ∨ isNameChar c = true) : c ≠ '(' ∧ c ≠ ')' := by
      refine ⟨?_, ?_⟩ <;> rintro rfl <;> revert hc <;> decide
    intro cell hcell
    rcases List.mem_append.mp hcell with hcell | hcell
    · exact hchar _ (.inl (hspaces cell hcell))
    · have hmem : cell.char ∈ selector.toList ++ blanks := hhead ▸ List.mem_map_of_mem hcell
      rcases List.mem_append.mp hmem with hmem | hmem
      · exact hchar _ (.inr (h.isNameChar_selector _ hmem))
      · exact hchar _ (.inl (hblanks _ hmem))
  have hinside : closingParen? 0 ((inside ++ close :: back) ++ behind) = some inside.length :=
    (closingParen?_append_iff behind (by simp)).mpr h.closing
  have hdrop : ((inside ++ close :: back) ++ behind).drop (inside.length + 1) = back ++ behind := by
    simp
  have houter := closingParen?_outer hinside 0
  rw [hdrop, Nat.zero_add, Nat.add_zero] at houter
  rw [show spaces ++ head ++ paren :: inside ++ close :: (back ++ behind) =
    (spaces ++ head) ++ paren :: ((inside ++ close :: back) ++ behind) by simp,
    closingParen?_skip hnoParen, closingParen?_left h.paren_code, Nat.zero_add, houter,
    Option.map_map, Option.map_map]
  congr 1
  funext n
  simp
  omega

theorem slice?_between
    (h : CallAt query selector before stage after front head inside back paren close) (n : Nat) :
    slice? query (span before front head inside paren).stop
        (byteSize (text (before ++ front ++ head ++ paren :: inside ++ [close] ++
          (back ++ (stage.gap ++ after)).take n))) =
      some (text ((back ++ (stage.gap ++ after)).take n)) := by
  have hsize : close.char.utf8Size = 1 := by rw [char_of_isCode h.close_code]; rfl
  refine slice?_row (before ++ front ++ head ++ paren :: inside ++ [close]) _
    ((back ++ (stage.gap ++ after)).drop n) ?_ ?_ ?_
  · rw [h.cells_eq, List.append_assoc _ (List.take n _), List.take_append_drop]
    simp
  · simp [span, hsize, Nat.add_assoc]
  · rw [text_append, byteSize_append]

theorem slice?_tail {bare tail : List Cell} {last : Cell}
    (h : CallAt query selector before stage after front head inside (bare ++ last :: tail) paren close)
    (hlast : last.isCode ')' = true) :
    slice? query (byteSize (text (before ++ front ++ head ++ paren :: inside ++ [close] ++ bare)) + 1)
      (placeSpan (before, stage)).stop = some (text tail) := by
  have hsize : last.char.utf8Size = 1 := by rw [char_of_isCode hlast]; rfl
  refine slice?_row (before ++ front ++ head ++ paren :: inside ++ [close] ++ bare ++ [last])
    tail (stage.gap ++ after) ?_ ?_ ?_
  · rw [h.cells_eq]
    simp
  · simp [hsize, Nat.add_assoc]
  · simp [placeSpan, h.body, Nat.add_assoc]

section Aggregate

variable (h : CallAt query selector before stage after front head inside back paren close)
  {verb : String} (hverb : stage.verb? = some verb)
  (haggregation : aggregationVerbs.contains verb = true)

include h hverb haggregation

omit hverb haggregation in
theorem matchingParen?_around {lead spaces : List Cell} {outer : Cell}
    (hfront : front = lead ++ outer :: spaces) (houter : outer.char = '(')
    (hspaces : ∀ cell ∈ spaces, isBlank cell.char = true) :
    matchingParen? query (view query) (byteSize (text (before ++ lead))) =
      some ((closingParen? 0 (back ++ (stage.gap ++ after))).map fun n =>
        byteSize (text (before ++ front ++ head ++ paren :: inside ++ [close] ++
          (back ++ (stage.gap ++ after)).take n))) := by
  have hcells : cells query = (before ++ lead) ++ outer :: (spaces ++ head ++ paren :: inside ++
      close :: (back ++ (stage.gap ++ after))) := by
    rw [h.cells_eq, hfront]
    simp
  have hcode : outer.isCode '(' = true := by
    obtain ⟨first, hfirst, hliteral⟩ := h.head_code
    obtain ⟨more, rfl⟩ := List.head?_eq_some_iff.mp hfirst
    have hsplit : cells query = (before ++ lead) ++ outer :: (spaces ++ first ::
        (more ++ paren :: inside ++ close :: (back ++ (stage.gap ++ after)))) := by
      rw [hcells]
      simp
    simp [Cell.isCode, houter, isLiteral_of_blanks_behind hsplit houter hspaces hliteral]
  rw [matchingParen?_eq _ _ _ hcells hcode, h.closingParen?_around hspaces, Option.map_map]
  congr 2
  funext n
  rw [Function.comp_apply, Nat.add_comm, show spaces ++ head ++ paren :: inside ++
    close :: (back ++ (stage.gap ++ after)) = (spaces ++ head ++ paren :: inside ++ [close]) ++
      (back ++ (stage.gap ++ after)) by simp, List.take_length_add_append, hfront]
  simp

omit hverb haggregation in
theorem sliceSpan?_function {start function gap blanks : List Char}
    (hcall : Encloses front start function gap blanks) :
    sliceSpan? query ⟨byteSize (text before ++ start), byteSize (text before ++ start ++ function)⟩ =
      some function := by
  obtain ⟨startRow, nameRow, gapRow, outer, spaces, hfront, rfl, rfl, rfl, -, -⟩ := hcall.exists_rows
  refine slice?_row (before ++ startRow) nameRow (gapRow ++ outer :: spaces ++ head ++
    paren :: inside ++ close :: back ++ (stage.gap ++ after)) ?_ (by simp) (by simp [Nat.add_assoc])
  rw [h.cells_eq, hfront]
  simp

omit hverb haggregation in
theorem matchingParen?_enclosing {start function gap blanks : List Char}
    (hcall : Encloses front start function gap blanks) :
    matchingParen? query (view query) (byteSize (text before ++ start ++ function ++ gap)) =
      some ((closingParen? 0 (back ++ (stage.gap ++ after))).map fun n =>
        byteSize (text (before ++ front ++ head ++ paren :: inside ++ [close] ++
          (back ++ (stage.gap ++ after)).take n))) := by
  obtain ⟨startRow, nameRow, gapRow, outer, spaces, hfront, rfl, rfl, rfl, houter, hspaces⟩ :=
    hcall.exists_rows
  have hsplit : front = (startRow ++ nameRow ++ gapRow) ++ outer :: spaces := by rw [hfront]; simp
  have hsize : byteSize (text before ++ text startRow ++ text nameRow ++ text gapRow) =
      byteSize (text (before ++ (startRow ++ nameRow ++ gapRow))) := by simp
  rw [hsize]
  exact h.matchingParen?_around hsplit houter hspaces

theorem slice?_arguments {start function gap blanks : List Char}
    (hcall : Encloses front start function gap blanks)
    (hfunction : functions.contains (String.ofList function) = true) :
    slice? query ((placeSpan (before, stage)).start + byteSize verb.toList)
      (byteSize (text before ++ start)) = some (start.drop verb.length) := by
  have hstage : stage.text = start ++ (function ++ (gap ++ '(' :: (blanks ++
      text (head ++ paren :: (inside ++ close :: back))))) := by
    rw [Stage.text, h.body, text_append, hcall.front]
    simp
  obtain ⟨more, hmore⟩ := AlignMetric.front_of_verb hstage
    (h.standing.trimmed.text_of_verb? hverb).1 haggregation hcall.name hcall.gap hcall.start hfunction
  obtain ⟨startRow, rest, hfront, hstart, -⟩ := row_of_text hcall.front
  obtain ⟨verbRow, moreRow, rfl, hverbRow, hmoreRow⟩ := row_of_text (hstart.trans hmore)
  rw [hmore, ← String.length_toList, List.drop_left, ← hverbRow, ← hmoreRow]
  refine slice?_row (before ++ verbRow) moreRow (rest ++ head ++ paren :: inside ++ close :: back ++
    (stage.gap ++ after)) ?_ (by simp [placeSpan]) (by simp [Nat.add_assoc])
  rw [h.cells_eq, hfront]
  simp

section Wrap

variable {start function gap blanks : List Char} (hcall : Encloses front start function gap blanks)
  (hlocal : AlignMetric.enclosingCall? (text front) = some (start, function))
  (hcallable : (functions.contains (String.ofList function) &&
    !metricSelectors.contains (String.ofList function)) = true)
  (name : List Char)

include hcall hlocal hcallable

theorem wrapAggregate?_closed (hclosed : AlignMetric.Closed back) :
    wrapAggregate? query (view query) (placeSpan (before, stage)) verb
        ⟨selector, span before front head inside paren, name⟩
        ⟨byteSize (text before ++ start), byteSize (text before ++ start ++ function)⟩
        (byteSize (text before ++ start ++ function ++ gap)) =
      some (AlignMetric.alignAggregate? verb ⟨front, text (head ++ paren :: inside ++ [close]),
        AlignMetric.column name, text back⟩) := by
  obtain ⟨bare, last, tail, rfl, hbare, hlast⟩ := hclosed
  have hinside : ¬ byteSize (text before ++ start) < (placeSpan (before, stage)).start := by
    simp [placeSpan]
  have hclosing : closingParen? 0 (bare ++ last :: tail ++ (stage.gap ++ after)) =
      some bare.length := by
    rw [List.append_assoc, List.cons_append, closingParen?_bare hbare hlast]
  have htake : (bare ++ last :: tail ++ (stage.gap ++ after)).take bare.length = bare := by
    rw [List.append_assoc, List.take_left]
  have hbetween := h.slice?_between bare.length
  rw [htake] at hbetween
  have hblank : (trim (text bare)).isEmpty = true := by
    rw [trim_of_forall (forall_mem_text hbare)]
    rfl
  rw [AlignMetric.alignAggregate?_closed hlocal hcallable (trimStart_bare hbare hlast tail),
    wrapAggregate?, h.sliceSpan?_function hcall]
  simp only [Option.bind_eq_bind, Option.bind_some, h.matchingParen?_enclosing hcall, hcallable,
    decide_eq_false hinside, hclosing, Option.map_some, Option.elim_some, htake, hbetween, hblank,
    h.sliceSpan?_call, h.slice?_tail hlast,
    h.slice?_arguments hverb haggregation hcall (Bool.and_eq_true_iff.mp hcallable).1]
  rfl

omit hverb haggregation hlocal in
theorem wrapAggregate?_not_closed (hclosed : ¬ AlignMetric.Closed back) :
    wrapAggregate? query (view query) (placeSpan (before, stage)) verb
        ⟨selector, span before front head inside paren, name⟩
        ⟨byteSize (text before ++ start), byteSize (text before ++ start ++ function)⟩
        (byteSize (text before ++ start ++ function ++ gap)) =
      some (AlignMetric.alignAggregate? verb ⟨front, text (head ++ paren :: inside ++ [close]),
        AlignMetric.column name, text back⟩) := by
  have hinside : ¬ byteSize (text before ++ start) < (placeSpan (before, stage)).start := by
    simp [placeSpan]
  rw [AlignMetric.alignAggregate?_not_closed
    fun rest htrim => hclosed (h.closed_of_trimStart htrim), wrapAggregate?,
    h.sliceSpan?_function hcall]
  simp only [Option.bind_eq_bind, Option.bind_some, h.matchingParen?_enclosing hcall, hcallable,
    decide_eq_false hinside]
  cases hclosing : closingParen? 0 (back ++ (stage.gap ++ after)) with
  | none => rfl
  | some n =>
      have hnotBlank : (trim (text ((back ++ (stage.gap ++ after)).take n))).isEmpty = false := by
        by_contra hblank
        refine hclosed (h.closed_of_closingParen? hclosing ?_)
        have hall := forall_of_trim_isEmpty (by simpa using hblank)
        exact fun cell hcell => hall cell.char (List.mem_map_of_mem hcell)
      simp only [Option.map_some, Option.elim_some, h.slice?_between n, Option.bind_some, hnotBlank]
      rfl

end Wrap

theorem wrapAggregate?_eq {start function gap blanks : List Char}
    (hlocal : AlignMetric.enclosingCall? (text front) = some (start, function))
    (hcall : Encloses front start function gap blanks) (name : List Char) :
    wrapAggregate? query (view query) (placeSpan (before, stage)) verb
        ⟨selector, span before front head inside paren, name⟩
        ⟨byteSize (text before ++ start), byteSize (text before ++ start ++ function)⟩
        (byteSize (text before ++ start ++ function ++ gap)) =
      some (AlignMetric.alignAggregate? verb ⟨front, text (head ++ paren :: inside ++ [close]),
        AlignMetric.column name, text back⟩) := by
  cases hcallable : (functions.contains (String.ofList function) &&
      !metricSelectors.contains (String.ofList function)) with
  | false =>
      rw [AlignMetric.alignAggregate?_not_function hlocal hcallable, wrapAggregate?,
        h.sliceSpan?_function hcall]
      simp only [Option.bind_eq_bind, Option.bind_some, hcallable, Bool.not_false, Bool.or_true]
      rfl
  | true =>
      by_cases hclosed : AlignMetric.Closed back
      · exact h.wrapAggregate?_closed hverb haggregation hcall hlocal hcallable name hclosed
      · exact h.wrapAggregate?_not_closed hcall hcallable name hclosed

theorem aggregateReplacement?_eq (name : List Char) :
    aggregateReplacement? query (view query) (placeSpan (before, stage)) verb
        ⟨selector, span before front head inside paren, name⟩ =
      some (AlignMetric.alignAggregate? verb ⟨front, text (head ++ paren :: inside ++ [close]),
        AlignMetric.column name, text back⟩) := by
  have hlocal := AlignMetric.enclosingCall?_append (AlignMetric.free_of_standing h.standing)
    (h.front_of_aggregation hverb haggregation)
  have hquery : query = (text before ++ text front) ++
      text (head ++ paren :: inside ++ close :: back ++ (stage.gap ++ after)) := by
    rw [← text_append, ← text_append, ← text_cells query, h.cells_eq]
    simp
  have hstart : (span before front head inside paren).start =
      byteSize (text before ++ text front) := by simp [span]
  rw [aggregateReplacement?, hstart]
  rcases enclosingCall?_eq hquery with ⟨hnone, hbytes⟩ |
    ⟨start, function, gap, blanks, hsome, htext, hgap, hblanks, -, hname, hlast, hbytes⟩
  · rw [hnone] at hlocal
    rw [hbytes, AlignMetric.alignAggregate?_none (Option.map_eq_none_iff.mp hlocal.symm)]
    rfl
  · rw [hsome] at hlocal
    obtain ⟨⟨start', function'⟩, hcall, hpair⟩ := Option.map_eq_some_iff.mp hlocal.symm
    obtain ⟨rfl, rfl⟩ := Prod.mk.inj hpair
    rw [hbytes]
    refine wrapAggregate?_eq h hverb haggregation hcall ⟨?_, hgap, hblanks, hname, ?_⟩ name
    · simpa using htext
    · intro c hc
      exact hlast c (by simp [Option.mem_def.mp hc])

end Aggregate

end CallAt

/-! ## The pass -/

def replace? (query : List Char) (view : View) (stage : Span) (verb? : Option String)
    (call : MetricCall) : Option (Option (List Char)) :=
  verb?.elim (some none) fun verb =>
    if verb = "filter" then filterReplacement? query view stage call
    else if aggregationVerbs.contains verb then aggregateReplacement? query view stage verb call
    else some none

def judge? (query : List Char) (view : View) (located : Located) : Option (Option Rewrite) := do
  let closing? ← matchingParen? query view located.opening
  closing?.elim (some none) fun closing => do
    let arguments ← slice? query (located.opening + 1) closing
    match AlignMetric.quotedName? arguments, view.stages.find? (·.contains located.start) with
    | some name, some stage => do
      let verb? ← stageVerb? query stage
      let replacement? ← replace? query view stage verb?
        ⟨located.selector, ⟨located.start, closing + 1⟩, name⟩
      let found ← sliceSpan? query stage
      some (replacement?.map fun replacement => ⟨stage.start, found, replacement⟩)
    | _, _ => some none

def metricRewrite? (query : List Char) : Option (Option Rewrite) := do
  let view ← scan? query
  let verbs ← view.stages.mapM (stageVerb? query)
  if verbs.any (· == some "align") then some none
  else
    let located ← (matchesFrom readSelector? 0 0 none query).mapM (locate? query view)
    match located.reduceOption with
    | [only] => judge? query view only
    | _ => some none

def alignMetric? (query : String) : Option Outcome := do
  let rewrite? ← metricRewrite? query.toList
  rewrite?.elim (some (.unchanged query)) fun rewrite =>
    rewritten? alignMetric.name AlignMetric.rationale query [rewrite]

section Pass

variable {query : List Char}

theorem find?_place {before : List Cell} {stages : List Stage} {place : List Cell × Stage}
    (h : place ∈ placesFrom before stages) {front rest : List Cell} {cell : Cell}
    (hbody : place.2.body = front ++ cell :: rest) :
    ((placesFrom before stages).map placeSpan).find?
        (·.contains (byteSize (text (place.1 ++ front)))) = some (placeSpan place) := by
  have hpos := cell.char.utf8Size_pos
  induction stages generalizing before with
  | nil => simp [placesFrom] at h
  | cons stage stages ih =>
      rw [placesFrom, List.map_cons]
      rcases List.mem_cons.mp h with rfl | h
      · have hbody : stage.body = front ++ cell :: rest := hbody
        refine List.find?_cons_of_pos ?_
        simp only [contains_iff, placeSpan, hbody, text_append, byteSize_append, text_cons,
          byteSize_cons]
        omega
      · rw [List.find?_cons_of_neg, ih h]
        obtain ⟨more, hmore⟩ := prefix_of_mem_placesFrom h
        simp only [contains_iff, placeSpan, ← hmore, Stage.cells, text_append, byteSize_append]
        omega

def mendWith? (stage : Stage) (selection : AlignMetric.Selection) : Option (List Char) :=
  (AlignMetric.callOf? stage selection).bind fun call =>
    stage.verb?.bind fun verb =>
      if verb = "filter" then AlignMetric.alignFilter? selection call
      else if aggregationVerbs.contains verb then AlignMetric.alignAggregate? verb call
      else none

theorem replace?_eq {selector : String} {before after front head inside back : List Cell}
    {stage : Stage} {paren close : Cell}
    (h : CallAt query selector before stage after front head inside back paren close)
    {selection : AlignMetric.Selection} (hselection : selection.selector = selector)
    (name : List Char) :
    replace? query (view query) (placeSpan (before, stage)) stage.verb?
        ⟨selector, CallAt.span before front head inside paren, name⟩ =
      some (stage.verb?.bind fun verb =>
        if verb = "filter" then AlignMetric.alignFilter? selection
          ⟨front, text (head ++ paren :: inside ++ [close]), AlignMetric.column name, text back⟩
        else if aggregationVerbs.contains verb then AlignMetric.alignAggregate? verb
          ⟨front, text (head ++ paren :: inside ++ [close]), AlignMetric.column name, text back⟩
        else none) := by
  rw [replace?]
  cases hverb : stage.verb? with
  | none => rfl
  | some verb =>
      simp only [Option.elim_some, Option.bind_some]
      split
      · exact h.filterReplacement?_eq hselection name
      · split
        · rename_i haggregation
          exact h.aggregateReplacement?_eq hverb haggregation name
        · rfl

theorem paren_of_selection {before front head arguments behind : List Cell} {paren : Cell}
    (hcells : cells query = before ++ front ++ (head ++ paren :: arguments) ++ behind)
    (hparen : paren.char = '(') (hcode : ∃ cell ∈ head.head?, cell.isLiteral = false)
    {selector blanks : List Char} (hselector : ∀ c ∈ selector, isNameChar c = true)
    (hblanks : ∀ b ∈ blanks, isBlank b = true) (hhead : text head = selector ++ blanks) :
    paren.isCode '(' = true := by
  obtain ⟨first, hfirst, hliteral⟩ := hcode
  obtain ⟨more, rfl⟩ := List.head?_eq_some_iff.mp hfirst
  have hpaint : Scanner.paint {} query = (before ++ front) ++ first ::
      ((more ++ [paren]) ++ (arguments ++ behind)) := by
    rw [show Scanner.paint {} query = cells query from rfl, hcells]
    simp
  have hplain : ∀ cell ∈ more ++ [paren], cell.char ≠ '"' ∧ cell.char ≠ '\'' ∧ cell.char ≠ '/' := by
    intro cell hcell
    rcases List.mem_append.mp hcell with hcell | hcell
    · have hmem : cell.char ∈ selector ++ blanks := by
        rw [← hhead]
        exact List.mem_map_of_mem (List.mem_cons_of_mem _ hcell)
      rcases List.mem_append.mp hmem with hmem | hmem
      · exact plain_of_blank_or_name (.inr (hselector _ hmem))
      · exact plain_of_blank_or_name (.inl (hblanks _ hmem))
    · rw [List.mem_singleton.mp hcell, hparen]
      decide
  have hcode := Scanner.paint_behind_code hpaint hliteral hplain paren (by simp)
  simp [Cell.isCode, hparen, hcode]

theorem quotedName?_across {before after : List Cell} {stage : Stage}
    (hstanding : Standing (cells query) before stage after) {front arguments : List Cell}
    {paren : Cell} (hbody : stage.body = front ++ paren :: arguments)
    (hparen : paren.isCode '(' = true) (hnone : closingParen? 0 arguments = none) {n : Nat}
    (hsome : closingParen? 0 (arguments ++ (stage.gap ++ after)) = some n) :
    AlignMetric.quotedName? (text ((arguments ++ (stage.gap ++ after)).take n)) = none := by
  obtain ⟨inside, close, rest, hsplit, rfl, hclose, -⟩ := closingParen?_eq hsome
  have hlength : arguments.length ≤ inside.length := by
    by_contra hshort
    rw [(closingParen?_append_iff _ (by omega)).mp hsome] at hnone
    simp at hnone
  have hcells : cells query = (before ++ front) ++ paren :: (inside ++ close :: rest) := by
    rw [hstanding.row_eq, hbody, ← hsplit]
    simp
  rw [hsplit, List.take_left]
  cases hname : AlignMetric.quotedName? (text inside) with
  | none => rfl
  | some name =>
      have hpure := AlignMetric.isSeparator_of_quotedName? hcells hparen hname
      have hnoGap : ¬ close.isGap = true := by
        have hchar := char_of_isCode hclose
        intro hgap
        rcases Bool.or_eq_true_iff.mp hgap with h | h
        · have hpipe := AlignMetric.char_of_separator
            (show close ∈ cells query by rw [hcells]; simp) h
          simp [hchar] at hpipe
        · rw [hchar] at h
          exact absurd h (by decide)
      -- so the whole gap lies in front of the parenthesis found
      obtain ⟨more, rfl, hbehind⟩ : ∃ more, inside = arguments ++ more ∧
          stage.gap ++ after = more ++ close :: rest := by
        rcases List.append_eq_append_iff.mp hsplit with ⟨more, hmore, hbehind⟩ | ⟨more, hmore, hbehind⟩
        · exact ⟨more, hmore, hbehind⟩
        · obtain rfl : more = [] := by
            have hlength' := congrArg List.length hmore
            rw [List.length_append] at hlength'
            exact List.eq_nil_of_length_eq_zero (by omega)
          exact ⟨[], by simpa using hmore.symm, by simpa using hbehind.symm⟩
      have hgap : ∀ cell ∈ stage.gap, cell ∈ more := by
        rcases List.append_eq_append_iff.mp hbehind with ⟨left, rfl, -⟩ | ⟨left, hleft, hrest⟩
        · intro cell hcell
          simp [hcell]
        · cases left with
          | nil =>
              rw [hleft]
              simp
          | cons first left =>
              obtain ⟨rfl, -⟩ := List.cons.inj hrest
              exact absurd (hstanding.trimmed.gap close (by rw [hleft]; simp)) hnoGap
      rcases hstanding.apart with rfl | hapart
      · rw [List.append_nil] at hbehind
        exact absurd (hstanding.trimmed.gap close (by rw [hbehind]; simp)) hnoGap
      · obtain ⟨separator, hseparator, hseparates⟩ := List.any_eq_true.mp hapart
        simp [hpure separator (by simp [hgap separator hseparator])] at hseparates

theorem exists_selection {before after : List Cell} {stage : Stage}
    (hstanding : Standing (cells query) before stage after) {selection : AlignMetric.Selection}
    (hselection : selection ∈ AlignMetric.selections stage) :
    ∃ front head paren arguments, stage.body = front ++ (head ++ paren :: arguments) ∧
      selection.start = front.length ∧ selection.size = head.length + 1 ∧
      paren.isCode '(' = true ∧ (∃ cell ∈ head.head?, cell.isLiteral = false) ∧
      metricSelectors.contains selection.selector = true ∧
      (∃ blanks, (∀ b ∈ blanks, isBlank b = true) ∧
        text head = selection.selector.toList ++ blanks) ∧
      ∀ c ∈ (text front).getLast?, isNameChar c = false := by
  obtain ⟨site, hsite, hselected⟩ := List.mem_filterMap.mp hselection
  obtain ⟨front, hrow, -, hindex, hprevious⟩ := mem_sitesFrom.mp hsite
  obtain ⟨hliteral, hstart, hselects, head, paren, arguments, blanks, hrest, hparen, hblanks, hhead,
    hsize⟩ := AlignMetric.selectionAt?_eq_some hselected
  rw [hrest] at hrow
  rw [Nat.zero_add] at hindex
  have hchars := (AlignMetric.isNameChar_of_metricSelector
    (show metricSelectors.contains (String.ofList selection.selector.toList) = true by
      rw [String.ofList_toList]; exact hselects))
  have hheadCode : ∃ cell ∈ head.head?, cell.isLiteral = false := by
    cases head with
    | nil => simp [hchars.1] at hhead
    | cons first head => exact ⟨first, by simp, by simpa [Site.inLiteral, hrest] using hliteral⟩
  have hcells : cells query = before ++ front ++ (head ++ paren :: arguments) ++
      (stage.gap ++ after) := by
    rw [hstanding.row_eq, hrow]
    simp
  have hpath : site.continuesPath = false := by
    rw [AlignMetric.selectionAt?] at hselected
    split at hselected
    · simp at hselected
    · rename_i hsite
      simp only [Bool.or_eq_true, not_or, Bool.not_eq_true] at hsite
      exact hsite.2
  refine ⟨front, head, paren, arguments, hrow, hstart.trans hindex, hsize,
    paren_of_selection hcells hparen hheadCode hchars.2 hblanks hhead, hheadCode, hselects,
    ⟨blanks, hblanks, hhead⟩, fun c hc => ?_⟩
  rw [Site.continuesPath, hprevious, Option.or_none, Option.mem_def.mp hc] at hpath
  simp only [Option.any_some, Bool.or_eq_false_iff] at hpath
  exact hpath.1

theorem callOf?_eq {stage : Stage} {selection : AlignMetric.Selection}
    {front head inside back : List Cell} {paren close : Cell}
    (hbody : stage.body = front ++ (head ++ paren :: (inside ++ close :: back)))
    (hstart : selection.start = front.length) (hsize : selection.size = head.length + 1)
    (hclosing : closingParen? 0 (inside ++ close :: back) = some inside.length) :
    AlignMetric.callOf? stage selection =
      (AlignMetric.quotedName? (text inside)).map fun name =>
        ⟨front, text (head ++ paren :: inside ++ [close]), AlignMetric.column name, text back⟩ := by
  have hdrop : stage.body.drop (selection.start + selection.size) = inside ++ close :: back := by
    rw [hbody, hstart, hsize, ← List.drop_drop, List.drop_left]
    simp
  have hfront : stage.body.take selection.start = front := by
    rw [hbody, hstart, List.take_left]
  have hcallText : (stage.body.drop selection.start).take (selection.size + inside.length + 1) =
      head ++ paren :: inside ++ [close] := by
    rw [hbody, hstart, List.drop_left, hsize,
      show head ++ paren :: (inside ++ close :: back) =
        (head ++ paren :: inside ++ [close]) ++ back by simp,
      show head.length + 1 + inside.length + 1 =
        (head ++ paren :: inside ++ [close]).length by simp; omega, List.take_left]
  have hback : (inside ++ close :: back).drop (inside.length + 1) = back := by simp
  simp only [AlignMetric.callOf?, hdrop, hclosing, Option.bind_some, List.take_left, hfront,
    hcallText, hback]

theorem judge?_eq {place : List Cell × Stage} (hplace : place ∈ places query)
    {selection : AlignMetric.Selection} (hselection : selection ∈ AlignMetric.selections place.2) :
    judge? query (view query) (locatedBytes query (selection.shift place.1.length)) =
      some ((mendWith? place.2 selection).map fun replacement =>
        ⟨byteSize (text place.1), place.2.text, replacement⟩) := by
  obtain ⟨before, stage⟩ := place
  obtain ⟨after, hstanding⟩ := exists_standing hplace
  obtain ⟨front, head, paren, arguments, hrow, hstart, hsize, hparenCode, hheadCode, hselects, hhead, -⟩ :=
    exists_selection hstanding hselection
  have hopen : cells query = (before ++ front ++ head) ++ paren :: (arguments ++
      (stage.gap ++ after)) := by
    rw [hstanding.row_eq, hrow]
    simp
  have hlocated : locatedBytes query (selection.shift before.length) =
      ⟨byteSize (text (before ++ front)), selection.selector,
        byteSize (text (before ++ front ++ head))⟩ := by
    have hfirst := offsetOf_cells (before ++ front) (head ++ paren :: (arguments ++
      (stage.gap ++ after))) (show cells query = _ by rw [hopen]; simp)
    have hsecond := offsetOf_cells (before ++ front ++ head) _ hopen
    simp only [List.length_append] at hfirst hsecond
    simp only [locatedBytes, AlignMetric.Selection.shift, hstart, hsize, hfirst]
    rw [show before.length + front.length + (head.length + 1) - 1 =
      before.length + front.length + head.length by omega, hsecond]
  simp only [hlocated, judge?, matchingParen?_eq _ _ _ hopen hparenCode, Option.bind_eq_bind,
    Option.bind_some, mendWith?]
  cases hlocal : closingParen? 0 arguments with
  | none =>
      have hcall : AlignMetric.callOf? stage selection = none := by
        have hdrop : stage.body.drop (selection.start + selection.size) = arguments := by
          rw [hrow, hstart, hsize, ← List.drop_drop, List.drop_left]
          simp
        simp only [AlignMetric.callOf?, hdrop, hlocal, Option.bind_none]
      rw [hcall]
      cases hwhole : closingParen? 0 (arguments ++ (stage.gap ++ after)) with
      | none => rfl
      | some n =>
          have hnone := quotedName?_across hstanding (show stage.body = (front ++ head) ++
            paren :: arguments by rw [hrow]; simp) hparenCode hlocal hwhole
          simp only [Option.map_some, Option.elim_some, slice?_inside hopen hparenCode,
            Option.bind_some, hnone]
          rfl
  | some n =>
      obtain ⟨inside, close, back, rfl, rfl, hclose, -⟩ := closingParen?_eq hlocal
      have hwhole : closingParen? 0 ((inside ++ close :: back) ++ (stage.gap ++ after)) =
          some inside.length := (closingParen?_append_iff _ (by simp)).mpr hlocal
      have hcall : CallAt query selection.selector before stage after front head inside back paren
          close :=
        ⟨hstanding, hrow, hparenCode, hclose, hlocal, hheadCode, hselects, hhead⟩
      have htake : ((inside ++ close :: back) ++ (stage.gap ++ after)).take inside.length =
          inside := by
        rw [List.append_assoc, List.take_left]
      obtain ⟨first, hfirst, -⟩ := hheadCode
      obtain ⟨more, rfl⟩ := List.head?_eq_some_iff.mp hfirst
      have hfind : (view query).stages.find? (·.contains (byteSize (text (before ++ front)))) =
          some (placeSpan (before, stage)) := by
        rw [stages_view]
        exact find?_place hplace hrow
      have hslice := slice?_inside hopen hparenCode inside.length
      rw [htake] at hslice
      simp only [hwhole, Option.map_some, Option.elim_some, htake, hslice, Option.bind_some,
        callOf?_eq hrow hstart hsize hlocal]
      cases hname : AlignMetric.quotedName? (text inside) with
      | none => rfl
      | some name =>
          have hreplace := replace?_eq hcall rfl name
          have hspan : CallAt.span before front (first :: more) inside paren =
              ⟨byteSize (text (before ++ front)),
                byteSize (text (before ++ front ++ first :: more ++ paren :: inside)) + 1⟩ := rfl
          rw [hspan] at hreplace
          simp only [hfind, stageVerb?_place hplace, Option.bind_some, hreplace,
            sliceSpan?_place hplace, Option.map_some]
          rfl

theorem rewrites_only {selection : AlignMetric.Selection}
    (h : ((places query).flatMap fun place =>
      (AlignMetric.selections place.2).map (AlignMetric.Selection.shift place.1.length)) =
        [selection]) :
    ∃ place ∈ places query, ∃ own ∈ AlignMetric.selections place.2,
      selection = own.shift place.1.length ∧
      rewritesAt 0 (.ofStages AlignMetric.mendStage? (layout query)) =
        ((mendWith? place.2 own).map fun replacement =>
          (⟨byteSize (text place.1), place.2.text, replacement⟩ : Rewrite)).toList := by
  have hrewrites : rewritesAt 0 (.ofStages AlignMetric.mendStage? (layout query)) =
      ((places query).map fun place => (AlignMetric.mendStage? place.2).map fun replacement =>
        (⟨byteSize (text place.1), place.2.text, replacement⟩ : Rewrite)).reduceOption := by
    rw [Patch.ofStages, rewritesAt, Nat.zero_add, rewritesAt_ofStages]
    rfl
  rw [hrewrites]
  generalize places query = all at h
  induction all with
  | nil => simp at h
  | cons place all ih =>
      rw [List.flatMap_cons] at h
      cases hown : AlignMetric.selections place.2 with
      | nil =>
          rw [hown, List.map_nil, List.nil_append] at h
          obtain ⟨other, hother, own, howns, heq, hrest⟩ := ih h
          refine ⟨other, List.mem_cons_of_mem _ hother, own, howns, heq, ?_⟩
          rw [List.map_cons, ← hrest]
          simp [AlignMetric.mendStage?, hown, List.reduceOption_cons_of_none]
      | cons own more =>
          rw [hown, List.map_cons, List.cons_append, List.cons.injEq, List.append_eq_nil_iff] at h
          obtain ⟨hfirst, hmore, hothers⟩ := h
          obtain rfl : more = [] := by simpa using hmore
          refine ⟨place, by simp, own, by simp [hown], hfirst.symm, ?_⟩
          have hnone : (all.map fun place => (AlignMetric.mendStage? place.2).map fun replacement =>
              (⟨byteSize (text place.1), place.2.text, replacement⟩ : Rewrite)).reduceOption = [] := by
            rw [List.flatMap_eq_nil_iff] at hothers
            rw [List.reduceOption, List.filterMap_eq_nil_iff]
            intro entry hentry
            obtain ⟨other, hother, rfl⟩ := List.mem_map.mp hentry
            have hnil : AlignMetric.selections other.2 = [] := by simpa using hothers other hother
            simp [AlignMetric.mendStage?, hnil]
          have hmend : AlignMetric.mendStage? place.2 = mendWith? place.2 own := by
            rw [AlignMetric.mendStage?, hown]
            rfl
          rw [List.map_cons, hmend]
          cases mendWith? place.2 own <;>
            simp [List.reduceOption_cons_of_none, List.reduceOption_cons_of_some, hnone]

theorem metricRewrite?_eq (query : List Char) :
    ∃ rewrite?, metricRewrite? query = some rewrite? ∧
      rewrite?.toList = rewritesAt 0 (AlignMetric.patch query) := by
  have hverbs : (view query).stages.mapM (stageVerb? query) =
      some ((places query).map fun place => place.2.verb?) := by
    rw [stages_view]
    exact mapM_map_eq_some fun place hplace => stageVerb?_place hplace
  have halign : ((places query).map fun place => place.2.verb?).any (· == some "align") =
      (layout query).stages.any (·.hasVerb "align") := by
    rw [← map_snd_places, List.any_map, List.any_map]
    rfl
  obtain ⟨located, hlocated, hreduce⟩ := Option.map_eq_some_iff.mp (mapM_locate? query)
  rw [AlignMetric.selections_query] at hreduce
  have hlength : ((layout query).stages.flatMap AlignMetric.selections).length =
      ((places query).flatMap fun place => (AlignMetric.selections place.2).map
        (AlignMetric.Selection.shift place.1.length)).length := by
    rw [← map_snd_places, List.flatMap_map, List.length_flatMap, List.length_flatMap]
    simp only [List.length_map]
  rw [metricRewrite?, scan?_eq, AlignMetric.patch, hlength]
  simp only [Option.bind_eq_bind, Option.bind_some, hverbs, halign]
  cases (layout query).stages.any (·.hasVerb "align") with
  | true => exact ⟨none, rfl, rfl⟩
  | false =>
      simp only [Bool.false_eq_true, if_false, Bool.false_or, hlocated, Option.bind_some, hreduce]
      generalize hall : ((places query).flatMap fun place => (AlignMetric.selections place.2).map
        (AlignMetric.Selection.shift place.1.length)) = selections
      match selections, hall with
      | [], _ => exact ⟨none, rfl, rfl⟩
      | [only], hall =>
          obtain ⟨place, hplace, own, hown, rfl, hrewrites⟩ := rewrites_only hall
          exact ⟨_, judge?_eq hplace hown, hrewrites.symm⟩
      | _ :: _ :: _, _ => exact ⟨none, rfl, rfl⟩

end Pass

theorem rewritten?_nil (pass rationale query : String) :
    rewritten? pass rationale query [] = some (.unchanged query) := by
  have hslice : sliceFrom? query.toList 0 = some query.toList :=
    sliceFrom?_eq [] query.toList rfl rfl
  have hsplice : splice? query.toList [] = some query.toList := hslice
  rw [rewritten?, List.map_nil, List.map_nil, hsplice]
  simp [Outcome.ofChanges, Outcome.unchanged]

theorem alignMetric?_eq (context : Context) (query : String) :
    alignMetric? query = some (alignMetric.apply context query) := by
  obtain ⟨rewrite?, hrewrite, hpatch⟩ := metricRewrite?_eq query.toList
  have hbefore : (AlignMetric.patch query.toList).before = query.toList := by
    rw [AlignMetric.patch]
    split
    · simp
    · simp [layout]
  have happly := rewritten?_patch hbefore alignMetric.name AlignMetric.rationale
  rw [alignMetric?, hrewrite, Option.bind_eq_bind, Option.bind_some]
  refine Eq.trans ?_ happly
  rw [← hpatch]
  cases rewrite? with
  | none => exact (rewritten?_nil _ _ _).symm
  | some rewrite => rfl

end OpalRepair.Bytes
