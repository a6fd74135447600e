import Mathlib
import OpalRepair.Proofs.Bracket
import OpalRepair.Proofs.Bytes.Scan

/-!
# Brackets by byte offsets

Delimiters are ASCII characters, and no byte of another character is an ASCII byte.  A search for
delimiters can therefore go through the bytes of a text one by one; here it goes through those
that belong to no literal.
-/

namespace OpalRepair.Bytes

open Query Text

/-! ## Bytes outside literals -/

def View.codeBytes (view : View) : Nat → List UInt8 → List (Nat × Char)
  | _, [] => []
  | offset, byte :: bytes =>
    if view.inLiteral offset then view.codeBytes (offset + 1) bytes
    else (offset, byte.toChar) :: view.codeBytes (offset + 1) bytes

def isDelimiter (c : Char) : Bool :=
  c == ',' || Pair.all.any fun pair => c == pair.left || c == pair.right

def delimitersAt : Nat → List Cell → List (Nat × Char)
  | _, [] => []
  | offset, cell :: row =>
    let next := delimitersAt (offset + cell.char.utf8Size) row
    if !cell.isLiteral && isDelimiter cell.char then (offset, cell.char) :: next else next

theorem inLiteral_view {query : List Char} (before : List Cell) (cell : Cell) (after : List Cell)
    (hcells : cells query = before ++ cell :: after) {i : Nat} (hi : i < cell.char.utf8Size) :
    (view query).inLiteral (byteSize (text before) + i) = cell.isLiteral := by
  have hmask : (view query).literal = mask before ++ (mask [cell] ++ mask after) := by
    rw [← mask_append, ← mask_append, List.singleton_append, ← hcells]
    rfl
  rw [View.inLiteral, hmask, List.getD_eq_getElem?_getD, List.getElem?_append_right (by simp)]
  simp [List.getElem?_append, hi]

theorem inLiteral_head {query : List Char} (before row : List Cell)
    (hcells : cells query = before ++ row) :
    (view query).inLiteral (byteSize (text before)) = row.head?.any Cell.isLiteral := by
  cases row with
  | nil =>
      have hmask : (view query).literal = mask before := by
        rw [← List.append_nil before, ← hcells]
        rfl
      simp [View.inLiteral, hmask, List.getD_eq_getElem?_getD]
  | cons cell row => exact inLiteral_view before cell row hcells cell.char.utf8Size_pos

theorem codeBytes_append_of_inLiteral {view : View} {literal : Bool} (bytes rest : List UInt8)
    (offset : Nat) (h : ∀ i < bytes.length, view.inLiteral (offset + i) = literal) :
    view.codeBytes offset (bytes ++ rest) =
      (if literal then [] else view.codeBytes offset bytes) ++
        view.codeBytes (offset + bytes.length) rest := by
  induction bytes generalizing offset with
  | nil => cases literal <;> rfl
  | cons byte bytes ih =>
      have hbyte : view.inLiteral offset = literal := h 0 (by simp)
      have hnext := ih (offset + 1) fun i hi => by
        rw [Nat.add_assoc, Nat.add_comm 1 i]
        exact h (i + 1) (by simpa using hi)
      have hlength : offset + (byte :: bytes).length = offset + 1 + bytes.length := by
        simp
        omega
      rw [List.cons_append, View.codeBytes, View.codeBytes, hbyte, hnext, hlength]
      cases literal <;> simp

theorem snd_mem_of_mem_codeBytes {view : View} {bytes : List UInt8} {offset : Nat}
    {entry : Nat × Char} (h : entry ∈ view.codeBytes offset bytes) :
    ∃ byte ∈ bytes, entry.2 = byte.toChar := by
  induction bytes generalizing offset with
  | nil => simp [View.codeBytes] at h
  | cons byte bytes ih =>
      rw [View.codeBytes] at h
      split at h
      · obtain ⟨b, hb, he⟩ := ih h
        exact ⟨b, by simp [hb], he⟩
      · rcases List.mem_cons.mp h with rfl | h
        · exact ⟨byte, by simp, rfl⟩
        · obtain ⟨b, hb, he⟩ := ih h
          exact ⟨b, by simp [hb], he⟩

theorem utf8Size_of_isDelimiter {c : Char} (h : isDelimiter c = true) : c.utf8Size = 1 := by
  simp only [isDelimiter, Pair.all, List.any_cons, List.any_nil, Bool.or_false, Bool.or_eq_true,
    beq_iff_eq, Pair.left, Pair.right] at h
  rcases h with rfl | (rfl | rfl) | (rfl | rfl) | rfl | rfl <;> decide

theorem toChar_toUInt8 {c : Char} (h : c.utf8Size = 1) : c.val.toUInt8.toChar = c := by
  have hsmall : c.val.toNat ≤ 127 := UInt32.le_iff_toNat_le.mp (Char.utf8Size_eq_one_iff.mp h)
  apply Char.ext
  apply UInt32.toNat_inj.mp
  change c.val.toUInt8.toUInt32.toNat = c.val.toNat
  rw [UInt8.toNat_toUInt32, UInt32.toNat_toUInt8]
  omega

theorem delimiters_char {view : View} {c : Char} {offset : Nat}
    (h : ∀ i < c.utf8Size, view.inLiteral (offset + i) = false) :
    (view.codeBytes offset (String.utf8EncodeChar c)).filter (fun entry => isDelimiter entry.2) =
      if isDelimiter c then [(offset, c)] else [] := by
  by_cases hone : c.utf8Size = 1
  · have hfirst : view.inLiteral offset = false := h 0 (by omega)
    rw [String.utf8EncodeChar_eq_singleton hone, View.codeBytes, hfirst, toChar_toUInt8 hone]
    simp [View.codeBytes, List.filter_cons]
  · have hnot : isDelimiter c = false := by
      by_contra hdelimiter
      exact hone (utf8Size_of_isDelimiter (by simpa using hdelimiter))
    rw [hnot, if_neg (by simp), List.filter_eq_nil_iff]
    intro entry hentry hdelimiter
    obtain ⟨byte, hbyte, hchar⟩ := snd_mem_of_mem_codeBytes hentry
    have hbig := not_ascii_of_mem_utf8EncodeChar hone hbyte
    have hsmall := Char.utf8Size_eq_one_iff.mp (utf8Size_of_isDelimiter hdelimiter)
    rw [hchar, UInt32.le_iff_toNat_le] at hsmall
    change byte.toUInt32.toNat ≤ 127 at hsmall
    rw [UInt8.toNat_toUInt32] at hsmall
    omega

theorem filter_codeBytes {query : List Char} (before row after : List Cell)
    (hcells : cells query = before ++ row ++ after) :
    ((view query).codeBytes (byteSize (text before)) (encode (text row))).filter
        (fun entry => isDelimiter entry.2) =
      delimitersAt (byteSize (text before)) row := by
  induction row generalizing before with
  | nil => rfl
  | cons cell row ih =>
      have hliteral : ∀ i < (String.utf8EncodeChar cell.char).length,
          (view query).inLiteral (byteSize (text before) + i) = cell.isLiteral := by
        intro i hi
        exact inLiteral_view before cell (row ++ after) (by simpa using hcells) (by simpa using hi)
      have hnext := ih (before ++ [cell]) (by simp [hcells])
      rw [text_cons, encode_cons, codeBytes_append_of_inLiteral _ _ _ hliteral, List.filter_append,
        delimitersAt]
      simp only [text_append, byteSize_append, text_cons, text_nil, byteSize_cons, byteSize_nil,
        Nat.add_zero] at hnext
      rw [String.length_utf8EncodeChar, hnext]
      cases hcell : cell.isLiteral with
      | true => simp
      | false =>
          rw [hcell] at hliteral
          simp only [Bool.false_eq_true, if_false, Bool.not_false, Bool.true_and]
          rw [delimiters_char (by simpa using hliteral)]
          split <;> rfl

/-! ## Matching -/

def closing? : Nat → List (Nat × Char) → Option (Option Nat)
  | _, [] => some none
  | depth, (offset, c) :: rest =>
    if c = '(' then closing? (depth + 1) rest
    else if c = ')' then do
      let depth ← sub? depth 1
      if depth = 0 then some (some offset) else closing? depth rest
    else closing? depth rest

/-- The offset of the `)` that closes the `(` at `opening`.  To ask for a parenthesis inside a
literal is a mistake. -/
def matchingParen? (query : List Char) (view : View) (opening : Nat) : Option (Option Nat) :=
  if (byteAt? query opening).map UInt8.toChar ≠ some '(' then some none
  else if view.inLiteral opening then none
  else closing? 0 (view.codeBytes opening ((encode query).drop opening))

theorem closing?_filter (depth : Nat) (code : List (Nat × Char)) :
    closing? depth (code.filter fun entry => isDelimiter entry.2) = closing? depth code := by
  induction code generalizing depth with
  | nil => rfl
  | cons entry code ih =>
      obtain ⟨offset, c⟩ := entry
      cases hc : isDelimiter c with
      | true => simp [hc, closing?, ih]
      | false =>
          have hleft : c ≠ '(' := by rintro rfl; exact absurd hc (by decide)
          have hright : c ≠ ')' := by rintro rfl; exact absurd hc (by decide)
          simp [hc, closing?, ih, hleft, hright]

theorem closing?_delimitersAt (inner offset : Nat) (row : List Cell) :
    closing? (inner + 1) (delimitersAt offset row) =
      some ((closingParen? inner row).map fun n => offset + byteSize (text (row.take n))) := by
  induction row generalizing inner offset with
  | nil => rfl
  | cons cell row ih =>
      have hmap (found : Option Nat) :
          (found.map (· + 1)).map (fun n => offset + byteSize (text ((cell :: row).take n))) =
            found.map fun n => offset + cell.char.utf8Size + byteSize (text (row.take n)) := by
        cases found <;> simp [Nat.add_assoc]
      rw [delimitersAt]
      cases hleft : cell.isCode '(' with
      | true =>
          obtain ⟨hchar, hcode⟩ : cell.char = '(' ∧ cell.isLiteral = false := by
            simpa [Cell.isCode] using hleft
          have hdelimiter : isDelimiter '(' = true := by decide
          rw [closingParen?_left hleft, hmap, ← ih, hchar, hcode]
          simp [hdelimiter, closing?]
      | false =>
          cases hright : cell.isCode ')' with
          | true =>
              obtain ⟨hchar, hcode⟩ : cell.char = ')' ∧ cell.isLiteral = false := by
                simpa [Cell.isCode] using hright
              have hdelimiter : isDelimiter ')' = true := by decide
              cases inner with
              | zero =>
                  rw [closingParen?_right_zero hright, hchar, hcode]
                  simp [hdelimiter, closing?, sub?]
              | succ inner =>
                  rw [closingParen?_right_succ hright, hmap, ← ih, hchar, hcode]
                  simp [hdelimiter, closing?, sub?]
          | false =>
              rw [closingParen?_other hleft hright, hmap, ← ih]
              simp only [Cell.isCode, Bool.and_eq_false_iff, beq_eq_false_iff_ne,
                Bool.not_eq_false'] at hleft hright
              split
              · rename_i h
                have hcode : cell.isLiteral = false := by simp_all
                rw [closing?, if_neg (by simp_all), if_neg (by simp_all)]
              · rfl

theorem matchingParen?_eq {query : List Char} (before : List Cell) (cell : Cell) (row : List Cell)
    (hcells : cells query = before ++ cell :: row) (hcell : cell.isCode '(' = true) :
    matchingParen? query (view query) (byteSize (text before)) =
      some ((closingParen? 0 row).map fun n => byteSize (text (before ++ cell :: row.take n))) := by
  obtain ⟨hchar, hcode⟩ : cell.char = '(' ∧ cell.isLiteral = false := by
    simpa [Cell.isCode] using hcell
  have hquery : query = text before ++ cell.char :: text row := by
    rw [← text_cells query, hcells]
    simp
  have hsize : cell.char.utf8Size = 1 := by rw [hchar]; decide
  have hbyte := byteAt?_eq (text before) cell.char (text row) hquery rfl hsize
  have hliteral := inLiteral_view before cell row hcells (show 0 < cell.char.utf8Size by omega)
  have hbytes : (encode query).drop (byteSize (text before)) = encode (text (cell :: row)) := by
    rw [hquery, ← length_encode]
    simp
  rw [matchingParen?, hbyte, Option.map_some, toChar_toUInt8 hsize, hchar, if_neg (by simp),
    if_neg (by simpa [hcode] using hliteral), hbytes, ← closing?_filter,
    filter_codeBytes before (cell :: row) [] (by simp [hcells]), delimitersAt]
  have hdelimiter : isDelimiter '(' = true := by decide
  rw [hcode, hchar, hdelimiter, if_pos (by simp), closing?, if_pos rfl, closing?_delimitersAt]
  simp [hchar, Nat.add_assoc]

/-! ## Counting -/

theorem countP_filter_delimiter {d : Char} (hd : isDelimiter d = true) (code : List (Nat × Char)) :
    (code.filter fun entry => isDelimiter entry.2).countP (·.2 == d) = code.countP (·.2 == d) := by
  rw [List.countP_filter]
  refine List.countP_congr fun entry _ => ?_
  simp only [Bool.and_eq_true, beq_iff_eq]
  exact ⟨And.left, fun h => ⟨h, by rw [h, hd]⟩⟩

theorem countP_delimitersAt {d : Char} (hd : isDelimiter d = true) (offset : Nat)
    (row : List Cell) :
    (delimitersAt offset row).countP (·.2 == d) = row.countP (Cell.isCode d) := by
  induction row generalizing offset with
  | nil => rfl
  | cons cell row ih =>
      rw [delimitersAt, List.countP_cons, ← ih (offset + cell.char.utf8Size)]
      by_cases hcell : cell.char = d
      · cases hliteral : cell.isLiteral <;> simp [Cell.isCode, hcell, hliteral, hd]
      · split <;> simp [Cell.isCode, hcell]

theorem countP_codeBytes {query : List Char} {d : Char} (hd : isDelimiter d = true)
    (before row after : List Cell) (hcells : cells query = before ++ row ++ after) :
    ((view query).codeBytes (byteSize (text before)) (encode (text row))).countP (·.2 == d) =
      row.countP (Cell.isCode d) := by
  rw [← countP_filter_delimiter hd, filter_codeBytes before row after hcells, countP_delimitersAt hd]

def parenDepth? (query : List Char) (view : View) (start stop : Nat) : Option Int :=
  (byteSlice? query start stop).map fun bytes =>
    let code := view.codeBytes start bytes
    code.countP (·.2 == '(') - code.countP (·.2 == ')')

theorem parenDepth?_eq {query : List Char} {start stop : Nat} (before row after : List Cell)
    (hcells : cells query = before ++ row ++ after) (hstart : start = byteSize (text before))
    (hstop : stop = byteSize (text before) + byteSize (text row)) :
    parenDepth? query (view query) start stop = some (parenBalance row) := by
  have hquery : query = text before ++ text row ++ text after := by
    rw [← text_cells query, hcells, text_append, text_append]
  rw [parenDepth?, byteSlice?_eq (text before) (text row) (text after) hquery hstart hstop,
    Option.map_some, parenBalance, hstart]
  simp only [countP_codeBytes (show isDelimiter '(' = true by decide) before row after hcells,
    countP_codeBytes (show isDelimiter ')' = true by decide) before row after hcells]

/-! ## Nesting -/

def opensPair (c : Char) : Bool := Pair.all.any fun pair => c == pair.left

def closesPair (c : Char) : Bool := Pair.all.any fun pair => c == pair.right

def nestingOf (depth : Nat) : List (Nat × Char) → Nat
  | [] => depth
  | (_, c) :: rest =>
    let next := if opensPair c then depth + 1 else if closesPair c then depth - 1 else depth
    max depth (nestingOf next rest)

theorem pair_of_not_isDelimiter {c : Char} (h : isDelimiter c = false) :
    opensPair c = false ∧ closesPair c = false := by
  simp only [isDelimiter, opensPair, closesPair, Pair.all, List.any_cons, List.any_nil,
    Bool.or_eq_false_iff] at h ⊢
  tauto

theorem opens_eq (cell : Cell) : cell.opens = (!cell.isLiteral && opensPair cell.char) := by
  cases hliteral : cell.isLiteral <;> simp [Cell.opens, Cell.isCode, opensPair, Pair.all, hliteral]

theorem closes_eq (cell : Cell) : cell.closes = (!cell.isLiteral && closesPair cell.char) := by
  cases hliteral : cell.isLiteral <;> simp [Cell.closes, Cell.isCode, closesPair, Pair.all, hliteral]

theorem le_nestingOf (depth : Nat) (code : List (Nat × Char)) : depth ≤ nestingOf depth code := by
  cases code with
  | nil => exact Nat.le_refl _
  | cons entry code => exact Nat.le_max_left _ _

theorem nestingOf_filter (depth : Nat) (code : List (Nat × Char)) :
    nestingOf depth (code.filter fun entry => isDelimiter entry.2) = nestingOf depth code := by
  induction code generalizing depth with
  | nil => rfl
  | cons entry code ih =>
      obtain ⟨offset, c⟩ := entry
      cases hc : isDelimiter c with
      | true => simp [hc, nestingOf, ih]
      | false =>
          obtain ⟨hopens, hcloses⟩ := pair_of_not_isDelimiter hc
          simp [hc, nestingOf, ih, hopens, hcloses, le_nestingOf]

theorem nestingOf_delimitersAt (depth offset : Nat) (row : List Cell) :
    nestingOf depth (delimitersAt offset row) = nestingFrom depth row := by
  induction row generalizing depth offset with
  | nil => rfl
  | cons cell row ih =>
      rw [delimitersAt, nestingFrom, opens_eq, closes_eq]
      cases hliteral : cell.isLiteral with
      | true => simp [ih, le_nestingFrom]
      | false =>
          cases hc : isDelimiter cell.char with
          | true => simp [nestingOf, ih]
          | false =>
              obtain ⟨hopens, hcloses⟩ := pair_of_not_isDelimiter hc
              simp [ih, hopens, hcloses, le_nestingFrom]

/-! ## Lists -/

/-- Cuts at the commas outside all pairs; the piece being read started at `start`. -/
def cutCommas (stop : Nat) : Nat → Int → List (Nat × Char) → List Span
  | start, _, [] => [⟨start, stop⟩]
  | start, depth, (offset, c) :: rest =>
    if opensPair c then cutCommas stop start (depth + 1) rest
    else if closesPair c then cutCommas stop start (depth - 1) rest
    else if c = ',' ∧ depth = 0 then ⟨start, offset⟩ :: cutCommas stop (offset + 1) depth rest
    else cutCommas stop start depth rest

def trimSpan? (query : List Char) (span : Span) : Option (Option Span) := do
  let part ← slice? query span.start span.stop
  let lead ← sub? (byteSize part) (byteSize (trimStart part))
  let core := trim part
  if core.isEmpty then some none
  else some (some ⟨span.start + lead, span.start + lead + byteSize core⟩)

def splitTopLevel? (query : List Char) (view : View) (start stop : Nat) : Option (List Span) := do
  let bytes ← byteSlice? query start stop
  let pieces ← (cutCommas stop start 0 (view.codeBytes start bytes)).mapM (trimSpan? query)
  some pieces.reduceOption

def sliceSpan? (query : List Char) (span : Span) : Option (List Char) :=
  slice? query span.start span.stop

theorem cutCommas_filter (stop start : Nat) (depth : Int) (code : List (Nat × Char)) :
    cutCommas stop start depth (code.filter fun entry => isDelimiter entry.2) =
      cutCommas stop start depth code := by
  induction code generalizing start depth with
  | nil => rfl
  | cons entry code ih =>
      obtain ⟨offset, c⟩ := entry
      cases hc : isDelimiter c with
      | true => simp [hc, cutCommas, ih]
      | false =>
          obtain ⟨hopens, hcloses⟩ := pair_of_not_isDelimiter hc
          have hcomma : c ≠ ',' := by rintro rfl; exact absurd hc (by decide)
          simp [hc, cutCommas, ih, hopens, hcloses, hcomma]

def itemTexts (pieces : List (List Cell)) : List (List Char) :=
  ((pieces.map trimCells).filter (!·.isEmpty)).map text

theorem trimSpan?_piece {query : List Char} (before piece after : List Cell)
    (hcells : cells query = before ++ piece ++ after) :
    ∃ item, trimSpan? query
        ⟨byteSize (text before), byteSize (text before) + byteSize (text piece)⟩ = some item ∧
      item.toList.mapM (sliceSpan? query) = some (itemTexts [piece]) := by
  have hquery : query = text before ++ text piece ++ text after := by
    rw [← text_cells query, hcells, text_append, text_append]
  have hslice := slice?_eq (text before) (text piece) (text after) hquery rfl rfl
  rcases all_or_exists_core (p := fun cell : Cell => isBlank cell.char) piece with
    hblank | ⟨front, core, back, rfl, hfront, hback, hhead, hlast⟩
  · have htrimCells : trimCells piece = [] := by
      rw [trimCells, List.dropWhile_eq_nil_iff.mpr hblank]
      rfl
    have htrimStart : trimStart (text piece) = [] := by
      rw [trimStart, List.dropWhile_eq_nil_iff]
      exact forall_mem_text hblank
    refine ⟨none, ?_, by simp [itemTexts, htrimCells]⟩
    simp [trimSpan?, hslice, htrimStart, trim, trimEnd, dropTrailing, sub?]
  · have hcore : core ≠ [] := by
      rintro rfl
      simp at hhead
    have htrimCells : trimCells (front ++ core ++ back) = core := by
      rw [trimCells, dropWhile_core hfront hhead, dropTrailing_back hback hlast]
    have hfrontText := forall_mem_text hfront
    have hbackText := forall_mem_text hback
    have hheadText := exists_head?_text hhead
    have hlastText := exists_getLast?_text hlast
    simp only [text_append] at hslice
    refine ⟨some ⟨byteSize (text before) + byteSize (text front),
      byteSize (text before) + byteSize (text front) + byteSize (text core)⟩, ?_, ?_⟩
    · have htrimStart : trimStart (text front ++ text core ++ text back) = text core ++ text back :=
        dropWhile_core hfrontText hheadText
      have htrimEnd : trimEnd (text core ++ text back) = text core :=
        dropTrailing_back hbackText hlastText
      have hlead : sub? (byteSize (text front ++ text core ++ text back))
          (byteSize (text core ++ text back)) = some (byteSize (text front)) := by
        rw [sub?_eq (by simp)]
        simp
      have hsome : (text core).isEmpty = false := by
        cases core with
        | nil => contradiction
        | cons => rfl
      simp only [text_append]
      rw [trimSpan?, hslice]
      simp only [Option.bind_eq_bind, Option.bind_some, trim, htrimStart, htrimEnd, hlead, hsome,
        Bool.false_eq_true, if_false]
    · have hitem : slice? query (byteSize (text before) + byteSize (text front))
          (byteSize (text before) + byteSize (text front) + byteSize (text core)) =
          some (text core) :=
        slice?_eq (text before ++ text front) (text core) (text back ++ text after)
          (by simp [hquery]) (by simp) (by simp)
      rw [itemTexts, List.map_singleton, htrimCells]
      simp [sliceSpan?, hitem, hcore]

theorem itemTexts_cons (piece : List Cell) (pieces : List (List Cell)) :
    itemTexts (piece :: pieces) = itemTexts [piece] ++ itemTexts pieces := by
  simp [itemTexts, List.filter_cons]
  split <;> simp

theorem mapM_reduceOption_cons {f : Span → Option (List Char)} {item : Option Span}
    {items : List (Option Span)} {texts others : List (List Char)}
    (hitem : item.toList.mapM f = some texts) (hitems : items.reduceOption.mapM f = some others) :
    (item :: items).reduceOption.mapM f = some (texts ++ others) := by
  have hcons : (item :: items).reduceOption = item.toList ++ items.reduceOption := by
    cases item <;> rfl
  rw [hcons, List.mapM_append, hitem, hitems]
  rfl

theorem splitCommas_ne_nil (depth : Int) (row : List Cell) : splitCommas depth row ≠ [] := by
  cases row with
  | nil => simp [splitCommas]
  | cons cell row =>
      rw [splitCommas]
      split
      · simp
      · dsimp only
        split <;> simp

theorem cutCommas_items {query : List Char} (before piece row after : List Cell)
    (hcells : cells query = before ++ piece ++ row ++ after) (depth : Int)
    {first : List Cell} {others : List (List Cell)}
    (hsplit : splitCommas depth row = first :: others) :
    ∃ spans,
      (cutCommas (byteSize (text (before ++ piece ++ row))) (byteSize (text before)) depth
        (delimitersAt (byteSize (text (before ++ piece))) row)).mapM (trimSpan? query) = some spans ∧
      spans.reduceOption.mapM (sliceSpan? query) = some (itemTexts ((piece ++ first) :: others)) := by
  induction row generalizing before piece depth first others with
  | nil =>
      obtain ⟨rfl, rfl⟩ : first = [] ∧ others = [] := by
        simpa [splitCommas, eq_comm] using hsplit
      obtain ⟨item, htrim, hslice⟩ := trimSpan?_piece before piece after (by simpa using hcells)
      refine ⟨[item], ?_, ?_⟩
      · simp [delimitersAt, cutCommas, htrim]
      · cases item <;> simpa using hslice
  | cons cell row ih =>
      have hsize : byteSize (text (before ++ (piece ++ [cell]))) =
          byteSize (text (before ++ piece)) + cell.char.utf8Size := by
        simp [Nat.add_assoc]
      have hjoin : before ++ (piece ++ [cell]) ++ row = before ++ piece ++ cell :: row := by simp
      rw [splitCommas] at hsplit
      by_cases hcomma : cell.isCode ',' = true ∧ depth = 0
      · -- A comma outside all pairs ends the piece.
        obtain ⟨rfl, rfl⟩ : first = [] ∧ others = splitCommas depth row := by
          simpa [hcomma, eq_comm] using hsplit
        obtain ⟨second, more, hmore⟩ := List.exists_cons_of_ne_nil (splitCommas_ne_nil depth row)
        obtain ⟨spans, htrims, hslices⟩ := ih (before ++ piece ++ [cell]) [] (by simp [hcells]) depth
          hmore
        obtain ⟨item, htrim, hslice⟩ :=
          trimSpan?_piece before piece (cell :: row ++ after)
            (show cells query = before ++ piece ++ (cell :: row ++ after) by simp [hcells])
        obtain ⟨⟨hchar, hcode⟩, hdepth⟩ : (cell.char = ',' ∧ cell.isLiteral = false) ∧ depth = 0 := by
          simpa [Cell.isCode] using hcomma
        have hdelimiters : delimitersAt (byteSize (text (before ++ piece))) (cell :: row) =
            (byteSize (text (before ++ piece)), ',') ::
              delimitersAt (byteSize (text (before ++ piece ++ [cell]))) row := by
          rw [delimitersAt, hchar, hcode, if_pos (by decide)]
          simp [hchar, Nat.add_assoc]
        have hcut : byteSize (text (before ++ piece)) + 1 =
            byteSize (text (before ++ piece ++ [cell])) := by
          have hone : (',' : Char).utf8Size = 1 := by decide
          simp [hchar, hone, Nat.add_assoc]
        have hstop : byteSize (text (before ++ piece)) =
            byteSize (text before) + byteSize (text piece) := by simp
        refine ⟨item :: spans, ?_, ?_⟩
        · rw [hdelimiters, cutCommas, if_neg (by decide), if_neg (by decide), if_pos ⟨rfl, hdepth⟩,
            hcut, hstop, List.mapM_cons, htrim]
          simp only [List.append_nil, List.append_assoc, List.singleton_append] at htrims ⊢
          rw [htrims]
          rfl
        · rw [hmore, itemTexts_cons, List.append_nil]
          exact mapM_reduceOption_cons hslice hslices
      · rw [if_neg hcomma] at hsplit
        obtain ⟨second, more, hmore⟩ := List.exists_cons_of_ne_nil (splitCommas_ne_nil
          (if cell.opens then depth + 1 else if cell.closes then depth - 1 else depth) row)
        dsimp only at hsplit
        rw [hmore, List.cons.injEq] at hsplit
        obtain ⟨rfl, rfl⟩ := hsplit
        obtain ⟨spans, htrims, hslices⟩ := ih before (piece ++ [cell]) (by simp [hcells]) _ hmore
        refine ⟨spans, ?_, by simpa using hslices⟩
        rw [← htrims, hjoin, hsize, delimitersAt, opens_eq, closes_eq]
        cases hliteral : cell.isLiteral with
        | true => rfl
        | false =>
            have hnocomma : ¬ (cell.char = ',' ∧ depth = 0) := by
              simpa [Cell.isCode, hliteral] using hcomma
            cases hdelimiter : isDelimiter cell.char with
            | true =>
                simp only [Bool.not_false, Bool.and_self, if_true, cutCommas, Bool.true_and,
                  if_neg hnocomma]
                split
                · rfl
                · split <;> rfl
            | false =>
                obtain ⟨hopens, hcloses⟩ := pair_of_not_isDelimiter hdelimiter
                simp [hopens, hcloses]

theorem splitTopLevel?_eq {query : List Char} {start stop : Nat} (before row after : List Cell)
    (hcells : cells query = before ++ row ++ after) (hstart : start = byteSize (text before))
    (hstop : stop = byteSize (text before) + byteSize (text row)) :
    ∃ items, splitTopLevel? query (view query) start stop = some items ∧
      items.mapM (sliceSpan? query) = some ((listItems row).map text) := by
  have hquery : query = text before ++ text row ++ text after := by
    rw [← text_cells query, hcells, text_append, text_append]
  have hbytes := byteSlice?_eq (text before) (text row) (text after) hquery hstart hstop
  obtain ⟨first, others, hsplit⟩ := List.exists_cons_of_ne_nil (splitCommas_ne_nil 0 row)
  obtain ⟨spans, htrims, hslices⟩ :=
    cutCommas_items before [] row after (by simpa using hcells) 0 hsplit
  refine ⟨spans.reduceOption, ?_, ?_⟩
  · have hcode := filter_codeBytes before row after hcells
    rw [splitTopLevel?, hbytes, Option.bind_eq_bind, Option.bind_some, ← cutCommas_filter]
    simp only [List.append_nil, text_append, byteSize_append] at htrims
    rw [hstart, hcode, hstop, htrims]
    rfl
  · rw [hslices, List.nil_append, ← hsplit]
    rfl

end OpalRepair.Bytes
