import Mathlib
import OpalRepair.Proofs.Bytes.Count
import OpalRepair.Proofs.Partition

/-!
# Matching parentheses

The search for the parenthesis that closes another one keeps a single counter.  What it finds is the
first place at which as many parentheses are closed as were opened, and the text up to there is
balanced, with what stands in literals left out.

Main statement: `matchingParen_first_balance`.
-/

namespace OpalRepair.Bytes

open Query

/-! ## Parentheses outside literals -/

def codeAt (query : List Char) (c : Char) (i : Nat) : Bool :=
  (byteAt? query i).map UInt8.toChar == some c && !(scan query).inLiteral i

def codeCount (query : List Char) (c : Char) (start stop : Nat) : Nat :=
  (List.range' start (stop - start)).countP (codeAt query c)

section Counting

variable {query : List Char} {c : Char}

theorem codeCount_of_le {start stop : Nat} (h : stop ≤ start) :
    codeCount query c start stop = 0 := by
  rw [codeCount, Nat.sub_eq_zero_of_le h]
  rfl

theorem codeCount_first {start stop : Nat} (h : start < stop) :
    codeCount query c start stop =
      (if codeAt query c start then 1 else 0) + codeCount query c (start + 1) stop := by
  obtain ⟨n, rfl⟩ : ∃ n, stop = start + 1 + n := ⟨stop - start - 1, by omega⟩
  have hsize : start + 1 + n - start = n + 1 := by omega
  rw [codeCount, codeCount, hsize, Nat.add_sub_cancel_left, List.range'_succ, List.countP_cons,
    Nat.add_comm]

theorem codeCount_last {start stop : Nat} (h : start ≤ stop) :
    codeCount query c start (stop + 1) =
      codeCount query c start stop + if codeAt query c stop then 1 else 0 := by
  obtain ⟨n, rfl⟩ : ∃ n, stop = start + n := ⟨stop - start, by omega⟩
  have hsize : start + n + 1 - start = n + 1 := by omega
  rw [codeCount, codeCount, hsize, Nat.add_sub_cancel_left, List.range'_concat, List.countP_append]
  simp

theorem lt_byteSize_of_codeAt {i : Nat} (h : codeAt query c i = true) : i < byteSize query := by
  by_contra hbehind
  have hnone : byteAt? query i = none := by
    rw [byteAt?, List.getElem?_eq_none_iff, length_encode]
    omega
  simp [codeAt, hnone] at h

theorem codeAt_unique {c d : Char} {i : Nat} (h : codeAt query c i = true) (hne : c ≠ d) :
    codeAt query d i = false := by
  simp only [codeAt, Bool.and_eq_true, beq_iff_eq] at h
  simp [codeAt, h.1, hne]

end Counting

/-! ## The search -/

/-- What a search from `start` on has to find while `depth` parentheses are open: the first one that
closes as many as are open then, if there is any. -/
structure Answer (query : List Char) (depth start : Nat) (found : Option Nat) : Prop where
  closes : ∀ i ∈ found, start ≤ i ∧ codeAt query ')' i = true ∧
    codeCount query ')' start (i + 1) = depth + codeCount query '(' start (i + 1)
  open_before : ∀ stop, (∀ i ∈ found, stop ≤ i) →
    codeCount query ')' start stop < depth + codeCount query '(' start stop

theorem Answer.cons {query : List Char} {start depth next : Nat} {found : Option Nat}
    (h : Answer query next (start + 1) found) (hdepth : 0 < depth)
    (hnext : next + (if codeAt query ')' start then 1 else 0) =
      depth + if codeAt query '(' start then 1 else 0) : Answer query depth start found := by
  refine ⟨fun i hi => ?_, fun stop hstop => ?_⟩
  · obtain ⟨hstart, hright, hlevel⟩ := h.closes i hi
    have hlt : start < i + 1 := by omega
    refine ⟨by omega, hright, ?_⟩
    rw [codeCount_first hlt, codeCount_first hlt, hlevel]
    omega
  · rcases Nat.lt_or_ge start stop with hlt | hge
    · have hopen := h.open_before stop hstop
      rw [codeCount_first hlt, codeCount_first hlt]
      omega
    · rw [codeCount_of_le hge, codeCount_of_le hge]
      omega

theorem Answer.here {query : List Char} {start : Nat} (hright : codeAt query ')' start = true) :
    Answer query 1 start (some start) := by
  have hleft := codeAt_unique hright (show ')' ≠ '(' by decide)
  refine ⟨fun i hi => ?_, fun stop hstop => ?_⟩
  · obtain rfl := Option.mem_some_iff.mp hi
    rw [codeCount_last le_rfl, codeCount_last le_rfl, codeCount_of_le le_rfl,
      codeCount_of_le le_rfl]
    simp [hright, hleft]
  · have hle : stop ≤ start := hstop start rfl
    rw [codeCount_of_le hle, codeCount_of_le hle]
    omega

theorem Answer.behind {query : List Char} {start depth : Nat} (hstart : byteSize query ≤ start)
    (hdepth : 0 < depth) : Answer query depth start none := by
  refine ⟨by simp, fun stop _ => ?_⟩
  have hright : codeCount query ')' start stop = 0 := by
    rw [codeCount, List.countP_eq_zero]
    intro i hi hcode
    have hlt := lt_byteSize_of_codeAt hcode
    have hge := List.mem_range'_1.mp hi
    omega
  omega

theorem closing?_byte {query : List Char} {start depth : Nat} {byte : UInt8} {bytes : List UInt8}
    (hbytes : (encode query).drop start = byte :: bytes) :
    closing? (depth + 1) ((view query).codeBytes start (byte :: bytes)) =
      if codeAt query '(' start then
        closing? (depth + 2) ((view query).codeBytes (start + 1) bytes)
      else if codeAt query ')' start then
        if depth = 0 then some (some start)
        else closing? depth ((view query).codeBytes (start + 1) bytes)
      else closing? (depth + 1) ((view query).codeBytes (start + 1) bytes) := by
  have hbyte : byteAt? query start = some byte := by
    rw [byteAt?, ← List.head?_drop, hbytes]
    rfl
  have hview : (scan query).inLiteral start = (view query).inLiteral start := rfl
  rw [View.codeBytes]
  cases hliteral : (view query).inLiteral start with
  | true => simp [codeAt, hview, hliteral]
  | false =>
      rw [if_neg (by simp), closing?]
      simp only [codeAt, hbyte, hview, hliteral, sub?]
      simp

theorem exists_closing?_eq (query : List Char) (start depth : Nat) {bytes : List UInt8}
    (hbytes : (encode query).drop start = bytes) :
    ∃ found, closing? (depth + 1) ((view query).codeBytes start bytes) = some found ∧
      Answer query (depth + 1) start found := by
  induction bytes generalizing start depth with
  | nil =>
      have hend : byteSize query ≤ start := by simpa using List.drop_eq_nil_iff.mp hbytes
      exact ⟨none, rfl, .behind hend (Nat.succ_pos depth)⟩
  | cons byte bytes ih =>
      have hnext : (encode query).drop (start + 1) = bytes := by
        rw [← List.tail_drop, hbytes]
        rfl
      rw [closing?_byte hbytes]
      cases hleft : codeAt query '(' start with
      | true =>
          have hright := codeAt_unique hleft (show '(' ≠ ')' by decide)
          obtain ⟨found, hfound, hanswer⟩ := ih (start + 1) (depth + 1) hnext
          exact ⟨found, hfound, hanswer.cons (Nat.succ_pos depth) (by simp [hleft, hright])⟩
      | false =>
          cases hright : codeAt query ')' start with
          | false =>
              obtain ⟨found, hfound, hanswer⟩ := ih (start + 1) depth hnext
              exact ⟨found, hfound, hanswer.cons (Nat.succ_pos depth) (by simp [hleft, hright])⟩
          | true =>
              cases depth with
              | zero => exact ⟨some start, rfl, .here hright⟩
              | succ depth =>
                  obtain ⟨found, hfound, hanswer⟩ := ih (start + 1) depth hnext
                  exact ⟨found, hfound,
                    hanswer.cons (Nat.succ_pos _) (by simp [hleft, hright])⟩

/-! ## The position of a byte -/

theorem exists_cell_of_codeAt {query : List Char} {c : Char} (hc : c.utf8Size = 1) {i : Nat}
    (h : codeAt query c i = true) :
    ∃ before cell after, cells query = before ++ cell :: after ∧ i = byteSize (text before) ∧
      cell.isCode c = true := by
  have hlt : i < byteSize (text (cells query)) := by
    rw [text_cells]
    exact lt_byteSize_of_codeAt h
  obtain ⟨front, cell, back, hcells, hstart, hstop⟩ := exists_cell_at hlt
  have hquery : query = text front ++ (cell.char :: text back) := by
    rw [← text_cells query, hcells]
    simp
  obtain ⟨k, rfl⟩ := Nat.exists_eq_add_of_le hstart
  obtain ⟨byte, hget⟩ : ∃ byte, (String.utf8EncodeChar cell.char)[k]? = some byte := by
    refine ⟨_, List.getElem?_eq_getElem ?_⟩
    rw [String.length_utf8EncodeChar]
    omega
  have hbyte : byteAt? query (byteSize (text front) + k) = some byte := by
    rw [byteAt?, hquery, encode_append, encode_cons, ← length_encode,
      List.getElem?_append_right (by omega), Nat.add_sub_cancel_left]
    exact List.getElem?_append_left (List.getElem?_eq_some_iff.mp hget).1 ▸ hget
  have hliteral : (scan query).inLiteral (byteSize (text front) + k) = cell.isLiteral :=
    inLiteral_view front cell back hcells (by omega)
  obtain ⟨hchar, hcode⟩ : byte.toChar = c ∧ cell.isLiteral = false := by
    simpa [codeAt, hbyte, hliteral] using h
  have hone : cell.char.utf8Size = 1 := by
    by_contra hsize
    exact not_ascii_toChar hsize (List.mem_of_getElem? hget) (hchar ▸ hc)
  obtain rfl : k = 0 := by omega
  have hcell : byte.toChar = cell.char := by
    rw [String.utf8EncodeChar_eq_singleton hone] at hget
    rw [← Option.some.inj hget, toChar_toUInt8 hone]
  exact ⟨front, cell, back, hcells, rfl, by simp [Cell.isCode, ← hcell, hchar, hcode]⟩

theorem matchingParen?_position {query : List Char} {opening : Nat}
    (h : codeAt query '(' opening = true) :
    ∃ position < query.length, offsetOf query position = opening ∧
      matchingParen? query (view query) opening =
        some ((Query.matchingParen? (cells query) position).map (offsetOf query)) := by
  obtain ⟨before, cell, after, hcells, rfl, hcell⟩ := exists_cell_of_codeAt (by decide) h
  have hlength : before.length < query.length := by
    rw [← length_cells query, hcells]
    simp
  refine ⟨before.length, hlength, offsetOf_cells before _ hcells, ?_⟩
  have hdrop : (cells query).drop before.length = cell :: after := by rw [hcells, List.drop_left]
  rw [matchingParen?_eq before cell after hcells hcell, Query.matchingParen?, hdrop]
  simp only [hcell, if_true]
  cases hclosing : closingParen? 0 after with
  | none => rfl
  | some n =>
      obtain ⟨inside, right, behind, rfl, rfl, -, -⟩ := closingParen?_eq hclosing
      have hoffset := offsetOf_cells (before ++ cell :: inside) (right :: behind)
        (by simpa using hcells)
      have hsize : (before ++ cell :: inside).length = before.length + 1 + inside.length := by
        simp
        omega
      rw [hsize] at hoffset
      simp only [Option.map_some, List.take_left, hoffset]

/-! ## The matching parenthesis -/

def Balances (query : List Char) (opening c : Nat) : Prop :=
  opening ≤ c ∧ c < byteSize query ∧
    codeCount query '(' opening (c + 1) = codeCount query ')' opening (c + 1)

/-- What has to be found as the match of the parenthesis at `opening`. -/
structure Matched (query : List Char) (opening : Nat) (found : Option Nat) : Prop where
  some_iff : ∀ c, found = some c ↔ IsLeast {c | Balances query opening c} c
  none_iff : found = none ↔ ∀ c, ¬ Balances query opening c
  closing : ∀ c, found = some c → codeAt query ')' c = true
  /-- The parentheses strictly between are balanced. -/
  balanced : ∀ c, found = some c →
    codeCount query '(' (opening + 1) c = codeCount query ')' (opening + 1) c
  prefixes : ∀ c, found = some c → ∀ stop ≤ c,
    codeCount query ')' (opening + 1) stop ≤ codeCount query '(' (opening + 1) stop
  /-- As far as the search goes, no more is closed than was opened. -/
  counter : ∀ stop, (∀ c, found = some c → stop ≤ c + 1) →
    codeCount query ')' opening stop ≤ codeCount query '(' opening stop

section Matched

variable {query : List Char} {opening : Nat} {found : Option Nat}

theorem codeCount_behind (h : codeAt query '(' opening = true) {stop : Nat}
    (hstop : opening < stop) :
    codeCount query '(' opening stop = 1 + codeCount query '(' (opening + 1) stop ∧
      codeCount query ')' opening stop = codeCount query ')' (opening + 1) stop := by
  have hright := codeAt_unique h (show '(' ≠ ')' by decide)
  rw [codeCount_first hstop, codeCount_first hstop]
  simp [h, hright]

theorem Answer.open_until (hanswer : Answer query 1 (opening + 1) found) {c : Nat}
    (hc : found = some c) {stop : Nat} (hstop : stop ≤ c) :
    codeCount query ')' (opening + 1) stop < 1 + codeCount query '(' (opening + 1) stop := by
  refine hanswer.open_before stop fun i hi => ?_
  obtain rfl := Option.some.inj (hi.symm.trans hc)
  exact hstop

theorem Answer.isLeast (h : codeAt query '(' opening = true)
    (hanswer : Answer query 1 (opening + 1) found) {c : Nat} (hc : found = some c) :
    IsLeast {c | Balances query opening c} c := by
  obtain ⟨hstart, hright, hlevel⟩ := hanswer.closes c hc
  obtain ⟨hlefts, hrights⟩ := codeCount_behind h (show opening < c + 1 by omega)
  refine ⟨⟨by omega, lt_byteSize_of_codeAt hright, by omega⟩, ?_⟩
  rintro d ⟨hopening, -, hd⟩
  by_contra hlt
  obtain ⟨hlefts, hrights⟩ := codeCount_behind h (show opening < d + 1 by omega)
  have hopen := hanswer.open_until hc (show d + 1 ≤ c by omega)
  omega

theorem Answer.not_balances (h : codeAt query '(' opening = true)
    (hanswer : Answer query 1 (opening + 1) none) (c : Nat) : ¬ Balances query opening c := by
  rintro ⟨hopening, -, hc⟩
  obtain ⟨hlefts, hrights⟩ := codeCount_behind h (show opening < c + 1 by omega)
  have hopen := hanswer.open_before (c + 1) (by simp)
  omega

theorem Answer.balanced (hanswer : Answer query 1 (opening + 1) found) {c : Nat}
    (hc : found = some c) :
    codeCount query '(' (opening + 1) c = codeCount query ')' (opening + 1) c := by
  obtain ⟨hstart, hright, hlevel⟩ := hanswer.closes c hc
  have hleft := codeAt_unique hright (show ')' ≠ '(' by decide)
  rw [codeCount_last hstart, codeCount_last hstart, if_pos hright, hleft] at hlevel
  simp only [Bool.false_eq_true, if_false] at hlevel
  omega

theorem Answer.counter (h : codeAt query '(' opening = true)
    (hanswer : Answer query 1 (opening + 1) found) {stop : Nat}
    (hstop : ∀ c, found = some c → stop ≤ c + 1) :
    codeCount query ')' opening stop ≤ codeCount query '(' opening stop := by
  rcases Nat.lt_or_ge opening stop with hlt | hge
  · by_cases hlast : ∃ c, found = some c ∧ stop = c + 1
    · obtain ⟨c, hc, rfl⟩ := hlast
      exact (hanswer.isLeast h hc).1.2.2.ge
    · obtain ⟨hlefts, hrights⟩ := codeCount_behind h hlt
      have hopen := hanswer.open_before stop fun c hc => by
        have hle := hstop c hc
        have hne : stop ≠ c + 1 := fun heq => hlast ⟨c, hc, heq⟩
        omega
      omega
  · rw [codeCount_of_le hge, codeCount_of_le hge]

theorem Answer.matched (h : codeAt query '(' opening = true)
    (hanswer : Answer query 1 (opening + 1) found) : Matched query opening found where
  some_iff c := by
    refine ⟨hanswer.isLeast h, fun hleast => ?_⟩
    cases hfound : found with
    | none => exact absurd hleast.1 ((hfound ▸ hanswer).not_balances h c)
    | some d => rw [(hanswer.isLeast h hfound).unique hleast]
  none_iff := by
    refine ⟨fun hfound => (hfound ▸ hanswer).not_balances h, fun hall => ?_⟩
    cases hfound : found with
    | none => rfl
    | some c => exact absurd (hanswer.isLeast h hfound).1 (hall c)
  closing c hc := (hanswer.closes c hc).2.1
  balanced _ hc := hanswer.balanced hc
  prefixes _ hc _ hstop := by
    have hopen := hanswer.open_until hc hstop
    omega
  counter _ hstop := hanswer.counter h hstop

theorem matchingParen?_closing (h : codeAt query '(' opening = true) :
    matchingParen? query (view query) opening =
      closing? 1 ((view query).codeBytes (opening + 1) ((encode query).drop (opening + 1))) := by
  have hlt := lt_byteSize_of_codeAt h
  rw [← length_encode] at hlt
  simp only [codeAt, Bool.and_eq_true, beq_iff_eq, Bool.not_eq_true'] at h
  obtain ⟨hchar, hcode⟩ : (byteAt? query opening).map UInt8.toChar = some '(' ∧
      (view query).inLiteral opening = false := h
  obtain ⟨byte, hbyte, hleft⟩ := Option.map_eq_some_iff.mp hchar
  have hdrop : (encode query).drop opening = byte :: (encode query).drop (opening + 1) := by
    rw [List.drop_eq_getElem_cons hlt]
    congr 1
    exact Option.some.inj ((List.getElem?_eq_getElem hlt).symm.trans hbyte)
  rw [matchingParen?, hchar, hcode, hdrop, View.codeBytes, hcode, hleft]
  simp [closing?]

end Matched

/-- The match of a parenthesis outside literals is the first byte through which as many parentheses
are closed as opened.  It closes one, what stands between is balanced, and there is no match only if
there is no such byte.  The search on bytes does not take its counter below zero, and the search on
cells finds the same place. -/
theorem matchingParen_first_balance {query : List Char} {opening : Nat}
    (h : codeAt query '(' opening = true) :
    ∃ position < query.length, offsetOf query position = opening ∧
      matchingParen? query (view query) opening =
        some ((Query.matchingParen? (cells query) position).map (offsetOf query)) ∧
      Matched query opening
        ((Query.matchingParen? (cells query) position).map (offsetOf query)) := by
  obtain ⟨position, hposition, hoffset, hsearch⟩ := matchingParen?_position h
  obtain ⟨found, hfound, hanswer⟩ := exists_closing?_eq query (opening + 1) 0 rfl
  rw [← matchingParen?_closing h, hsearch] at hfound
  refine ⟨position, hposition, hoffset, hsearch, ?_⟩
  rw [Option.some.inj hfound]
  exact hanswer.matched h

/-- A closing parenthesis in a string is passed over, and one that is missing is not found. -/
theorem matchingParen_first_balance_literal :
    let query := "é(a, \")\", g(b)) (c)) | f((d".toList
    Matched query 2 (some 15) ∧ Matched query 26 none := by
  intro query
  obtain ⟨_, -, -, hclosed, hmatched⟩ :=
    matchingParen_first_balance (show codeAt query '(' 2 = true by decide)
  obtain ⟨_, -, -, hopen, hunmatched⟩ :=
    matchingParen_first_balance (show codeAt query '(' 26 = true by decide)
  have hsearch : matchingParen? query (view query) 2 = some (some 15) := by decide
  have hsearch' : matchingParen? query (view query) 26 = some none := by decide
  rw [← Option.some.inj (hclosed.symm.trans hsearch), ← Option.some.inj (hopen.symm.trans hsearch')]
  exact ⟨hmatched, hunmatched⟩

end OpalRepair.Bytes
