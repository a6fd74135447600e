import Mathlib
import OpalRepair.Proofs.Counting.Repaint

/-!
# Items of a list

A row is cut at its commas outside all pairs.  Rows without such a comma that leave no pair open can
be put into one list and are cut apart again.
-/

namespace OpalRepair.Query

open Text

/-! ## Balance -/

def Cell.shift (cell : Cell) : Int :=
  if cell.opens then 1 else if cell.closes then -1 else 0

def balance (row : List Cell) : Int := (row.map Cell.shift).sum

@[simp] theorem balance_nil : balance [] = 0 := rfl

@[simp] theorem balance_cons (cell : Cell) (row : List Cell) :
    balance (cell :: row) = cell.shift + balance row := by
  simp [balance]

@[simp] theorem balance_append (a b : List Cell) : balance (a ++ b) = balance a + balance b := by
  simp [balance]

def Cell.Inert (cell : Cell) : Prop := cell.shift = 0 ∧ cell.isCode ',' = false

theorem balance_of_inert {row : List Cell} (h : ∀ cell ∈ row, cell.Inert) : balance row = 0 := by
  induction row with
  | nil => rfl
  | cons cell row ih =>
      obtain ⟨hcell, hrow⟩ := List.forall_mem_cons.mp h
      rw [balance_cons, hcell.1, ih hrow, add_zero]

theorem inert_of_bland {cell : Cell} (h : cell.char ∉ special) (hcomma : cell.char ≠ ',') :
    cell.Inert := by
  have hcode {c : Char} (hc : c ∈ special) : cell.isCode c = false := by
    have hne : cell.char ≠ c := fun heq => h (heq ▸ hc)
    simp [Cell.isCode, hne]
  have hopens : cell.opens = false := by
    simp [Cell.opens, Pair.all, Pair.left, hcode (by decide : '(' ∈ special),
      hcode (by decide : '[' ∈ special), hcode (by decide : '\x7b' ∈ special)]
  have hcloses : cell.closes = false := by
    simp [Cell.closes, Pair.all, Pair.right, hcode (by decide : ')' ∈ special),
      hcode (by decide : ']' ∈ special), hcode (by decide : '\x7d' ∈ special)]
  exact ⟨by simp [Cell.shift, hopens, hcloses], by simp [Cell.isCode, hcomma]⟩

theorem inert_of_isBlank {cell : Cell} (h : isBlank cell.char = true) : cell.Inert := by
  refine inert_of_bland (bland_of_isBlank h) fun hcomma => ?_
  rw [hcomma] at h
  exact absurd h (by decide)

/-! ## Rows that are not cut -/

def Whole (depth : Int) (row : List Cell) : Prop := splitCommas depth row = [row]

instance (depth : Int) (row : List Cell) : Decidable (Whole depth row) :=
  inferInstanceAs (Decidable (splitCommas depth row = [row]))

section Cut

variable {depth : Int} {cell : Cell} {row a b piece : List Cell} {pieces : List (List Cell)}

theorem splitCommas_comma (hcell : cell.isCode ',' = true) (row : List Cell) :
    splitCommas 0 (cell :: row) = [] :: splitCommas 0 row := by
  rw [splitCommas, if_pos ⟨hcell, rfl⟩]

theorem splitCommas_cons (hcell : ¬ (cell.isCode ',' = true ∧ depth = 0))
    (hrow : splitCommas (depth + cell.shift) row = piece :: pieces) :
    splitCommas depth (cell :: row) = (cell :: piece) :: pieces := by
  have hnext : (if cell.opens then depth + 1 else if cell.closes then depth - 1 else depth) =
      depth + cell.shift := by
    rw [Cell.shift]
    split_ifs <;> omega
  rw [splitCommas, if_neg hcell]
  dsimp only
  rw [hnext, hrow]

theorem whole_cons : Whole depth (cell :: row) ↔
    ¬ (cell.isCode ',' = true ∧ depth = 0) ∧ Whole (depth + cell.shift) row := by
  by_cases hcell : cell.isCode ',' = true ∧ depth = 0
  · obtain ⟨hcomma, rfl⟩ := hcell
    simp [Whole, splitCommas_comma hcomma, hcomma]
  · obtain ⟨piece, pieces, hrow⟩ := List.exists_cons_of_ne_nil
      (Bytes.splitCommas_ne_nil (depth + cell.shift) row)
    simp [Whole, splitCommas_cons hcell hrow, hrow, hcell]

theorem whole_append : Whole depth (a ++ b) ↔ Whole depth a ∧ Whole (depth + balance a) b := by
  induction a generalizing depth with
  | nil => simp [Whole, splitCommas]
  | cons cell a ih =>
      rw [List.cons_append, whole_cons, whole_cons, ih, balance_cons, and_assoc, add_assoc]

theorem whole_of_inert (h : ∀ cell ∈ row, cell.Inert) : Whole depth row := by
  induction row with
  | nil => rfl
  | cons cell row ih =>
      obtain ⟨hcell, hrow⟩ := List.forall_mem_cons.mp h
      rw [whole_cons, hcell.1, add_zero]
      exact ⟨fun hcomma => by simp [hcell.2] at hcomma, ih hrow⟩

theorem splitCommas_append (ha : Whole depth a)
    (hb : splitCommas (depth + balance a) b = piece :: pieces) :
    splitCommas depth (a ++ b) = (a ++ piece) :: pieces := by
  induction a generalizing depth with
  | nil => simpa using hb
  | cons cell a ih =>
      obtain ⟨hcell, ha⟩ := whole_cons.mp ha
      rw [balance_cons, ← add_assoc] at hb
      rw [List.cons_append, splitCommas_cons hcell (ih ha hb), List.cons_append]

theorem whole_or_cut (depth : Int) (row : List Cell) :
    Whole depth row ∨ ∃ a comma b, row = a ++ comma :: b ∧ Whole depth a ∧ depth + balance a = 0 ∧
      comma.isCode ',' = true := by
  induction row generalizing depth with
  | nil => exact .inl rfl
  | cons cell row ih =>
      by_cases hcell : cell.isCode ',' = true ∧ depth = 0
      · exact .inr ⟨[], cell, row, rfl, rfl, by simp [hcell.2], hcell.1⟩
      · rcases ih (depth + cell.shift) with hrow | ⟨a, comma, b, rfl, ha, hbalance, hcomma⟩
        · exact .inl (whole_cons.mpr ⟨hcell, hrow⟩)
        · refine .inr ⟨cell :: a, comma, b, rfl, whole_cons.mpr ⟨hcell, ha⟩, ?_, hcomma⟩
          rw [balance_cons, ← add_assoc, hbalance]

theorem splitCommas_cut {comma : Cell} (ha : Whole depth a) (hbalance : depth + balance a = 0)
    (hcomma : comma.isCode ',' = true) :
    splitCommas depth (a ++ comma :: b) = a :: splitCommas 0 b := by
  have hb : splitCommas (depth + balance a) (comma :: b) = [] :: splitCommas 0 b := by
    rw [hbalance, splitCommas_comma hcomma]
  rw [splitCommas_append ha hb, List.append_nil]

end Cut

@[elab_as_elim]
theorem cut_induction {motive : List Cell → Prop} (row : List Cell)
    (whole : ∀ row, Whole 0 row → motive row)
    (cut : ∀ a comma b, Whole 0 a → balance a = 0 → comma.isCode ',' = true → motive b →
      motive (a ++ comma :: b)) : motive row := by
  induction hlength : row.length using Nat.strong_induction_on generalizing row with
  | _ n ih =>
      subst hlength
      rcases whole_or_cut 0 row with hwhole | ⟨a, comma, b, rfl, ha, hbalance, hcomma⟩
      · exact whole row hwhole
      · exact cut a comma b ha (by simpa using hbalance) hcomma (ih b.length (by simp; omega) b rfl)

/-! ## Items -/

def Bare (row : List Cell) : Prop :=
  (∃ cell ∈ row.head?, isBlank cell.char = false) ∧ ∃ cell ∈ row.getLast?, isBlank cell.char = false

theorem Bare.ne_nil {row : List Cell} (h : Bare row) : row ≠ [] := by
  rintro rfl
  obtain ⟨⟨cell, hcell, -⟩, -⟩ := h
  simp at hcell

section Items

variable {row blanks spaces item : List Cell}

theorem trimCells_bare (hitem : Bare item) (hblanks : ∀ cell ∈ blanks, isBlank cell.char = true)
    (hspaces : ∀ cell ∈ spaces, isBlank cell.char = true) :
    trimCells (blanks ++ item ++ spaces) = item := by
  rw [trimCells, dropWhile_core hblanks hitem.1, dropTrailing_back hspaces hitem.2]

theorem listItems_blank (h : ∀ cell ∈ row, isBlank cell.char = true) : listItems row = [] := by
  have hwhole : splitCommas 0 row = [row] :=
    whole_of_inert fun cell hcell => inert_of_isBlank (h cell hcell)
  have htrim : trimCells row = [] := by
    rw [trimCells, List.dropWhile_eq_nil_iff.mpr h]
    rfl
  simp [listItems, hwhole, htrim]

theorem listItems_item (h : Whole 0 (blanks ++ item ++ spaces)) (hitem : Bare item)
    (hblanks : ∀ cell ∈ blanks, isBlank cell.char = true)
    (hspaces : ∀ cell ∈ spaces, isBlank cell.char = true) :
    listItems (blanks ++ item ++ spaces) = [item] := by
  have hwhole : splitCommas 0 (blanks ++ item ++ spaces) = [blanks ++ item ++ spaces] := h
  rw [listItems, hwhole, List.map_singleton, trimCells_bare hitem hblanks hspaces]
  simp [hitem.ne_nil]

theorem blank_or_item (h : Whole 0 row) :
    (∀ cell ∈ row, isBlank cell.char = true) ∧ listItems row = [] ∨
      ∃ blanks item spaces, row = blanks ++ item ++ spaces ∧
        (∀ cell ∈ blanks, isBlank cell.char = true) ∧ (∀ cell ∈ spaces, isBlank cell.char = true) ∧
        Bare item ∧ Whole 0 item ∧ balance item = balance row ∧ listItems row = [item] := by
  rcases all_or_exists_core (p := fun cell : Cell => isBlank cell.char) row with
    hblank | ⟨blanks, item, spaces, rfl, hblanks, hspaces, hitem⟩
  · exact .inl ⟨hblank, listItems_blank hblank⟩
  · have hfront : ∀ cell ∈ blanks, cell.Inert := fun cell hcell =>
      inert_of_isBlank (hblanks cell hcell)
    have hback : ∀ cell ∈ spaces, cell.Inert := fun cell hcell =>
      inert_of_isBlank (hspaces cell hcell)
    refine .inr ⟨blanks, item, spaces, rfl, hblanks, hspaces, hitem, ?_, ?_,
      listItems_item h hitem hblanks hspaces⟩
    · rw [whole_append, whole_append, balance_of_inert hfront] at h
      exact h.1.2
    · rw [balance_append, balance_append, balance_of_inert hfront, balance_of_inert hback]
      omega

theorem listItems_cut {comma : Cell} {a b : List Cell} (ha : Whole 0 a) (hbalance : balance a = 0)
    (hcomma : comma.isCode ',' = true) :
    listItems (a ++ comma :: b) = listItems a ++ listItems b := by
  have hwhole : splitCommas 0 a = [a] := ha
  rw [listItems, splitCommas_cut ha (by rw [hbalance]; rfl) hcomma, listItems, listItems, hwhole]
  simp only [List.map_cons, List.map_nil, List.filter_cons]
  split <;> simp

theorem comma_or_blank {row : List Cell} (h : listItems row = []) :
    ∀ cell ∈ row, cell.char = ',' ∨ isBlank cell.char = true := by
  have hpiece {piece : List Cell} (hwhole : Whole 0 piece) (hnil : listItems piece = []) :
      ∀ cell ∈ piece, cell.char = ',' ∨ isBlank cell.char = true := by
    rcases blank_or_item hwhole with ⟨hblank, -⟩ | ⟨_, item, _, -, -, -, -, -, -, hitem⟩
    · exact fun cell hcell => .inr (hblank cell hcell)
    · simp [hitem] at hnil
  induction row using cut_induction with
  | whole row hwhole => exact hpiece hwhole h
  | cut a comma b ha hbalance hcomma ih =>
      rw [listItems_cut ha hbalance hcomma, List.append_eq_nil_iff] at h
      intro cell hcell
      rw [List.mem_append, List.mem_cons] at hcell
      rcases hcell with hcell | rfl | hcell
      · exact hpiece ha h.1 cell hcell
      · exact .inl (by simpa using (Bool.and_eq_true_iff.mp hcomma).1)
      · exact ih h.2 cell hcell

end Items

/-! ## Lists of items -/

def Listed : List (List Cell) → Prop
  | [] => True
  | row :: rows => Bare row ∧ Whole 0 row ∧ (rows = [] ∨ balance row = 0) ∧ Listed rows

theorem listed_listItems (row : List Cell) : Listed (listItems row) := by
  induction row using cut_induction with
  | whole row hwhole =>
      rcases blank_or_item hwhole with ⟨-, hnil⟩ | ⟨_, item, _, -, -, -, hbare, hone, -, hitem⟩
      · rw [hnil]
        trivial
      · rw [hitem]
        exact ⟨hbare, hone, .inl rfl, trivial⟩
  | cut a comma b ha hbalance hcomma ih =>
      rw [listItems_cut ha hbalance hcomma]
      rcases blank_or_item ha with ⟨-, hnil⟩ | ⟨_, item, _, -, -, -, hbare, hone, hsame, hitem⟩
      · rw [hnil]
        exact ih
      · rw [hitem]
        exact ⟨hbare, hone, .inr (hsame.trans hbalance), ih⟩

theorem listItems_intercalate {rows : List (List Cell)} (h : Listed rows) :
    listItems (codeRow " ".toList ++ List.intercalate (codeRow ", ".toList) rows) = rows := by
  have hspace : ∀ cell ∈ codeRow " ".toList, isBlank cell.char = true := by simp [codeRow]; decide
  have hinert : ∀ cell ∈ codeRow " ".toList, cell.Inert := fun cell hcell =>
    inert_of_isBlank (hspace cell hcell)
  have hwhole {row : List Cell} (hrow : Whole 0 row) : Whole 0 (codeRow " ".toList ++ row) := by
    rw [whole_append, balance_of_inert hinert]
    exact ⟨whole_of_inert hinert, hrow⟩
  have hitem {row : List Cell} (hbare : Bare row) (hrow : Whole 0 row) :
      listItems (codeRow " ".toList ++ row) = [row] := by
    have hitem : listItems (codeRow " ".toList ++ row ++ []) = [row] :=
      listItems_item (by simpa using hwhole hrow) hbare hspace (by simp)
    simpa using hitem
  induction rows with
  | nil => exact listItems_blank (by simpa using hspace)
  | cons row rows ih =>
      obtain ⟨hbare, hrow, hbalance, hrows⟩ := h
      cases rows with
      | nil => simpa using hitem hbare hrow
      | cons next rows =>
          have hbalance : balance (codeRow " ".toList ++ row) = 0 := by
            rw [balance_append, balance_of_inert hinert, hbalance.resolve_left (by simp)]
            rfl
          rw [List.intercalate_cons_cons, List.append_assoc, ← List.append_assoc]
          change listItems
            ((codeRow " ".toList ++ row) ++ ⟨',', .code⟩ :: (codeRow " ".toList ++ _)) = _
          rw [listItems_cut (hwhole hrow) hbalance rfl, hitem hbare hrow, ih hrows]
          rfl

end OpalRepair.Query
