import Mathlib
import OpalRepair.Query.Scan

/-!
# Scanning a text in parts

The scanner looks ahead when it closes a regex, so a part of a query is painted with the text that
follows it in view.  Painting then goes part by part, and two scanners that differ only in which
insignificant difference of `last` they remember paint alike.
-/

namespace OpalRepair.Query

open Text

/-! ## Sizes in bytes -/

@[simp] theorem byteSize_nil : byteSize [] = 0 := rfl

@[simp] theorem byteSize_cons (c : Char) (text : List Char) :
    byteSize (c :: text) = c.utf8Size + byteSize text := rfl

@[simp] theorem byteSize_append (a b : List Char) : byteSize (a ++ b) = byteSize a + byteSize b := by
  induction a with
  | nil => simp
  | cons c a ih => simp [ih, Nat.add_assoc]

/-! ## Views of a row -/

def mask (row : List Cell) : List Bool :=
  row.flatMap fun cell => List.replicate cell.char.utf8Size cell.isLiteral

theorem literalMask_eq (scan : Scan) : scan.literalMask = mask scan.cells := rfl

@[simp] theorem mask_nil : mask [] = [] := rfl

@[simp] theorem mask_cons (cell : Cell) (row : List Cell) :
    mask (cell :: row) = List.replicate cell.char.utf8Size cell.isLiteral ++ mask row := rfl

@[simp] theorem mask_append (a b : List Cell) : mask (a ++ b) = mask a ++ mask b := by
  simp [mask]

@[simp] theorem length_mask (row : List Cell) : (mask row).length = byteSize (text row) := by
  induction row with
  | nil => rfl
  | cons cell row ih => simp [ih]

theorem mask_of_forall {row : List Cell} {b : Bool} (h : ∀ cell ∈ row, cell.isLiteral = b) :
    mask row = List.replicate (byteSize (text row)) b := by
  induction row with
  | nil => rfl
  | cons cell row ih =>
      rw [mask_cons, ih fun cell hcell => h cell (by simp [hcell]), h cell (by simp)]
      simp

theorem offsetsOf_append (p : Cell → Bool) (offset : Nat) (a b : List Cell) :
    offsetsOf p offset (a ++ b) =
      offsetsOf p offset a ++ offsetsOf p (offset + byteSize (text a)) b := by
  induction a generalizing offset with
  | nil => rfl
  | cons cell a ih =>
      simp only [List.cons_append, offsetsOf, ih, text_cons, byteSize_cons, Nat.add_assoc]
      split <;> simp

theorem offsetsOf_eq_nil {p : Cell → Bool} {row : List Cell} (h : ∀ cell ∈ row, p cell = false)
    (offset : Nat) : offsetsOf p offset row = [] := by
  induction row generalizing offset with
  | nil => rfl
  | cons cell row ih =>
      simp [offsetsOf, h cell (by simp), ih fun cell hcell => h cell (by simp [hcell])]

def Cell.isQuote (cell : Cell) : Bool :=
  cell.char == '"' && (cell.role == .opening || cell.role == .closing)

theorem doubleQuotes_eq (scan : Scan) : scan.doubleQuotes = scan.cells.countP Cell.isQuote := rfl

/-! ## Parts of a text -/

namespace Scanner

def paintPart (s : Scanner) (rest : List Char) : List Char → List Cell
  | [] => []
  | c :: part =>
    ⟨c, (s.step c (part ++ rest)).1⟩ :: (s.step c (part ++ rest)).2.paintPart rest part

def reach (s : Scanner) (rest : List Char) : List Char → Scanner
  | [] => s
  | c :: part => (s.step c (part ++ rest)).2.reach rest part

@[simp] theorem paintPart_nil (s : Scanner) (rest : List Char) : s.paintPart rest [] = [] := rfl

@[simp] theorem reach_nil (s : Scanner) (rest : List Char) : s.reach rest [] = s := rfl

theorem paintPart_cons (s : Scanner) (rest : List Char) (c : Char) (part : List Char) :
    s.paintPart rest (c :: part) =
      ⟨c, (s.step c (part ++ rest)).1⟩ :: (s.step c (part ++ rest)).2.paintPart rest part := rfl

theorem reach_cons (s : Scanner) (rest : List Char) (c : Char) (part : List Char) :
    s.reach rest (c :: part) = (s.step c (part ++ rest)).2.reach rest part := rfl

@[simp] theorem text_paintPart (s : Scanner) (rest part : List Char) :
    text (s.paintPart rest part) = part := by
  induction part generalizing s with
  | nil => rfl
  | cons c part ih => simp [paintPart_cons, ih]

@[simp] theorem length_paintPart (s : Scanner) (rest part : List Char) :
    (s.paintPart rest part).length = part.length := by
  simpa [text] using congrArg List.length (text_paintPart s rest part)

theorem paint_append (s : Scanner) (part rest : List Char) :
    s.paint (part ++ rest) = s.paintPart rest part ++ (s.reach rest part).paint rest := by
  induction part generalizing s with
  | nil => rfl
  | cons c part ih => simp [paint, paintPart_cons, reach_cons, ih]

theorem finish_append (s : Scanner) (part rest : List Char) :
    s.finish (part ++ rest) = (s.reach rest part).finish rest := by
  induction part generalizing s with
  | nil => rfl
  | cons c part ih => simp [finish, reach_cons, ih]

theorem paintPart_append (s : Scanner) (rest first second : List Char) :
    s.paintPart rest (first ++ second) =
      s.paintPart (second ++ rest) first ++
        (s.reach (second ++ rest) first).paintPart rest second := by
  induction first generalizing s with
  | nil => rfl
  | cons c first ih => simp [paintPart_cons, reach_cons, ih]

theorem reach_append (s : Scanner) (rest first second : List Char) :
    s.reach rest (first ++ second) =
      (s.reach (second ++ rest) first).reach rest second := by
  induction first generalizing s with
  | nil => rfl
  | cons c first ih => simp [reach_cons, ih]

theorem paint_eq_paintPart (s : Scanner) (query : List Char) :
    s.paint query = s.paintPart [] query := by
  simpa [paint] using s.paint_append query []

theorem finish_eq_reach (s : Scanner) (query : List Char) : s.finish query = s.reach [] query := by
  simpa [finish] using s.finish_append query []

theorem step_separator {s : Scanner} {c : Char} {rest : List Char}
    (h : (s.step c rest).1 = .separator) : c = '|' := by
  unfold step at h
  split at h
  · simp at h
  · split at h
    · simp at h
    · split at h
      · simp at h
      · split at h
        · simp at h
        · by_contra hc
          simp [hc] at h
  · split_ifs at h

theorem char_of_isSeparator {s : Scanner} {query : List Char} {cell : Cell}
    (hcell : cell ∈ s.paint query) (hseparator : cell.isSeparator = true) : cell.char = '|' := by
  induction query generalizing s with
  | nil => simp [paint] at hcell
  | cons c rest ih =>
      rw [paint, List.mem_cons] at hcell
      rcases hcell with rfl | hcell
      · exact step_separator (by simpa [Cell.isSeparator] using hseparator)
      · exact ih hcell

end Scanner

end OpalRepair.Query
