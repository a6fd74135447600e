import Mathlib
import OpalRepair.Proofs.Splice
import OpalRepair.Proofs.Template.Basic

/-!
# Splicing templates

Edits of a text with one hole.  Positions behind the hole move with what fills it, but their order
does not change, so the edits are sorted and applied in one way whatever the hole is filled with.
-/

namespace OpalRepair

open Query

namespace Template

def holed (front behind : List Char) : Template := plain front ++ none :: plain behind

theorem fill_holed (front behind word : List Char) :
    fill word (holed front behind) = front ++ (word ++ behind) := by
  simp [holed]

/-- Where a position of a template stands in the text, when the hole at position `hole` is filled
with `size` characters. -/
def place (hole size position : Nat) : Nat :=
  if position ≤ hole then position else position - 1 + size

section Places

variable {hole size a b : Nat}

theorem place_of_le (h : a ≤ hole) : place hole size a = a := if_pos h

theorem place_behind (hole size more : Nat) :
    place hole size (hole + 1 + more) = hole + size + more := by
  rw [place, if_neg (by omega)]
  omega

theorem place_lt_iff (hsize : 0 < size) : place hole size a < place hole size b ↔ a < b := by
  unfold place
  split <;> split <;> omega

theorem place_le_iff (hsize : 0 < size) : place hole size a ≤ place hole size b ↔ a ≤ b := by
  rw [← Nat.not_lt, place_lt_iff hsize, Nat.not_lt]

end Places

variable (front behind word : List Char)

theorem take_fill_holed (position : Nat) :
    (fill word (holed front behind)).take (place front.length word.length position) =
      fill word ((holed front behind).take position) := by
  by_cases h : position ≤ front.length
  · rw [place_of_le h, fill_holed, holed, List.take_append_of_le_length h,
      List.take_append_of_le_length (by simpa [plain] using h), plain, ← List.map_take]
    exact (fill_plain word _).symm
  · obtain ⟨more, rfl⟩ := Nat.exists_eq_add_of_le (Nat.lt_of_not_le h)
    have hlength : (plain front).length = front.length := by simp [plain]
    rw [Nat.succ_eq_add_one, place_behind, fill_holed, holed, Nat.add_assoc, Nat.add_assoc, ← hlength,
      List.take_length_add_append, hlength, List.take_length_add_append, List.take_length_add_append,
      Nat.add_comm 1, List.take_succ_cons, plain, plain, ← List.map_take]
    exact (fill_holed front (behind.take more) word).symm

theorem drop_fill_holed (position : Nat) :
    (fill word (holed front behind)).drop (place front.length word.length position) =
      fill word ((holed front behind).drop position) := by
  have hsplit : fill word ((holed front behind).take position) ++
      fill word ((holed front behind).drop position) = fill word (holed front behind) := by
    rw [← fill_append, List.take_append_drop]
  rw [← take_fill_holed] at hsplit
  exact (List.append_cancel_left (hsplit.trans (List.take_append_drop _ _).symm)).symm

theorem drop_take_fill_holed (hword : word ≠ []) {start stop : Nat} (h : start ≤ stop) :
    ((fill word (holed front behind)).take (place front.length word.length stop)).drop
        (place front.length word.length start) =
      fill word (((holed front behind).take stop).drop start) := by
  have hplace : place front.length word.length start ≤ place front.length word.length stop := by
    rwa [place_le_iff (List.length_pos_iff.mpr hword)]
  have hsplit : fill word ((holed front behind).take start) ++
      fill word (((holed front behind).take stop).drop start) =
        fill word ((holed front behind).take stop) := by
    rw [← fill_append, ← Nat.min_eq_left h, ← List.take_take, Nat.min_eq_left h,
      List.take_append_drop]
  rw [← take_fill_holed, ← take_fill_holed] at hsplit
  refine (List.append_cancel_left (hsplit.trans ?_)).symm
  have hfront := List.take_append_drop (place front.length word.length start)
    ((fill word (holed front behind)).take (place front.length word.length stop))
  rw [List.take_take, Nat.min_eq_left hplace] at hfront
  exact hfront.symm

end Template

open Template

structure HoledEdit where
  span : Span
  replacement : Template

namespace HoledEdit

def fill (hole : Nat) (word : List Char) (edit : HoledEdit) : Edit :=
  ⟨⟨place hole word.length edit.span.start, place hole word.length edit.span.stop⟩,
    Template.fill word edit.replacement⟩

variable {front behind : List Char}

theorem exists_applyFrom {edits : List HoledEdit}
    (hedits : ∀ edit ∈ edits, edit.span.start ≤ edit.span.stop) (cursor : Nat) :
    ∃ template, ∀ word, word ≠ [] →
      Edit.applyFrom (place front.length word.length cursor)
          ((Template.fill word (holed front behind)).drop (place front.length word.length cursor))
          (edits.map (fill front.length word)) =
        Template.fill word template := by
  induction edits generalizing cursor with
  | nil =>
      refine ⟨(holed front behind).drop cursor, fun word _ => ?_⟩
      rw [← drop_fill_holed]
      rfl
  | cons edit edits ih =>
      have hspan := hedits edit (by simp)
      have hrest := fun other hother => hedits other (List.mem_cons_of_mem _ hother)
      by_cases hstart : edit.span.start < cursor
      · obtain ⟨template, htemplate⟩ := ih hrest cursor
        refine ⟨template, fun word hword => ?_⟩
        have hbefore : place front.length word.length edit.span.start <
            place front.length word.length cursor := by
          rwa [place_lt_iff (List.length_pos_iff.mpr hword)]
        rw [List.map_cons, Edit.applyFrom, fill, if_pos hbefore]
        exact htemplate word hword
      · obtain ⟨template, htemplate⟩ := ih hrest edit.span.stop
        refine ⟨((holed front behind).take edit.span.start).drop cursor ++
          (edit.replacement ++ template), fun word hword => ?_⟩
        have hsize := List.length_pos_iff.mpr hword
        have hbefore : ¬ place front.length word.length edit.span.start <
            place front.length word.length cursor := by
          rwa [place_lt_iff hsize]
        have hstop : place front.length word.length cursor ≤
            place front.length word.length edit.span.stop := by
          rw [place_le_iff hsize]
          omega
        rw [List.map_cons, Edit.applyFrom, fill, if_neg hbefore, List.drop_drop,
          Nat.add_sub_cancel' hstop, htemplate word hword, ← List.drop_take,
          drop_take_fill_holed front behind word hword (Nat.le_of_not_lt hstart)]
        simp

def le (a b : HoledEdit) : Prop :=
  a.span.start < b.span.start ∨ a.span.start = b.span.start ∧ a.span.stop ≤ b.span.stop

instance : DecidableRel le := fun _ _ => inferInstanceAs (Decidable (_ ∨ _))

theorem fill_le_fill {hole : Nat} {word : List Char} (hword : word ≠ []) (a b : HoledEdit) :
    le a b ↔ (fill hole word a).le (fill hole word b) = true := by
  have hsize := List.length_pos_iff.mpr hword
  have hlt := @place_lt_iff hole word.length a.span.start b.span.start hsize
  have hgt := @place_lt_iff hole word.length b.span.start a.span.start hsize
  have hle := @place_le_iff hole word.length a.span.stop b.span.stop hsize
  rw [Bytes.le_iff, le, fill, fill]
  dsimp only
  omega

theorem exists_splice {edits : List HoledEdit}
    (hedits : ∀ edit ∈ edits, edit.span.start ≤ edit.span.stop) :
    ∃ template, ∀ word, word ≠ [] →
      Edit.splice (Template.fill word (holed front behind)) (edits.map (fill front.length word)) =
        Template.fill word template := by
  have hsorted : ∀ edit ∈ edits.insertionSort le, edit.span.start ≤ edit.span.stop := by
    intro edit hedit
    exact hedits edit ((List.mem_insertionSort le).mp hedit)
  obtain ⟨template, htemplate⟩ := exists_applyFrom hsorted 0
  refine ⟨template, fun word hword => ?_⟩
  have hsort := List.map_insertionSort le (fun a b : Edit => a.le b = true) (fill front.length word)
    edits fun _ _ _ _ => fill_le_fill hword _ _
  rw [Edit.splice, Edit.sort_eq_insertionSort, ← hsort]
  exact htemplate word hword

end HoledEdit

end OpalRepair
