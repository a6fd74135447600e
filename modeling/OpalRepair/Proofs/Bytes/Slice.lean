import Mathlib
import OpalRepair.Proofs.Scanning

/-!
# Byte offsets

Texts addressed by byte offsets.  Every operation here that an offset can make impossible is
partial: a slice that runs backwards, leaves the text or cuts a character in two, a byte behind the
end, a difference below zero.
-/

namespace OpalRepair.Bytes

open Query Text

/-! ## Partial operations -/

def dropBytes? : Nat → List Char → Option (List Char)
  | 0, text => some text
  | _ + 1, [] => none
  | n + 1, c :: text =>
    if c.utf8Size ≤ n + 1 then dropBytes? (n + 1 - c.utf8Size) text else none

def takeBytes? : Nat → List Char → Option (List Char)
  | 0, _ => some []
  | _ + 1, [] => none
  | n + 1, c :: text =>
    if c.utf8Size ≤ n + 1 then (takeBytes? (n + 1 - c.utf8Size) text).map (c :: ·) else none

def slice? (text : List Char) (start stop : Nat) : Option (List Char) :=
  if start ≤ stop then (dropBytes? start text).bind (takeBytes? (stop - start)) else none

def sliceFrom? (text : List Char) (start : Nat) : Option (List Char) :=
  slice? text start (byteSize text)

def sub? (a b : Nat) : Option Nat :=
  if b ≤ a then some (a - b) else none

def encode (text : List Char) : List UInt8 :=
  text.flatMap String.utf8EncodeChar

def byteAt? (text : List Char) (offset : Nat) : Option UInt8 :=
  (encode text)[offset]?

def byteSlice? (text : List Char) (start stop : Nat) : Option (List UInt8) :=
  if start ≤ stop ∧ stop ≤ byteSize text then some (((encode text).drop start).take (stop - start))
  else none

/-! ## When they succeed -/

theorem dropBytes?_append (first rest : List Char) :
    dropBytes? (byteSize first) (first ++ rest) = some rest := by
  induction first with
  | nil => cases rest <;> rfl
  | cons c first ih =>
      have hpos := c.utf8Size_pos
      obtain ⟨n, hn⟩ : ∃ n, c.utf8Size + byteSize first = n + 1 :=
        ⟨c.utf8Size + byteSize first - 1, by omega⟩
      have hrest : n + 1 - c.utf8Size = byteSize first := by omega
      rw [byteSize_cons, hn, List.cons_append, dropBytes?, if_pos (by omega), hrest, ih]

theorem takeBytes?_append (first rest : List Char) :
    takeBytes? (byteSize first) (first ++ rest) = some first := by
  induction first with
  | nil => cases rest <;> rfl
  | cons c first ih =>
      have hpos := c.utf8Size_pos
      obtain ⟨n, hn⟩ : ∃ n, c.utf8Size + byteSize first = n + 1 :=
        ⟨c.utf8Size + byteSize first - 1, by omega⟩
      have hrest : n + 1 - c.utf8Size = byteSize first := by omega
      rw [byteSize_cons, hn, List.cons_append, takeBytes?, if_pos (by omega), hrest, ih]
      rfl

theorem slice?_append (before part after : List Char) :
    slice? (before ++ part ++ after) (byteSize before) (byteSize before + byteSize part) =
      some part := by
  have hsize : byteSize before + byteSize part - byteSize before = byteSize part := by omega
  rw [slice?, if_pos (by omega), List.append_assoc, dropBytes?_append, Option.bind_some, hsize,
    takeBytes?_append]

theorem slice?_eq {text : List Char} {start stop : Nat} (before part after : List Char)
    (htext : text = before ++ part ++ after) (hstart : start = byteSize before)
    (hstop : stop = byteSize before + byteSize part) : slice? text start stop = some part := by
  rw [htext, hstart, hstop, slice?_append]

theorem sliceFrom?_eq {text : List Char} {start : Nat} (before part : List Char)
    (htext : text = before ++ part) (hstart : start = byteSize before) :
    sliceFrom? text start = some part :=
  slice?_eq before part [] (by simpa using htext) hstart (by rw [htext, byteSize_append])

theorem sub?_eq {a b : Nat} (h : b ≤ a) : sub? a b = some (a - b) := if_pos h

@[simp] theorem encode_nil : encode [] = [] := rfl

@[simp] theorem encode_cons (c : Char) (text : List Char) :
    encode (c :: text) = String.utf8EncodeChar c ++ encode text := rfl

@[simp] theorem encode_append (a b : List Char) : encode (a ++ b) = encode a ++ encode b := by
  simp [encode]

@[simp] theorem length_encode (text : List Char) : (encode text).length = byteSize text := by
  induction text with
  | nil => rfl
  | cons c text ih => simp [ih]

theorem byteSlice?_eq {text : List Char} {start stop : Nat} (before part after : List Char)
    (htext : text = before ++ part ++ after) (hstart : start = byteSize before)
    (hstop : stop = byteSize before + byteSize part) :
    byteSlice? text start stop = some (encode part) := by
  have hbefore := length_encode before
  have hpart := length_encode part
  have hsize : stop - start = (encode part).length := by omega
  rw [byteSlice?, if_pos (by simp [htext]; omega), htext, hsize, hstart, ← hbefore]
  simp

theorem byteAt?_eq {text : List Char} {offset : Nat} (before : List Char) (c : Char)
    (after : List Char) (htext : text = before ++ c :: after) (hoffset : offset = byteSize before)
    (hc : c.utf8Size = 1) : byteAt? text offset = some c.val.toUInt8 := by
  rw [byteAt?, htext, hoffset, encode_append, encode_cons, String.utf8EncodeChar_eq_singleton hc,
    ← length_encode, List.getElem?_append_right (Nat.le_refl _), Nat.sub_self]
  rfl

/-! ## Positions -/

def offsetOf (text : List Char) (position : Nat) : Nat := byteSize (text.take position)

theorem offsetOf_append (before after : List Char) :
    offsetOf (before ++ after) before.length = byteSize before := by
  rw [offsetOf, List.take_left]

theorem offsetOf_add {text : List Char} {a b : Nat} (hab : a ≤ b) :
    offsetOf text b = offsetOf text a + byteSize ((text.drop a).take (b - a)) := by
  have hsplit : text.take b = text.take a ++ (text.drop a).take (b - a) := by
    rw [← List.take_add, Nat.add_sub_cancel' hab]
  rw [offsetOf, hsplit, byteSize_append, offsetOf]

theorem offsetOf_mono {text : List Char} {a b : Nat} (hab : a ≤ b) :
    offsetOf text a ≤ offsetOf text b := by
  rw [offsetOf_add hab]
  omega

theorem offsetOf_strictMono {text : List Char} {a b : Nat} (hab : a < b) (hb : b ≤ text.length) :
    offsetOf text a < offsetOf text b := by
  have hpart : (text.drop a).take (b - a) ≠ [] := by
    intro hnil
    have hlength := congrArg List.length hnil
    simp at hlength
    omega
  obtain ⟨c, part, hpart⟩ := List.exists_cons_of_ne_nil hpart
  have hpos := c.utf8Size_pos
  rw [offsetOf_add (Nat.le_of_lt hab), hpart, byteSize_cons]
  omega

theorem offsetOf_lt_iff {text : List Char} {a b : Nat} (hb : b ≤ text.length) :
    offsetOf text a < offsetOf text b ↔ a < b := by
  refine ⟨fun h => ?_, fun h => offsetOf_strictMono h hb⟩
  by_contra hba
  have hle : offsetOf text b ≤ offsetOf text a := offsetOf_mono (Nat.le_of_not_lt hba)
  omega

theorem offsetOf_le_iff {text : List Char} {a b : Nat} (ha : a ≤ text.length) :
    offsetOf text a ≤ offsetOf text b ↔ a ≤ b := by
  rw [← Nat.not_lt, ← Nat.not_lt, offsetOf_lt_iff ha]

theorem slice?_offsetOf {text : List Char} {a b : Nat} (hab : a ≤ b) :
    slice? text (offsetOf text a) (offsetOf text b) = some ((text.drop a).take (b - a)) := by
  refine slice?_eq (text.take a) _ (text.drop b) ?_ rfl (offsetOf_add hab)
  have hdrop : text.drop b = (text.drop a).drop (b - a) := by
    rw [List.drop_drop, Nat.add_sub_cancel' hab]
  rw [hdrop, List.append_assoc, List.take_append_drop, List.take_append_drop]

/-! ## ASCII -/

theorem not_ascii_of_mem_utf8EncodeChar {c : Char} (hc : c.utf8Size ≠ 1) {b : UInt8}
    (hb : b ∈ String.utf8EncodeChar c) : 0x80 ≤ b.toNat := by
  have hbig : ¬ c.val.toNat ≤ 0x7f := by
    intro h
    exact hc (Char.utf8Size_eq_one_iff.mpr (by simpa [UInt32.le_iff_toNat_le] using h))
  simp only [String.utf8EncodeChar, hbig, if_false] at hb
  split at hb
  · simp only [List.mem_cons, List.not_mem_nil, or_false] at hb
    rcases hb with rfl | rfl <;> simp [UInt8.toNat_ofNat'] <;> omega
  · split at hb
    · simp only [List.mem_cons, List.not_mem_nil, or_false] at hb
      rcases hb with rfl | rfl | rfl <;> simp [UInt8.toNat_ofNat'] <;> omega
    · simp only [List.mem_cons, List.not_mem_nil, or_false] at hb
      rcases hb with rfl | rfl | rfl | rfl <;> simp [UInt8.toNat_ofNat'] <;> omega

theorem utf8Size_of_isNameChar {c : Char} (h : isNameChar c = true) : c.utf8Size = 1 := by
  rw [Char.utf8Size_eq_one_iff]
  simp only [isNameChar, Char.isAlphanum, Char.isAlpha, Char.isUpper, Char.isLower, Char.isDigit,
    Bool.or_eq_true, Bool.and_eq_true, decide_eq_true_eq, beq_iff_eq] at h
  rcases h with h | rfl
  · grind
  · decide

theorem byteSize_of_isNameChar {name : List Char} (h : ∀ c ∈ name, isNameChar c = true) :
    byteSize name = name.length := by
  induction name with
  | nil => rfl
  | cons c name ih =>
      rw [byteSize_cons, utf8Size_of_isNameChar (h c (by simp)),
        ih fun d hd => h d (by simp [hd]), List.length_cons, Nat.add_comm]

end OpalRepair.Bytes
