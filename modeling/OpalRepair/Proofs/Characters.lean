import Mathlib
import OpalRepair.Text.Blank
import OpalRepair.Text.Number
import OpalRepair.Text.Word

/-!
# Classes of characters

Which classes have no character in common, and which contain each other.
-/

namespace OpalRepair.Text

/-! ## Code points -/

theorem eq_iff_toNat (c d : Char) : c = d ↔ c.toNat = d.toNat :=
  ⟨fun h => h ▸ rfl, fun h => Char.ext (UInt32.toNat_inj.mp h)⟩

theorem isAlpha_iff (c : Char) : c.isAlpha = true ↔
    65 ≤ c.toNat ∧ c.toNat ≤ 90 ∨ 97 ≤ c.toNat ∧ c.toNat ≤ 122 := by
  simp only [Char.isAlpha, Char.isUpper, Char.isLower, Bool.or_eq_true, Bool.and_eq_true,
    decide_eq_true_eq, UInt32.le_iff_toNat_le, ge_iff_le]
  rfl

theorem isDigit_iff (c : Char) : c.isDigit = true ↔ 48 ≤ c.toNat ∧ c.toNat ≤ 57 := by
  simp only [Char.isDigit, Bool.and_eq_true, decide_eq_true_eq, UInt32.le_iff_toNat_le, ge_iff_le]
  rfl

theorem isNameStart_iff (c : Char) : isNameStart c = true ↔
    65 ≤ c.toNat ∧ c.toNat ≤ 90 ∨ c.toNat = 95 ∨ 97 ≤ c.toNat ∧ c.toNat ≤ 122 := by
  rw [isNameStart, Bool.or_eq_true, isAlpha_iff, beq_iff_eq, eq_iff_toNat]
  change _ ∨ c.toNat = 95 ↔ _
  omega

theorem isNameChar_iff (c : Char) : isNameChar c = true ↔
    48 ≤ c.toNat ∧ c.toNat ≤ 57 ∨ 65 ≤ c.toNat ∧ c.toNat ≤ 90 ∨ c.toNat = 95 ∨
      97 ≤ c.toNat ∧ c.toNat ≤ 122 := by
  rw [isNameChar, Char.isAlphanum, Bool.or_eq_true, Bool.or_eq_true, isAlpha_iff, isDigit_iff,
    beq_iff_eq, eq_iff_toNat]
  change _ ∨ c.toNat = 95 ↔ _
  omega

theorem isNameChar_of_isNameStart {c : Char} (h : isNameStart c = true) : isNameChar c = true := by
  rw [isNameStart_iff] at h
  rw [isNameChar_iff]
  omega

theorem isWordChar_of_isNameChar {c : Char} (h : isNameChar c = true) : isWordChar c = true := by
  have hsmall := (isNameChar_iff c).mp h
  rw [isWordChar, if_pos (by omega), h]

theorem isWordChar_of_isAlphabetic {c : Char} (h : isAlphabetic c = true) : isWordChar c = true := by
  rw [isAlphabetic] at h
  rw [isWordChar]
  split at h
  · rename_i hsmall
    rw [if_pos hsmall, isNameChar_iff]
    rw [isAlpha_iff] at h
    omega
  · rename_i hbig
    rw [if_neg hbig, isAlphabetic, if_neg hbig, h]
    rfl

/-! ## Tables -/

def Ranges.disjoint (a b : Ranges) : Bool :=
  a.all fun r => b.all fun s => r.2.blt s.1 || s.2.blt r.1

theorem Ranges.not_contains {a b : Ranges} (h : a.disjoint b = true) {c : Char}
    (hc : a.contains c = true) : b.contains c = false := by
  rw [Ranges.contains, List.any_eq_true] at hc
  obtain ⟨r, hr, hin⟩ := hc
  rw [Ranges.contains, List.any_eq_false]
  intro s hs hout
  have hapart := List.all_eq_true.mp (List.all_eq_true.mp h r hr) s hs
  simp only [Bool.or_eq_true, Nat.blt_eq] at hapart
  simp only [Bool.and_eq_true, decide_eq_true_eq] at hin hout
  omega

theorem alphabetics_disjoint : blanks.disjoint alphabetics = true := by decide +kernel

theorem wordParts_disjoint : blanks.disjoint wordParts = true := by decide +kernel

theorem numbers_disjoint : Ranges.disjoint ((0x0, 0x7F) :: blanks)
    (otherNumbers ++ addedAlphanumerics) = true := by decide

theorem decimalDigits_disjoint : blanks.disjoint decimalDigits = true := by decide

/-! ## Blanks -/

theorem isBlank_cases {c : Char} (h : isBlank c = true) :
    c.toNat < 0x80 ∧ (c.toNat = 0x20 ∨ 0x9 ≤ c.toNat ∧ c.toNat ≤ 0xD) ∨
      ¬ c.toNat < 0x80 ∧ blanks.contains c = true := by
  rw [isBlank] at h
  split at h
  · rename_i hsmall
    refine .inl ⟨hsmall, ?_⟩
    rcases Bool.or_eq_true_iff.mp h with h | h
    · left
      rw [beq_iff_eq.mp h]
      rfl
    · right
      simpa using h
  · rename_i hbig
    exact .inr ⟨hbig, h⟩

theorem isWordChar_of_isBlank {c : Char} (h : isBlank c = true) : isWordChar c = false := by
  rw [isWordChar]
  rcases isBlank_cases h with ⟨hsmall, hc⟩ | ⟨hbig, hc⟩
  · rw [if_pos hsmall, ← Bool.not_eq_true, isNameChar_iff]
    omega
  · rw [if_neg hbig, isAlphabetic, if_neg hbig, Ranges.not_contains alphabetics_disjoint hc,
      Ranges.not_contains wordParts_disjoint hc]
    rfl

theorem isNameChar_of_isBlank {c : Char} (h : isBlank c = true) : isNameChar c = false := by
  by_contra hname
  have := isWordChar_of_isNameChar (by simpa using hname)
  simp [isWordChar_of_isBlank h] at this

theorem isBlank_of_isNameChar {c : Char} (h : isNameChar c = true) : isBlank c = false := by
  by_contra hblank
  simp [isNameChar_of_isBlank (by simpa using hblank)] at h

theorem isDecimalDigit_of_isBlank {c : Char} (h : isBlank c = true) : isDecimalDigit c = false := by
  rw [isDecimalDigit]
  rcases isBlank_cases h with ⟨hsmall, hc⟩ | ⟨hbig, hc⟩
  · rw [if_pos hsmall, ← Bool.not_eq_true, isDigit_iff]
    omega
  · rw [if_neg hbig, Ranges.not_contains decimalDigits_disjoint hc]

theorem isAlphanumeric_of_isBlank {c : Char} (h : isBlank c = true) : isAlphanumeric c = false := by
  have hnumbers : Ranges.contains (otherNumbers ++ addedAlphanumerics) c = false := by
    refine Ranges.not_contains numbers_disjoint ?_
    rcases isBlank_cases h with ⟨hsmall, -⟩ | ⟨-, hc⟩
    · simp only [Ranges.contains, List.any_cons, Bool.or_eq_true, Bool.and_eq_true, decide_eq_true_eq]
      exact .inl ⟨by omega, by omega⟩
    · rw [Ranges.contains, List.any_cons]
      exact Bool.or_eq_true_iff.mpr (.inr hc)
  rw [Ranges.contains, List.any_append, Bool.or_eq_false_iff] at hnumbers
  have hletters : isAlphabetic c = false := by
    by_contra halphabetic
    have := isWordChar_of_isAlphabetic (by simpa using halphabetic)
    simp [isWordChar_of_isBlank h] at this
  rw [isAlphanumeric, hletters, isDecimalDigit_of_isBlank h, Ranges.contains, hnumbers.1, Ranges.contains, hnumbers.2]
  rfl

end OpalRepair.Text
