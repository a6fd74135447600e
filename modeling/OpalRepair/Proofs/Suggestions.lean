import Mathlib
import OpalRepair.Proofs.Bytes.Bracket
import OpalRepair.Vocabulary.Functions
import OpalRepair.Vocabulary.Suggest
import OpalRepair.Vocabulary.Verbs

/-!
# Suggestions in order

Names and words are compared byte by byte, and bounds on what they share are counted in bytes.  The
words of the tables are ASCII in ascending order, so that counting characters instead of bytes and
keeping the order of the table come to the same.

Main statement: `suggest_best_ranked`.
-/

namespace OpalRepair.Vocabulary

open Bytes Query Text

/-! ## Rankings -/

def sharedBytes (a b : List UInt8) : Nat :=
  ((a.zip b).takeWhile fun pair => pair.1 == pair.2).length

def lowered (name : String) : List UInt8 := encode (name.toList.map Char.toLower)

/-- The number of leading bytes that a word shares with a name in lower case. -/
def shared (name word : String) : Nat := sharedBytes (lowered name) (encode word.toList)

/-- The words that share at least `least` bytes with a name, those that share more first and equals
in the order of their bytes. -/
structure Ranks (words : List String) (name : String) (least : Nat) (ranking : List String) :
    Prop where
  mem_iff : ∀ word, word ∈ ranking ↔ word ∈ words ∧ least ≤ shared name word
  nodup : ranking.Nodup
  order : ranking.Pairwise fun a b => shared name b < shared name a ∨
    shared name a = shared name b ∧ encode a.toList < encode b.toList

section Ranked

variable {words : List String} {name : List Char} {least : Nat}

theorem sharedLength_le (a b : List Char) : sharedLength a b ≤ a.length := by
  fun_induction sharedLength a b with
  | case1 c a b ih => exact Nat.succ_le_succ ih
  | case2 => exact Nat.zero_le _
  | case3 => exact Nat.zero_le _

theorem mem_ranked {word : String} :
    word ∈ ranked words name least ↔ word ∈ words ∧ least ≤ sharedLength name word.toList := by
  have hle := sharedLength_le name word.toList
  simp only [ranked, List.mem_flatMap, List.mem_reverse, List.mem_range'_1, List.mem_filter,
    beq_iff_eq]
  constructor
  · rintro ⟨count, ⟨hleast, -⟩, hword, rfl⟩
    exact ⟨hword, hleast⟩
  · rintro ⟨hword, hleast⟩
    exact ⟨_, ⟨hleast, by omega⟩, hword, rfl⟩

theorem pairwise_ranked {R : String → String → Prop} (hwords : words.Pairwise R) :
    (ranked words name least).Pairwise fun a b =>
      sharedLength name b.toList < sharedLength name a.toList ∨
        sharedLength name a.toList = sharedLength name b.toList ∧ R a b := by
  rw [ranked, List.pairwise_flatMap]
  constructor
  · intro count _
    refine (hwords.filter _).imp_of_mem fun {a b} ha hb hab => .inr ⟨?_, hab⟩
    simp only [List.mem_filter, beq_iff_eq] at ha hb
    rw [ha.2, hb.2]
  · rw [List.pairwise_reverse]
    refine (List.pairwise_lt_range').imp fun {count more} hlt a ha b hb => .inl ?_
    simp only [List.mem_filter, beq_iff_eq] at ha hb
    omega

end Ranked

/-! ## Words of ASCII -/

theorem first_byte_ne {c d : Char} (hd : d.utf8Size = 1) (hne : c ≠ d) {byte : UInt8}
    {bytes : List UInt8} (hbytes : String.utf8EncodeChar c = byte :: bytes) :
    byte ≠ d.val.toUInt8 := by
  rintro rfl
  by_cases hone : c.utf8Size = 1
  · rw [String.utf8EncodeChar_eq_singleton hone] at hbytes
    apply hne
    rw [← toChar_toUInt8 hone, (List.cons.inj hbytes).1, toChar_toUInt8 hd]
  · -- Outside ASCII the first byte is too big.
    have hbig := not_ascii_of_mem_utf8EncodeChar hone
      (show d.val.toUInt8 ∈ String.utf8EncodeChar c by simp [hbytes])
    have hsmall : d.val.toNat ≤ 127 :=
      UInt32.le_iff_toNat_le.mp (Char.utf8Size_eq_one_iff.mp hd)
    rw [UInt32.toNat_toUInt8] at hbig
    omega

theorem sharedBytes_encode {word : List Char} (hword : ∀ c ∈ word, c.utf8Size = 1)
    (name : List Char) : sharedBytes (encode name) (encode word) = sharedLength name word := by
  induction word generalizing name with
  | nil => cases name <;> simp [sharedBytes, sharedLength]
  | cons d word ih =>
      obtain ⟨hd, hrest⟩ := List.forall_mem_cons.mp hword
      have hbyte := String.utf8EncodeChar_eq_singleton hd
      cases name with
      | nil => rfl
      | cons c name =>
          by_cases hc : c = d
          · subst hc
            have hnext := ih hrest name
            rw [sharedBytes] at hnext
            simp [sharedBytes, sharedLength, hbyte, hnext]
          · obtain ⟨first, bytes, hbytes⟩ :=
              List.exists_cons_of_ne_nil
                (String.utf8EncodeChar_ne_nil : String.utf8EncodeChar c ≠ [])
            have hfirst := first_byte_ne hd hc hbytes
            simp [sharedBytes, sharedLength, hbyte, hbytes, hc]
            simpa using hfirst

theorem utf8Size_of_small {text : List Char} (h : ∀ byte ∈ encode text, byte < 0x80) :
    ∀ c ∈ text, c.utf8Size = 1 := by
  intro c hc
  by_contra hone
  obtain ⟨byte, bytes, hbytes⟩ :=
    List.exists_cons_of_ne_nil (String.utf8EncodeChar_ne_nil : String.utf8EncodeChar c ≠ [])
  have hmem : byte ∈ String.utf8EncodeChar c := by simp [hbytes]
  have hbig := not_ascii_of_mem_utf8EncodeChar hone hmem
  have hsmall : byte.toNat < 0x80 := h byte (List.mem_flatMap.mpr ⟨c, hc, hmem⟩)
  omega

theorem encode_toList (word : String) : encode word.toList = word.toByteArray.data.toList := by
  rw [← String.utf8Encode_toList, List.utf8Encode, List.data_toByteArray]
  rfl

/-! ## Tables -/

structure IsTable (words : List String) : Prop where
  ascii : ∀ word ∈ words, ∀ c ∈ word.toList, c.utf8Size = 1
  sorted : words.Pairwise fun a b => encode a.toList < encode b.toList

-- The bytes of a string need not be read as characters first, which makes the check of a table fast.
theorem isTable_of_bytes {words : List String}
    (hsmall : (words.all fun word => word.toByteArray.data.toList.all (· < 0x80)) = true)
    (hchain : words.IsChain fun a b => a.toByteArray.data.toList < b.toByteArray.data.toList) :
    IsTable words := by
  constructor
  · intro word hword
    refine utf8Size_of_small fun byte hbyte => ?_
    rw [encode_toList] at hbyte
    simpa using List.all_eq_true.mp (List.all_eq_true.mp hsmall word hword) byte hbyte
  · simp only [encode_toList]
    have : IsTrans String fun a b => a.toByteArray.data.toList < b.toByteArray.data.toList :=
      ⟨fun _ _ _ => List.lt_trans⟩
    exact List.isChain_iff_pairwise.mp hchain

theorem isTable_verbs : IsTable verbs :=
  isTable_of_bytes (by decide +kernel) (by decide +kernel)

theorem isTable_functions : IsTable functions :=
  isTable_of_bytes (by decide +kernel) (by decide +kernel)

namespace IsTable

variable {words : List String}

theorem shared_eq (h : IsTable words) (name : String) {word : String} (hword : word ∈ words) :
    shared name word = sharedLength (name.toList.map Char.toLower) word.toList :=
  sharedBytes_encode (h.ascii word hword) _

theorem ranks (h : IsTable words) (name : String) (least : Nat) :
    Ranks words name least (ranked words (name.toList.map Char.toLower) least) := by
  have horder : (ranked words (name.toList.map Char.toLower) least).Pairwise fun a b =>
      shared name b < shared name a ∨
        shared name a = shared name b ∧ encode a.toList < encode b.toList := by
    refine (pairwise_ranked h.sorted).imp_of_mem fun {a b} ha hb hab => ?_
    rwa [h.shared_eq name (mem_ranked.mp ha).1, h.shared_eq name (mem_ranked.mp hb).1]
  refine ⟨fun word => ?_, horder.imp fun {a b} hab heq => ?_, horder⟩
  · rw [mem_ranked]
    exact and_congr_right fun hword => by rw [h.shared_eq name hword]
  · subst heq
    rcases hab with hless | ⟨-, hless⟩
    · exact Nat.lt_irrefl _ hless
    · exact List.lt_irrefl _ hless

end IsTable

/-! ## Suggestions -/

section Suggest

variable {words : List String} {name : String}

theorem length_lowered (name : String) :
    (lowered name).length = byteSize (name.toList.map Char.toLower) := length_encode _

theorem suggest_of_empty (h : lowered name = []) (limit : Nat) : suggest words name limit = [] := by
  have hsize : byteSize (name.toList.map Char.toLower) = 0 := by rw [← length_lowered, h]; rfl
  simp [suggest, hsize]

theorem suggest_eq_take (h : IsTable words) (hname : lowered name ≠ []) (limit : Nat) :
    let size := (lowered name).length
    suggest words name limit = (ranked words (name.toList.map Char.toLower)
      (if ∃ word ∈ words, min 3 size ≤ shared name word then min 3 size else min 2 size)).take
        limit := by
  intro size
  have hsize : byteSize (name.toList.map Char.toLower) = size := (length_lowered name).symm
  have hpos : size ≠ 0 := fun hzero => hname (List.length_eq_zero_iff.mp hzero)
  have hranks := h.ranks name (min 3 size)
  simp only [suggest, hsize, if_neg hpos]
  cases hranked : ranked words (name.toList.map Char.toLower) (min 3 size) with
  | nil =>
      have hnone : ¬ ∃ word ∈ words, min 3 size ≤ shared name word := by
        rintro ⟨word, hword⟩
        have hmem := (hranks.mem_iff word).mpr hword
        simp [hranked] at hmem
      rw [if_neg hnone]
  | cons word found =>
      have hsome : ∃ word ∈ words, min 3 size ≤ shared name word :=
        ⟨word, (hranks.mem_iff word).mp (by simp [hranked])⟩
      rw [if_pos hsome, hranked]

end Suggest

/-- Suggestions are taken from the front of one ranking: that of the words that share at least three
bytes with the name in lower case, or two if no word shares three, or the whole name if it is
shorter.  For an empty name, or if no word shares that much, there are none. -/
theorem suggest_best_ranked {words : List String} (hwords : words = verbs ∨ words = functions)
    (name : String) :
    let size := (lowered name).length
    let least := if ∃ word ∈ words, min 3 size ≤ shared name word then min 3 size else min 2 size
    (lowered name ≠ [] → ∃ ranking, Ranks words name least ranking ∧
        ∀ limit, suggest words name limit = ranking.take limit) ∧
      ((lowered name = [] ∨ ∀ word ∈ words, shared name word < least) →
        ∀ limit, suggest words name limit = []) ∧
      ∀ fewer more, fewer ≤ more → suggest words name fewer <+: suggest words name more := by
  intro size least
  have htable : IsTable words := by
    rcases hwords with rfl | rfl
    · exact isTable_verbs
    · exact isTable_functions
  by_cases hname : lowered name = []
  · have hnone : ∀ limit, suggest words name limit = [] := suggest_of_empty hname
    exact ⟨fun hsome => absurd hname hsome, fun _ => hnone, fun fewer more _ => by simp [hnone]⟩
  · have hranks := htable.ranks name least
    have htake := suggest_eq_take htable hname
    refine ⟨fun _ => ⟨_, hranks, htake⟩, ?_, fun fewer more hle => ?_⟩
    · rintro (hempty | hbelow) limit
      · exact absurd hempty hname
      · have hnil : ranked words (name.toList.map Char.toLower) least = [] := by
          refine List.eq_nil_iff_forall_not_mem.mpr fun word hword => ?_
          obtain ⟨hmem, hleast⟩ := (hranks.mem_iff word).mp hword
          exact absurd hleast (Nat.not_le.mpr (hbelow word hmem))
        rw [htake, hnil, List.take_nil]
    · rw [htake, htake]
      exact List.take_prefix_take_left hle

/-- No verb shares the first byte of the accented letter, so that two bytes are enough. -/
theorem suggest_best_ranked_accent :
    (∃ ranking, Ranks verbs "fLé" 2 ranking ∧
      ∀ limit, suggest verbs "fLé" limit = ranking.take limit) ∧
    suggest verbs "fLé" 2 = ["flatten", "flatten_all"] ∧
    ["flatten", "flatten_all"] <+: suggest verbs "fLé" 7 := by
  have hsize : (lowered "fLé").length = 4 := by decide
  have hnone : ¬ ∃ word ∈ verbs, 3 ≤ shared "fLé" word := by decide +kernel
  have htwo : suggest verbs "fLé" 2 = ["flatten", "flatten_all"] := by decide
  obtain ⟨hranks, -, hmore⟩ := suggest_best_ranked (.inl rfl) "fLé"
  rw [hsize] at hranks
  refine ⟨?_, htwo, htwo ▸ hmore 2 7 (by decide)⟩
  simpa [hnone] using hranks fun hnil => by simp [hnil] at hsize

end OpalRepair.Vocabulary
