import Mathlib
import OpalRepair.Proofs.Bytes.Edit
import OpalRepair.Query.Site

/-!
# Matches of patterns by byte offsets

A pattern is looked for from left to right, and its matches are byte spans of the query that do not
overlap.  Where no match can start inside another, looking everywhere finds the same.
-/

namespace OpalRepair.Bytes

open Query Text

/-! ## The byte before an offset -/

def precededBy? (p : Char → Bool) (query : List Char) (offset : Nat) : Option Bool :=
  if offset = 0 then some false
  else (sub? offset 1).bind fun last => (byteAt? query last).map fun byte => p byte.toChar

def continuesPath? : List Char → Nat → Option Bool :=
  precededBy? fun c => isNameChar c || c == '.'

theorem byteAt?_last (front : List Char) (c : Char) (rest : List Char) :
    ∃ byte, byteAt? (front ++ c :: rest) (byteSize (front ++ [c]) - 1) = some byte ∧
      byte ∈ String.utf8EncodeChar c ∧ (c.utf8Size = 1 → byte.toChar = c) := by
  have hpos := c.utf8Size_pos
  have hlength := String.length_utf8EncodeChar c
  have hindex : byteSize (front ++ [c]) - 1 = (encode front).length + (c.utf8Size - 1) := by
    simp
    omega
  have hbyte : byteAt? (front ++ c :: rest) (byteSize (front ++ [c]) - 1) =
      (String.utf8EncodeChar c)[c.utf8Size - 1]? := by
    rw [byteAt?, encode_append, encode_cons, hindex, List.getElem?_append_right (by omega),
      Nat.add_sub_cancel_left, List.getElem?_append_left (by omega)]
  refine ⟨(String.utf8EncodeChar c)[c.utf8Size - 1], ?_, List.getElem_mem _, ?_⟩
  · rw [hbyte, List.getElem?_eq_getElem (by omega)]
  · intro hone
    simp only [String.utf8EncodeChar_eq_singleton hone, hone]
    exact toChar_toUInt8 hone

theorem not_ascii_toChar {c : Char} (hc : c.utf8Size ≠ 1) {byte : UInt8}
    (hbyte : byte ∈ String.utf8EncodeChar c) : byte.toChar.utf8Size ≠ 1 := by
  intro hone
  have hbig := not_ascii_of_mem_utf8EncodeChar hc hbyte
  have hsmall : byte.toUInt32.toNat ≤ 127 :=
    UInt32.le_iff_toNat_le.mp (Char.utf8Size_eq_one_iff.mp hone)
  rw [UInt8.toNat_toUInt32] at hsmall
  omega

theorem precededBy?_eq {p : Char → Bool} (hp : ∀ c, p c = true → c.utf8Size = 1)
    {query : List Char} {offset : Nat} (before rest : List Char) (hquery : query = before ++ rest)
    (hoffset : offset = byteSize before) :
    precededBy? p query offset = some (before.getLast?.any p) := by
  subst hquery hoffset
  rcases before.eq_nil_or_concat' with rfl | ⟨front, c, rfl⟩
  · rfl
  · have hpos := c.utf8Size_pos
    obtain ⟨byte, hbyte, hmem, hascii⟩ := byteAt?_last front c rest
    rw [precededBy?, if_neg (by simp; omega), sub?_eq (by simp; omega), Option.bind_some,
      List.append_assoc, List.singleton_append, hbyte, Option.map_some, List.getLast?_concat,
      Option.any_some]
    by_cases hone : c.utf8Size = 1
    · rw [hascii hone]
    · have hc : p c = false := by
        by_contra h
        exact hone (hp c (by simpa using h))
      have hb : p byte.toChar = false := by
        by_contra h
        exact not_ascii_toChar hone hmem (hp _ (by simpa using h))
      rw [hc, hb]

theorem continuesPath?_eq {query : List Char} {offset : Nat} (before rest : List Char)
    (hquery : query = before ++ rest) (hoffset : offset = byteSize before) :
    continuesPath? query offset =
      some (before.getLast?.any fun c => isNameChar c || c == '.') := by
  refine precededBy?_eq (fun c hc => ?_) before rest hquery hoffset
  rcases Bool.or_eq_true_iff.mp hc with h | h
  · exact utf8Size_of_isNameChar h
  · rw [beq_iff_eq.mp h]
    decide

/-! ## Matches -/

/-- A match of a pattern: its offset, its text and the parts of it that the pattern names. -/
structure Match (α : Type) where
  start : Nat
  whole : List Char
  parts : α
  deriving DecidableEq, Repr

def Match.stop {α : Type} (found : Match α) : Nat := found.start + byteSize found.whole

/-- The matches of a pattern from left to right; they do not overlap.  The first `skip` characters
belong to a match already found. -/
def matchesFrom {α : Type} (read? : Option Char → List Char → Option (List Char × α)) :
    Nat → Nat → Option Char → List Char → List (Match α)
  | _, _, _, [] => []
  | skip + 1, offset, _, c :: rest => matchesFrom read? skip (offset + c.utf8Size) (some c) rest
  | 0, offset, previous, c :: rest =>
    match read? previous (c :: rest) with
    | none => matchesFrom read? 0 (offset + c.utf8Size) (some c) rest
    | some (whole, parts) =>
      ⟨offset, whole, parts⟩ ::
        matchesFrom read? (whole.length - 1) (offset + c.utf8Size) (some c) rest

/-! ## Matches that cannot overlap -/

section Everywhere

variable {α : Type} {read? : Option Char → List Char → Option (List Char × α)}

def everywhere (read? : Option Char → List Char → Option (List Char × α)) :
    Nat → Option Char → List Char → List (Match α)
  | _, _, [] => []
  | offset, previous, c :: rest =>
    ((read? previous (c :: rest)).map fun (whole, parts) => ⟨offset, whole, parts⟩).toList
      ++ everywhere read? (offset + c.utf8Size) (some c) rest

def Clear (read? : Option Char → List Char → Option (List Char × α)) :
    Nat → Option Char → List Char → Prop
  | 0, _, _ => True
  | _ + 1, _, [] => True
  | n + 1, previous, c :: rest =>
    read? previous (c :: rest) = none ∧ Clear read? n (some c) rest

theorem matchesFrom_eq_everywhere
    (hinner : ∀ previous c rest whole parts, read? previous (c :: rest) = some (whole, parts) →
      Clear read? (whole.length - 1) (some c) rest)
    (skip offset : Nat) (previous : Option Char) (text : List Char)
    (hclear : Clear read? skip previous text) :
    matchesFrom read? skip offset previous text = everywhere read? offset previous text := by
  induction text generalizing skip offset previous with
  | nil => cases skip <;> rfl
  | cons c rest ih =>
      cases skip with
      | succ skip =>
          rw [matchesFrom, ih skip _ _ hclear.2, everywhere, hclear.1]
          rfl
      | zero =>
          rw [matchesFrom, everywhere]
          cases hread : read? previous (c :: rest) with
          | none =>
              rw [Option.map_none, Option.toList_none, List.nil_append]
              exact ih 0 _ _ trivial
          | some found =>
              obtain ⟨whole, parts⟩ := found
              simp only [Option.map_some, Option.toList_some, List.singleton_append]
              rw [ih _ _ _ (hinner previous c rest whole parts hread)]

theorem Clear.append {first rest : List Char} {n : Nat} {previous : Option Char}
    (hfirst : Clear read? first.length previous (first ++ rest))
    (hrest : Clear read? n (first.getLast?.or previous) rest) :
    Clear read? (first.length + n) previous (first ++ rest) := by
  induction first generalizing previous with
  | nil => simpa using hrest
  | cons c first ih =>
      rw [List.length_cons, Nat.add_right_comm]
      refine ⟨hfirst.1, ih hfirst.2 ?_⟩
      cases first with
      | nil => simpa using hrest
      | cons d first =>
          rw [List.getLast?_cons_cons] at hrest
          cases hlast : (d :: first).getLast? with
          | none => simp at hlast
          | some e => simpa [hlast] using hrest

theorem Clear.of_forall {part rest : List Char} {previous : Option Char}
    (h : ∀ c ∈ part, ∀ previous rest, read? previous (c :: rest) = none) :
    Clear read? part.length previous (part ++ rest) := by
  induction part generalizing previous with
  | nil => trivial
  | cons c part ih => exact ⟨h c (by simp) _ _, ih fun d hd => h d (by simp [hd])⟩

theorem Clear.of_word {word rest : List Char} {previous : Option Char}
    (hread : ∀ previous rest, joinsWord previous = true → read? previous rest = none)
    (hprevious : joinsWord previous = true) (hword : ∀ c ∈ word, isWordChar c = true) :
    Clear read? word.length previous (word ++ rest) := by
  induction word generalizing previous with
  | nil => trivial
  | cons c word ih =>
      exact ⟨hread _ _ hprevious, ih (by simpa [joinsWord] using hword c (by simp))
        fun d hd => hword d (by simp [hd])⟩

theorem Clear.eq_none {front rest : List Char} {n : Nat} {previous : Option Char}
    (h : Clear read? n previous (front ++ rest)) (hn : front.length < n) (hrest : rest ≠ []) :
    read? (front.getLast?.or previous) rest = none := by
  induction front generalizing n previous with
  | nil =>
      cases n with
      | zero => simp at hn
      | succ n =>
          cases rest with
          | nil => exact absurd rfl hrest
          | cons c rest => exact h.1
  | cons c front ih =>
      cases n with
      | zero => simp at hn
      | succ n =>
          have hnext := ih h.2 (by simpa using hn)
          rw [List.getLast?_cons]
          cases hlast : front.getLast? <;> simpa [hlast] using hnext

theorem mapM_everywhere {β : Type} {query : List Char} {judge? : Match α → Option (Option β)}
    {find? : Site → Option β}
    (hnone : ∀ before row, cells query = before ++ row →
      read? (text before).getLast? (text row) = none →
      find? ⟨before.length, (text before).getLast?, row⟩ = none)
    (hsome : ∀ before row whole parts, cells query = before ++ row →
      read? (text before).getLast? (text row) = some (whole, parts) →
      judge? ⟨byteSize (text before), whole, parts⟩ =
        some (find? ⟨before.length, (text before).getLast?, row⟩))
    (before row : List Cell) (hcells : cells query = before ++ row) :
    ((everywhere read? (byteSize (text before)) (text before).getLast? (text row)).mapM judge?).map
        List.reduceOption =
      some ((sitesFrom before.length (text before).getLast? row).filterMap find?) := by
  induction row generalizing before with
  | nil => rfl
  | cons cell row ih =>
      have hnext := ih (before ++ [cell]) (by simp [hcells])
      simp only [text_append, text_cons, text_nil, List.getLast?_concat, byteSize_append,
        byteSize_cons, byteSize_nil, Nat.add_zero, List.length_append, List.length_singleton]
        at hnext
      obtain ⟨found, hfound, hreduce⟩ := Option.map_eq_some_iff.mp hnext
      rw [text_cons, everywhere, sitesFrom, ← text_cons, List.mapM_append]
      cases hread : read? (text before).getLast? (text (cell :: row)) with
      | none =>
          rw [List.filterMap_cons_none (hnone before _ hcells hread)]
          simp [hfound, hreduce]
      | some match' =>
          obtain ⟨whole, parts⟩ := match'
          have hjudge := hsome before _ whole parts hcells hread
          simp only [Option.map_some, Option.toList_some, List.mapM_cons, List.mapM_nil, hjudge,
            hfound]
          cases hfind : find? ⟨before.length, (text before).getLast?, cell :: row⟩ <;>
            simp [hfind, hreduce, List.reduceOption_cons_of_some, List.reduceOption_cons_of_none]

end Everywhere

end OpalRepair.Bytes
