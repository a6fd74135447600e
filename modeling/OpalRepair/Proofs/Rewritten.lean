import Mathlib
import OpalRepair.Proofs.Quoting.Rows
import OpalRepair.Proofs.Sorting.Key
import OpalRepair.Proofs.Sound
import OpalRepair.Proofs.Stagewise

/-!
# Rewritten fragments

Where a patch rewrites a fragment, and what the fragments of keys and of searches look like there.
Both are found by ASCII names, so that a character of another script can be the neighbour of a
fragment and part of the same word.

Main statement: `rewritten_in_words`.
-/

namespace OpalRepair

open Query Text

namespace Patch

/-- The patch puts `replacement` in the place of `found`, between `front` and `back`. -/
def Rewrites (patch : Patch) (front found replacement back : List Char) : Prop :=
  ∃ a b : Patch, patch = a ++ .change found replacement :: b ∧ a.before = front ∧ b.before = back

theorem Rewrites.mem {patch : Patch} {front found replacement back : List Char}
    (h : patch.Rewrites front found replacement back) : .change found replacement ∈ patch := by
  obtain ⟨a, b, rfl, -, -⟩ := h
  simp

theorem exists_rewrites {patch : Patch} {found replacement : List Char}
    (h : .change found replacement ∈ patch) :
    ∃ front back, patch.Rewrites front found replacement back := by
  obtain ⟨a, b, hpatch⟩ := List.append_of_mem h
  exact ⟨_, _, a, b, hpatch, rfl, rfl⟩

/-- The patch tells what an outcome has made of a query. -/
structure Explains (patch : Patch) (query : String) (outcome : Outcome) : Prop where
  before : patch.before = query.toList
  after : patch.after = outcome.query.toList
  changes : patch.changes = outcome.changes

theorem explains_ofPatch {patch : List Char → Patch} {query : String}
    (h : (patch query.toList).before = query.toList) (name rationale : String) (context : Context) :
    (patch query.toList).Explains query
      ((Pass.ofPatch name rationale patch).apply context query) where
  before := h
  after := (String.toList_ofList ..).symm
  changes := (Outcome.changes_ofChanges ..).symm

section Walk

variable {find? : Option Char → List Cell → Option Fragment} {found replacement : List Char}

theorem piece_eq_change {fragment : Fragment} {row : List Cell}
    (h : fragment.piece row = .change found replacement) :
    fragment.replacement = some replacement ∧ found = text (row.take (fragment.more + 1)) := by
  rw [Fragment.piece] at h
  cases hreplacement : fragment.replacement with
  | none => simp [hreplacement] at h
  | some other =>
      simp only [hreplacement, Piece.change.injEq] at h
      exact ⟨by rw [h.2], h.1.symm⟩

theorem exists_fragment_of_walk {skip : Nat} {previous : Option Char} {row : List Cell}
    {a b : Patch} (h : walk find? skip previous row = a ++ .change found replacement :: b) :
    ∃ front rest fragment, row = front ++ rest ∧ skip ≤ front.length ∧
      a.before = text (front.drop skip) ∧ b.before = text (rest.drop (fragment.more + 1)) ∧
      find? ((text front).getLast?.or previous) rest = some fragment ∧
      fragment.replacement = some replacement ∧ found = text (rest.take (fragment.more + 1)) := by
  induction row generalizing skip previous a with
  | nil => simp [walk] at h
  | cons cell row ih =>
      cases skip with
      | succ skip =>
          obtain ⟨front, rest, fragment, rfl, hskip, ha, hb, hfind, hfragment⟩ := ih h
          exact ⟨cell :: front, rest, fragment, rfl, by simpa using hskip, ha, hb,
            by rw [text_cons, getLast?_cons_or]; exact hfind, hfragment⟩
      | zero =>
          rw [walk] at h
          cases hfind : find? previous (cell :: row) with
          | none =>
              simp only [hfind] at h
              cases a with
              | nil => simp at h
              | cons piece a =>
                  obtain ⟨rfl, hrest⟩ := List.cons.inj h
                  obtain ⟨front, rest, fragment, rfl, -, ha, hb, hfind, hfragment⟩ := ih hrest
                  refine ⟨cell :: front, rest, fragment, rfl, Nat.zero_le _, ?_, hb,
                    by rw [text_cons, getLast?_cons_or]; exact hfind, hfragment⟩
                  simpa using ha
          | some fragment =>
              simp only [hfind] at h
              cases a with
              | nil =>
                  obtain ⟨hpiece, rfl⟩ := List.cons.inj h
                  exact ⟨[], cell :: row, fragment, rfl, Nat.zero_le _, rfl,
                    by rw [before_walk, List.drop_succ_cons], hfind, piece_eq_change hpiece⟩
              | cons piece a =>
                  -- What an earlier fragment covers lies in front of this one.
                  obtain ⟨rfl, hrest⟩ := List.cons.inj h
                  obtain ⟨front, rest, other, rfl, hmore, ha, hb, hfind, hfragment⟩ := ih hrest
                  refine ⟨cell :: front, rest, other, rfl, Nat.zero_le _, ?_, hb,
                    by rw [text_cons, getLast?_cons_or]; exact hfind, hfragment⟩
                  rw [before_cons, before_piece, ha, ← text_append, List.take_succ_cons,
                    List.take_append_of_le_length hmore, List.cons_append, List.take_append_drop]
                  rfl

theorem Rewrites.exists_fragment {row : List Cell} {front back : List Char}
    (h : (ofFragments find? row).Rewrites front found replacement back) :
    ∃ before rest fragment, row = before ++ rest ∧ text before = front ∧
      text (rest.drop (fragment.more + 1)) = back ∧
      find? front.getLast? rest = some fragment ∧
      fragment.replacement = some replacement ∧ found = text (rest.take (fragment.more + 1)) := by
  obtain ⟨a, b, hpatch, rfl, rfl⟩ := h
  obtain ⟨before, rest, fragment, hrow, -, ha, hb, hfind, hfragment⟩ :=
    exists_fragment_of_walk hpatch
  rw [List.drop_zero] at ha
  rw [Option.or_none, ← ha] at hfind
  exact ⟨before, rest, fragment, hrow, ha.symm, hb.symm, hfind, hfragment⟩

end Walk

end Patch

/-! ## Keys -/

theorem QuoteKey.of_rewrites {query front found replacement back : List Char}
    (h : (patch query).Rewrites front found replacement back) :
    ∃ parent key, found = parent ++ '.' :: key ∧ replacement = quoted parent key ∧
      IsAttribute parent key back ∧ joinsWord front.getLast? = false := by
  obtain ⟨before, rest, fragment, -, rfl, rfl, hfind, hreplacement, rfl⟩ := h.exists_fragment
  have hjoins : joinsWord (text before).getLast? = false := by
    by_contra hjoins
    simp [fragment?, Site.startsWord, hjoins] at hfind
  obtain ⟨part, behind, parent, key, rfl, hpart, hlength, hattribute, hreplaced⟩ :=
    fragment?_eq_some hfind
  refine ⟨parent, key, ?_, (hreplaced replacement hreplacement).1, ?_, hjoins⟩
  · rw [← hlength, List.take_left, hpart]
  · rwa [← hlength, List.drop_left]

/-! ## Searches -/

namespace ExpandTerms

/-- The form of a search for the terms of `content` in `field`. -/
structure IsSearch (field content found : List Char) : Prop where
  field_path : FieldPath field
  content_free : ∀ c ∈ content, c ≠ '<' ∧ c ≠ '>'
  spelled : ∃ gap blanks, Blanks gap ∧ Blanks blanks ∧
    found = field ++ gap ++ '~' :: blanks ++ '<' :: content ++ ['>']

theorem IsSearch.ends {field content found : List Char} (h : IsSearch field content found) :
    ∃ c part, found = c :: (part ++ ['>']) ∧ isNameChar c = true := by
  obtain ⟨hfield, -, gap, blanks, -, -, rfl⟩ := h
  obtain ⟨c, rest, rfl, hstart, -⟩ := hfield.head
  exact ⟨c, rest ++ gap ++ '~' :: blanks ++ '<' :: content, by simp,
    isNameChar_of_isNameStart hstart⟩

theorem ends_of_expand? {field replacement : List Char} {terms : List (List Char)}
    (h : expand? field terms = some replacement) :
    terms ≠ [] ∧ replacement = '(' :: (List.intercalate " or ".toList
      (terms.map (containsCall field)) ++ [')']) := by
  rw [expand?, Option.ite_none_left_eq_some, Option.some.injEq] at h
  obtain ⟨hlength, rfl⟩ := h
  refine ⟨?_, by simp⟩
  rintro rfl
  simp at hlength

/-- A fragment is a search.  It is replaced in code only and where no path goes on. -/
theorem fragment?_eq_some {previous : Option Char} {row : List Cell} {fragment : Fragment}
    (h : fragment? previous row = some fragment) :
    ∃ part rest field content, row = part ++ rest ∧ part.length = fragment.more + 1 ∧
      IsSearch field content (text part) ∧
      ∀ replacement ∈ fragment.replacement, expand? field (terms content) = some replacement ∧
        part.head?.any Cell.isLiteral = false ∧ previous.any QuoteKey.isPathChar = false := by
  rw [fragment?] at h
  split at h
  · simp at h
  · obtain ⟨search, hsearch, rfl⟩ := Option.map_eq_some_iff.mp h
    obtain ⟨gap, blanks, after, hgap, hblanks, hcontent, hfield, htext, hsize⟩ := search?_eq hsearch
    have hsplit : text row =
        (search.field ++ gap ++ '~' :: blanks ++ '<' :: search.terms ++ ['>']) ++ after := by
      rw [htext]
      simp
    obtain ⟨part, rest, rfl, hpart, rfl⟩ := row_of_text hsplit
    have hne : part ≠ [] := by
      rintro rfl
      simp at hpart
    have hlength : part.length = search.size := by
      simp only [text, List.length_map, List.length_append] at hsize
      omega
    refine ⟨part, rest, search.field, search.terms, rfl, ?_,
      ⟨fieldPath_of_path? hfield, hcontent, gap, blanks, hgap, hblanks, hpart⟩, ?_⟩
    · have := List.length_pos_iff.mpr hne
      simp only
      omega
    · intro replacement hreplacement
      simp only [Option.mem_def, Option.ite_none_left_eq_some, Bool.or_eq_true, not_or,
        Bool.not_eq_true] at hreplacement
      obtain ⟨⟨hliteral, hpath⟩, hexpand⟩ := hreplacement
      refine ⟨hexpand, ?_, hpath⟩
      rwa [Site.inLiteral, List.head?_append_of_ne_nil _ hne] at hliteral

theorem of_rewrites {query front found replacement back : List Char}
    (h : (patch query).Rewrites front found replacement back) :
    ∃ field content, IsSearch field content found ∧
      expand? field (terms content) = some replacement ∧
      front.getLast?.any QuoteKey.isPathChar = false := by
  obtain ⟨before, rest, fragment, -, rfl, rfl, hfind, hreplacement, rfl⟩ := h.exists_fragment
  obtain ⟨part, behind, field, content, rfl, hlength, hsearch, hreplaced⟩ := fragment?_eq_some hfind
  obtain ⟨hexpand, -, hpath⟩ := hreplaced replacement hreplacement
  exact ⟨field, content, by rwa [← hlength, List.take_left], hexpand, hpath⟩

end ExpandTerms

/-! ## Words around fragments -/

namespace Text

/-- The place between two texts has word characters on both sides. -/
def InsideWord (before after : List Char) : Prop :=
  (∃ c ∈ before.getLast?, isWordChar c = true) ∧ ∃ c ∈ after.head?, isWordChar c = true

def Foreign (c : Char) : Prop := isWordChar c = true ∧ 0x80 ≤ c.toNat

theorem isWordChar_iff_foreign {c : Char} (h : isNameChar c = false) :
    isWordChar c = true ↔ Foreign c := by
  refine ⟨fun hword => ⟨hword, ?_⟩, And.left⟩
  by_contra hsmall
  rw [isWordChar, if_pos (by omega), h] at hword
  simp at hword

end Text

theorem QuoteKey.insideWord_of_rewrites {query front found replacement back : List Char}
    (h : (patch query).Rewrites front found replacement back) :
    ¬ InsideWord front (found ++ back) ∧
      (InsideWord (front ++ found) back ↔ ∃ c ∈ back.head?, Foreign c) := by
  obtain ⟨parent, key, rfl, -, hattribute, hjoins⟩ := of_rewrites h
  obtain ⟨last, hlast, hname⟩ := hattribute.key_last
  constructor
  · rintro ⟨⟨c, hc, hword⟩, -⟩
    simp [joinsWord, Option.mem_def.mp hc, hword] at hjoins
  · have hend : (front ++ (parent ++ '.' :: key)).getLast? = some last := by
      rw [← List.append_assoc, List.getLast?_append_of_ne_nil _ (by simp), List.getLast?_cons,
        Option.mem_def.mp hlast, Option.getD_some]
    have hword : ∃ c ∈ (front ++ (parent ++ '.' :: key)).getLast?, isWordChar c = true :=
      ⟨last, hend, isWordChar_of_isNameChar hname⟩
    rw [InsideWord, and_iff_right hword]
    exact exists_congr fun c => and_congr_right fun hc =>
      isWordChar_iff_foreign (hattribute.stop c hc)

theorem ExpandTerms.insideWord_of_rewrites {query front found replacement back : List Char}
    (h : (patch query).Rewrites front found replacement back) :
    ¬ InsideWord (front ++ found) back ∧
      (InsideWord front (found ++ back) ↔ ∃ c ∈ front.getLast?, Foreign c) := by
  obtain ⟨field, content, ⟨hfield, -, gap, blanks, -, -, rfl⟩, -, hpath⟩ := of_rewrites h
  obtain ⟨first, rest, rfl, hstart, -⟩ := hfield.head
  constructor
  · rintro ⟨⟨c, hc, hword⟩, -⟩
    obtain rfl : '>' = c := by
      rw [← List.append_assoc, List.getLast?_concat] at hc
      exact Option.some.inj hc
    exact absurd hword (by decide)
  · have hword : ∃ c ∈ (first :: rest ++ gap ++ '~' :: blanks ++ '<' :: content ++ ['>'] ++
        back).head?, isWordChar c = true :=
      ⟨first, rfl, isWordChar_of_isNameChar (isNameChar_of_isNameStart hstart)⟩
    rw [InsideWord, and_iff_left hword]
    refine exists_congr fun c => and_congr_right fun hc => isWordChar_iff_foreign ?_
    rw [Option.mem_def.mp hc, Option.any_some, QuoteKey.isPathChar, Bool.or_eq_false_iff] at hpath
    exact hpath.1

/-- A key that is quoted never starts inside a word, and it ends inside one exactly if a word
character of another script follows.  A search that is expanded never ends inside a word, and it
starts inside one exactly if such a character precedes. -/
theorem rewritten_in_words (context : Context) (query : String) :
    let keys := QuoteKey.patch query.toList
    let searches := ExpandTerms.patch query.toList
    keys.Explains query (quoteKey.apply context query) ∧
      searches.Explains query (expandTerms.apply context query) ∧
      (∀ front found replacement back, keys.Rewrites front found replacement back →
        ¬ InsideWord front (found ++ back) ∧
          (InsideWord (front ++ found) back ↔ ∃ c ∈ back.head?, Foreign c)) ∧
      ∀ front found replacement back, searches.Rewrites front found replacement back →
        ¬ InsideWord (front ++ found) back ∧
          (InsideWord front (found ++ back) ↔ ∃ c ∈ front.getLast?, Foreign c) :=
  ⟨Patch.explains_ofPatch (QuoteKey.before_patch _) _ _ context,
    Patch.explains_ofPatch (ExpandTerms.before_patch _) _ _ context,
    fun _ _ _ _ h => QuoteKey.insideWord_of_rewrites h,
    fun _ _ _ _ h => ExpandTerms.insideWord_of_rewrites h⟩

/-- The words `typé` and `éa` are cut. -/
theorem rewritten_in_words_accent :
    let query := "filter labels.os.typé = éa ~ <x y>".toList
    (QuoteKey.patch query).Rewrites "filter ".toList "labels.os.typ".toList
        "labels.\"os.typ\"".toList "é = éa ~ <x y>".toList ∧
      InsideWord ("filter ".toList ++ "labels.os.typ".toList) "é = éa ~ <x y>".toList ∧
      (ExpandTerms.patch query).Rewrites "filter labels.os.typé = é".toList "a ~ <x y>".toList
        "(contains(a, \"x\") or contains(a, \"y\"))".toList [] ∧
      InsideWord "filter labels.os.typé = é".toList ("a ~ <x y>".toList ++ []) := by
  intro query
  refine ⟨⟨(QuoteKey.patch query).take 7, (QuoteKey.patch query).drop 8, ?_, ?_, ?_⟩,
    ⟨⟨'p', rfl, ?_⟩, 'é', rfl, ?_⟩,
    ⟨(ExpandTerms.patch query).take 25, (ExpandTerms.patch query).drop 26, ?_, ?_, ?_⟩,
    ⟨'é', rfl, ?_⟩, 'a', rfl, ?_⟩ <;> decide

end OpalRepair
