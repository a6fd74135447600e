import Mathlib
import OpalRepair.Proofs.Quoting.Rows
import OpalRepair.Proofs.Sound

/-!
# Quoting once is enough

In a row with quoted keys nothing is left to quote.  Behind a column and a dot now stands a quote,
keys are inside literals, and everything else is found as it was found before: what is read at a
place ends at the first character that belongs to no path, and no attribute that goes on with a path
was quoted.

Main statement: `quoteKey_silent_again`.
-/

namespace OpalRepair

open Query Text

namespace QuoteKey

open Patch

/-! ## What is found in the new row -/

theorem attribute?_congr {text text' : List Char}
    (h : text.takeWhile isPathChar = text'.takeWhile isPathChar) :
    attribute? text = attribute? text' := by
  have hrun (text : List Char) : attribute? text = attribute? (text.takeWhile isPathChar) := by
    conv_lhs => rw [← List.takeWhile_append_dropWhile (p := isPathChar) (l := text)]
    cases hrest : text.dropWhile isPathChar with
    | nil => rw [List.append_nil]
    | cons d back =>
        have hd : isPathChar d = false := by
          have := List.head_dropWhile_not isPathChar (l := text) (by simp [hrest])
          simpa [hrest] using this
        obtain ⟨hname, hdot⟩ : isNameChar d = false ∧ d ≠ '.' := by simpa [isPathChar] using hd
        exact attribute?_stop hname hdot _ back
  rw [hrun text, hrun text', h]

theorem attribute?_eq_none_of_head {text : List Char} (h : ∀ c ∈ text.head?, isNameChar c = false) :
    attribute? text = none := by
  have hrun : text.takeWhile isNameChar = [] := by
    cases text with
    | nil => rfl
    | cons c text => simpa using h c rfl
  rw [attribute?, hrun]
  rfl

theorem attribute?_quoted {name : List Char} (hname : ∀ c ∈ name, isNameChar c = true)
    (rest : List Char) : attribute? (name ++ '.' :: '"' :: rest) = none := by
  have hrun : (name ++ '.' :: '"' :: rest).takeWhile isNameChar = name := by
    rw [takeWhile_stop (by decide), List.takeWhile_eq_self_iff.mpr hname]
  have hfamily : ('"' :: rest).takeWhile isNameChar = [] := rfl
  simp only [attribute?, hrun, List.drop_left, hfamily]
  split
  · rfl
  · rfl

namespace IsAttribute

variable {parent key rest : List Char}

theorem head?_append (h : IsAttribute parent key rest) (behind : List Char) :
    ∃ c ∈ (parent ++ behind).head?, isNameChar c = true := by
  obtain ⟨c, parent, rfl⟩ := List.exists_cons_of_ne_nil h.parent_ne
  exact ⟨c, rfl, h.parent_name c (by simp)⟩

theorem head?_trimStart (h : IsAttribute parent key rest) (behind : List Char) :
    (trimStart (parent ++ behind)).head? = parent.head? := by
  obtain ⟨c, parent, rfl⟩ := List.exists_cons_of_ne_nil h.parent_ne
  have hblank := (solid_of_isNameChar (h.parent_name c (by simp))).2.1
  simp [trimStart, hblank]

end IsAttribute

namespace Quotes

variable {previous : Option Char} {row new : List Cell} {patch : Patch}

theorem head_eq (h : Quotes previous row patch new) :
    (trimStart (text row)).head? = (trimStart (text new)).head? := by
  induction h with
  | nil => rfl
  | @pass _ cell _ _ _ _ _ ih =>
      rw [text_cons, text_cons, trimStart, trimStart, List.dropWhile_cons, List.dropWhile_cons]
      split
      · exact ih
      · rfl
  | leave hpart hattribute =>
      rw [text_append, text_append, hpart, List.append_assoc, List.append_assoc,
        hattribute.head?_trimStart, hattribute.head?_trimStart]
  | quote hpart hattribute =>
      rw [text_append, text_append, hpart, text_quotedRow, quoted]
      simp only [List.append_assoc]
      rw [hattribute.head?_trimStart, hattribute.head?_trimStart]

theorem isSome_skipTo? (h : Quotes previous row patch new) (c : Char) :
    (skipTo? c (text row)).isSome = (skipTo? c (text new)).isSome := by
  have hhead (text : List Char) :
      (skipTo? c text).isSome = ((trimStart text).head? == some c) := by
    rw [skipTo?]
    cases trimStart text with
    | nil => rfl
    | cons d rest =>
        dsimp only
        split <;> simp_all
  rw [hhead, hhead, h.head_eq]

theorem run_append {part : List Cell} (hne : part ≠ [])
    (h : (text part).getLast?.any isPathChar = true →
      (text row).takeWhile isPathChar = (text new).takeWhile isPathChar) :
    (text (part ++ row)).takeWhile isPathChar = (text (part ++ new)).takeWhile isPathChar := by
  rw [text_append, text_append, List.takeWhile_append, List.takeWhile_append]
  split
  · rename_i hall
    have hne : text part ≠ [] := by simpa [text] using hne
    have hpath := List.takeWhile_eq_self_iff.mp
      ((List.takeWhile_prefix isPathChar).eq_of_length hall)
    rw [h]
    rw [List.getLast?_eq_some_getLast hne]
    exact hpath _ (List.getLast_mem hne)
  · rfl

/-- Where a path goes on, it goes on alike: no attribute in it is quoted. -/
theorem run_eq (h : Quotes previous row patch new) (hprevious : previous.any isPathChar = true) :
    (text row).takeWhile isPathChar = (text new).takeWhile isPathChar := by
  induction h with
  | nil => rfl
  | @pass _ cell _ _ _ _ _ ih => exact run_append (List.cons_ne_nil cell []) ih
  | leave hpart _ _ _ _ ih => exact run_append (by rintro rfl; simp at hpart) ih
  | quote _ _ _ hpath _ _ => simp [hpath] at hprevious

theorem attribute?_append {part : List Cell} (hne : part ≠ [])
    (h : Quotes (text part).getLast? row patch new) :
    attribute? (text (part ++ row)) = attribute? (text (part ++ new)) :=
  attribute?_congr (run_append hne h.run_eq)

end Quotes

/-! ## The second walk -/

theorem fragment?_eq_none_iff {previous : Option Char} {row : List Cell} :
    fragment? previous row = none ↔ joinsWord previous = true ∨ attribute? (text row) = none := by
  rw [fragment?]
  cases hword : joinsWord previous <;> simp [Site.startsWord, hword]

theorem more_of_fragment? {previous : Option Char} {row : List Cell} {fragment : Fragment}
    {parent key : List Char} (h : fragment? previous row = some fragment)
    (hfound : attribute? (text row) = some (parent, key)) :
    fragment.more = parent.length + key.length := by
  simp only [fragment?, hfound] at h
  split at h
  · simp at h
  · rw [← Option.some.inj h]

theorem changes_quotedRow {parent key : List Char} (hparent : ∀ c ∈ parent, isNameChar c = true)
    (previous : Option Char) (new : List Cell) :
    changes (walk fragment? 0 previous (quotedRow parent key ++ new)) =
      changes (walk fragment? 0 (some '"') new) := by
  have hclear : Clear fragment? (literalRow .double key ++ new) previous
      (codeRow (parent ++ ['.'])) := by
    refine clear_of_read fragment?_eq_none (fun n hn => ?_) previous
    have hn : n ≤ parent.length := by simpa [codeRow, Nat.lt_succ_iff] using hn
    have htext : (text (codeRow (parent ++ ['.']))).drop n ++ text (literalRow .double key ++ new) =
        parent.drop n ++ '.' :: '"' :: (key ++ '"' :: text new) := by
      rw [text_codeRow, List.drop_append_of_le_length hn]
      simp [Literal.delimiter]
    rw [htext]
    exact attribute?_quoted (fun c hc => hparent c (List.mem_of_mem_drop hc)) _
  have hliteral : literalRow .double key ++ new = ⟨'"', .opening⟩ ::
      (contentRow key ++ ⟨'"', .closing⟩ :: new) := by
    simp [literalRow, Literal.delimiter]
  rw [quotedRow, List.append_assoc, walk_clear hclear, changes_append, changes_keepAll, hliteral,
    walk_delimiter .double rfl, changes_keep, walk_stop (stops_delimiter .double rfl _) _ _
      (Nat.zero_le _), changes_append, changes_walk_literal fun _ => isLiteral_contentRow,
    walk_delimiter .double rfl]
  rfl

/-- The second walk changes nothing.  Behind a quoted key it comes from a quote and not from a name,
but there no attribute starts. -/
theorem Quotes.silent {previous : Option Char} {row new : List Cell} {patch : Patch}
    (h : Quotes previous row patch new) {before : Option Char}
    (hbefore : before = previous ∨ ∀ c ∈ (text row).head?, isNameChar c = false) :
    changes (walk fragment? 0 before new) = [] := by
  induction h generalizing before with
  | nil => rfl
  | @pass previous cell row patch new hfind hrest ih =>
      have hnone : fragment? before (cell :: new) = none := by
        rcases hbefore with rfl | hhead
        · have hattribute := attribute?_append (List.cons_ne_nil cell []) hrest
          rw [List.singleton_append, List.singleton_append] at hattribute
          rw [fragment?_eq_none_iff] at hfind ⊢
          rwa [← hattribute]
        · refine fragment?_eq_none _ _ (attribute?_eq_none_of_head ?_)
          simpa using hhead
      rw [walk, hnone]
      exact ih (.inl rfl)
  | @leave previous part row patch new parent key more hpart hattribute hlength hfind hrest ih =>
      obtain rfl : before = previous := by
        refine hbefore.resolve_right fun hhead => ?_
        obtain ⟨c, hc, hname⟩ := hattribute.head?_append ('.' :: key ++ text row)
        rw [text_append, hpart, List.append_assoc] at hhead
        simp [hhead c hc] at hname
      have hne : part ≠ [] := by rintro rfl; simp at hpart
      have hagain : fragment? before (part ++ new) = some ⟨more, none⟩ := by
        rw [← hfind]
        refine (fragment?_congr ?_ (attribute?_append hne hrest) fun parent' key' hfound => ?_).symm
        · rw [List.head?_append_of_ne_nil _ hne, List.head?_append_of_ne_nil _ hne]
        · rw [← more_of_fragment? hfind hfound, ← hlength, List.drop_left, List.drop_left]
          exact hrest.isSome_skipTo? '('
      rw [walk_found hagain hlength]
      exact ih (.inl rfl)
  | @quote previous part row patch new parent key hpart hattribute hcode hpath hrest ih =>
      rw [changes_quotedRow hattribute.parent_name]
      exact ih (.inr hattribute.stop)

theorem changes_patch_again (query : List Char) : changes (patch (patch query).after) = [] := by
  obtain ⟨new, hnew, hcells, -⟩ := cells_after_patch query
  rw [patch, hcells]
  exact hnew.silent (.inl rfl)

end QuoteKey

/-- Quoting the keys of a query that has been through it reports nothing and changes nothing. -/
theorem quoteKey_silent_again (context context' : Context) (query : String) :
    quoteKey.apply context' (quoteKey.apply context query).query =
      .unchanged (quoteKey.apply context query).query := by
  have hagain := QuoteKey.changes_patch_again query.toList
  simp [quoteKey, Pass.ofPatch, Outcome.ofChanges, Outcome.unchanged, hagain,
    Patch.after_eq_before hagain, QuoteKey.before_patch]

end OpalRepair
