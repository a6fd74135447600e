import Mathlib
import OpalRepair.Proofs.Clause.Fragment
import OpalRepair.Proofs.Template.Basic

/-!
# Attributes around a literal

An attribute ends in front of the delimiter of a literal, and inside a literal none is quoted.
-/

namespace OpalRepair

open Query Text

namespace QuoteKey

open Patch

/-! ## Attributes -/

variable {d : Char}

theorem dotted_stop (hname : isNameChar d = false) (hdot : d ≠ '.') (front back : List Char) :
    dotted (front ++ d :: back) = dotted front := by
  induction front with
  | nil => simp [dotted, hname, hdot]
  | cons c front ih =>
      have hhead : (front ++ d :: back).head?.any isNameChar = front.head?.any isNameChar := by
        cases front <;> simp [hname]
      rw [List.cons_append, dotted, dotted, hhead, ih]

theorem attribute?_stop (hname : isNameChar d = false) (hdot : d ≠ '.') (front back : List Char) :
    attribute? (front ++ d :: back) = attribute? front := by
  have hdrop (text : List Char) :
      (text ++ d :: back).drop ((text ++ d :: back).takeWhile isNameChar).length =
        text.drop (text.takeWhile isNameChar).length ++ d :: back := by
    rw [takeWhile_stop hname, List.drop_append_of_le_length (List.takeWhile_prefix _).length_le]
  simp only [attribute?, takeWhile_stop hname]
  split
  · rfl
  · rw [← takeWhile_stop hname front back, hdrop, takeWhile_stop hname]
    cases front.drop (front.takeWhile isNameChar).length with
    | nil => simp [hdot]
    | cons c rest =>
        by_cases hc : c = '.'
        · subst hc
          simp only [List.cons_append]
          rw [← takeWhile_stop hname rest back, hdrop, dotted_stop hname hdot, takeWhile_stop hname]
        · simp [hc]

theorem length_attribute? {row : List Cell} {parent key : List Char}
    (h : attribute? (text row) = some (parent, key)) : parent.length + key.length + 1 ≤ row.length := by
  obtain ⟨rest, hrest, -⟩ := attribute?_eq h
  have hlength := congrArg List.length hrest
  simp [text] at hlength
  omega

def Stops (behind : List Char) : Prop :=
  (∀ c ∈ behind.head?, isNameChar c = false ∧ c ≠ '.') ∧ skipTo? '(' behind = none

theorem stops_delimiter (kind : Literal) {cell : Cell} (hcell : cell.char = kind.delimiter)
    (rest : List Cell) : Stops (text (cell :: rest)) := by
  obtain ⟨hname, hdot, hblank, hparen⟩ : isNameChar cell.char = false ∧ cell.char ≠ '.' ∧
      isBlank cell.char = false ∧ cell.char ≠ '(' := by
    rw [hcell]
    cases kind <;> decide
  refine ⟨by simpa using ⟨hname, hdot⟩, ?_⟩
  rw [text_cons, Word.skipTo?_cons_other hblank, if_neg hparen]

theorem fragment?_congr {previous : Option Char} {row row' : List Cell}
    (hhead : row.head? = row'.head?)
    (hattribute : attribute? (text row) = attribute? (text row'))
    (hcalled : ∀ parent key, attribute? (text row) = some (parent, key) →
      (skipTo? '(' (text (row.drop (parent.length + key.length + 1)))).isSome =
        (skipTo? '(' (text (row'.drop (parent.length + key.length + 1)))).isSome) :
    fragment? previous row = fragment? previous row' := by
  simp only [fragment?, Site.startsWord, Site.inLiteral, Site.continuesPath, ← hattribute, hhead]
  refine ite_congr rfl (fun _ => rfl) fun _ => ?_
  cases hfound : attribute? (text row) with
  | none => rfl
  | some found =>
      obtain ⟨parent, key⟩ := found
      simp only [Option.map_some, hcalled parent key hfound]
      congr

theorem fragment?_stop {behind : List Cell} (hbehind : Stops (text behind)) (previous : Option Char)
    (first : Cell) (front : List Cell) :
    fragment? previous (first :: front ++ behind) = fragment? previous (first :: front) := by
  have hattribute : attribute? (text (first :: front ++ behind)) =
      attribute? (text (first :: front)) := by
    rw [text_append]
    cases hrest : text behind with
    | nil => rw [List.append_nil]
    | cons d back =>
        obtain ⟨hname, hdot⟩ := hbehind.1 d (by simp [hrest])
        exact attribute?_stop hname hdot _ back
  refine fragment?_congr rfl hattribute fun parent key hfound => ?_
  rw [hattribute] at hfound
  rw [List.drop_append_of_le_length (length_attribute? hfound), text_append,
    AlignMetric.skipTo?_append hbehind.2, Option.isSome_map]

theorem more_lt_of_fragment? {previous : Option Char} {row : List Cell} {fragment : Fragment}
    (h : fragment? previous row = some fragment) : fragment.more < row.length := by
  simp only [fragment?] at h
  split at h
  · simp at h
  · obtain ⟨⟨parent, key⟩, hfound, rfl⟩ := Option.map_eq_some_iff.mp h
    exact length_attribute? hfound

/-! ## Walking past a literal -/

theorem walk_stop {behind : List Cell} (hbehind : Stops (text behind)) (front : List Cell)
    (previous : Option Char) {skip : Nat} (hskip : skip ≤ front.length) :
    walk fragment? skip previous (front ++ behind) =
      walk fragment? skip previous front ++
        walk fragment? 0 ((text front).getLast?.or previous) behind := by
  induction front generalizing skip previous with
  | nil =>
      obtain rfl : skip = 0 := by simpa using hskip
      rfl
  | cons first front ih =>
      rw [← getLast?_or_some first front previous]
      cases skip with
      | succ skip => exact ih _ (Nat.le_of_succ_le_succ hskip)
      | zero =>
          rw [List.cons_append, walk, walk, ← List.cons_append,
            fragment?_stop hbehind previous first front]
          cases hfound : fragment? previous (first :: front) with
          | none =>
              dsimp only
              rw [ih _ (Nat.zero_le _)]
              rfl
          | some fragment =>
              have hmore := more_lt_of_fragment? hfound
              have hpiece : fragment.piece (first :: front ++ behind) =
                  fragment.piece (first :: front) := by
                rw [Fragment.piece, Fragment.piece, List.take_append_of_le_length hmore]
              dsimp only
              rw [ih _ (Nat.le_of_lt_succ hmore), hpiece]
              rfl

theorem walk_delimiter (kind : Literal) {cell : Cell} (hcell : cell.char = kind.delimiter)
    (previous : Option Char) (rest : List Cell) :
    walk fragment? 0 previous (cell :: rest) =
      .keep [cell.char] :: walk fragment? 0 (some cell.char) rest := by
  have hnone : attribute? (text (cell :: rest)) = none := by
    have hname : isNameChar cell.char = false := by
      rw [hcell]
      cases kind <;> decide
    have hrun : (text (cell :: rest)).takeWhile isNameChar = [] := by simp [hname]
    simp only [attribute?, hrun]
    rw [if_pos (by decide)]
  have hfragment : fragment? previous (cell :: rest) = none := by
    simp only [fragment?, hnone]
    split <;> rfl
  rw [walk, hfragment]

theorem changes_walk_literal {row : List Cell} (hrow : ∀ cell ∈ row, cell.isLiteral = true)
    (skip : Nat) (previous : Option Char) : (walk fragment? skip previous row).changes = [] := by
  induction row generalizing skip previous with
  | nil => cases skip <;> rfl
  | cons cell row ih =>
      have hrest := fun skip previous => ih (fun other hother => hrow other (by simp [hother])) skip previous
      cases skip with
      | succ skip => exact hrest skip _
      | zero =>
          have hkept : ∀ fragment, fragment? previous (cell :: row) = some fragment →
              fragment.replacement = none := by
            intro fragment hfragment
            simp only [fragment?] at hfragment
            split at hfragment
            · simp at hfragment
            · obtain ⟨found, -, rfl⟩ := Option.map_eq_some_iff.mp hfragment
              simp [Site.inLiteral, hrow cell (by simp)]
          rw [walk]
          cases hfound : fragment? previous (cell :: row) with
          | none => exact hrest 0 _
          | some fragment =>
              have hpiece : fragment.piece (cell :: row) =
                  .keep (text ((cell :: row).take (fragment.more + 1))) := by
                rw [Fragment.piece, hkept fragment hfound]
              dsimp only
              rw [hpiece]
              exact hrest _ _

theorem patterned_ofFragments (kind : Literal) (front behind : List Cell) :
    Patterned (fun _ => True) fun content =>
      ofFragments fragment? (front ++ literalRow kind content ++ behind) := by
  have hwalk (content : List Char) :
      ofFragments fragment? (front ++ literalRow kind content ++ behind) =
        walk fragment? 0 none front ++ ([.keep [kind.delimiter]] ++
          (walk fragment? 0 (some kind.delimiter) (contentRow content) ++
            ([.keep [kind.delimiter]] ++ walk fragment? 0 (some kind.delimiter) behind))) := by
    have hrow : front ++ literalRow kind content ++ behind = front ++ ⟨kind.delimiter, .opening⟩ ::
        (contentRow content ++ ⟨kind.delimiter, .closing⟩ :: behind) := by
      simp [literalRow]
    rw [ofFragments, hrow, walk_stop (stops_delimiter kind rfl _) front _ (Nat.zero_le _),
      walk_delimiter kind rfl, walk_stop (stops_delimiter kind rfl _) (contentRow content) _
        (Nat.zero_le _), walk_delimiter kind rfl]
    rfl
  have hcontent : Patterned (fun _ => True) fun content =>
      walk fragment? 0 (some kind.delimiter) (contentRow content) := by
    refine .quiet [none] fun content _ => ⟨?_, changes_walk_literal (fun _ => isLiteral_contentRow) _ _⟩
    rw [before_walk]
    simp
  simp only [hwalk]
  exact (Patterned.const _).append ((Patterned.const _).append
    (hcontent.append ((Patterned.const _).append (Patterned.const _))))

end QuoteKey

end OpalRepair
