import Mathlib
import OpalRepair.Proofs.Rescan
import OpalRepair.Proofs.Template.Fragment

/-!
# Rows with quoted keys

Quoting goes over a row from attribute to attribute.  An attribute in code becomes its column, a dot
and a string; all other cells stay.  The relation `Quotes` follows the pass and names the new row,
and the scanner reads the new row out of the new text.

Main statement: `cells_after_patch`.
-/

namespace OpalRepair

open Query Text

namespace QuoteKey

open Patch Scanner

/-! ## Attributes -/

def quoted (parent key : List Char) : List Char := parent ++ ".\"".toList ++ key ++ ['"']

def quotedRow (parent key : List Char) : List Cell :=
  codeRow (parent ++ ['.']) ++ literalRow .double key

theorem text_quotedRow (parent key : List Char) :
    text (quotedRow parent key) = quoted parent key := by
  simp [quotedRow, quoted, Literal.delimiter]

theorem takeWhile_quoted (parent key rest rest' : List Char) :
    (parent ++ '.' :: key ++ rest).takeWhile isNameChar =
      (quoted parent key ++ rest').takeWhile isNameChar := by
  rw [quoted]
  simp only [List.append_assoc, List.cons_append]
  rw [takeWhile_stop (by decide)]
  exact (takeWhile_stop (by decide) _ _).symm

/-- A fragment is an attribute.  It is replaced in code only and where no path goes on. -/
theorem fragment?_eq_some {previous : Option Char} {row : List Cell} {fragment : Fragment}
    (h : fragment? previous row = some fragment) :
    ∃ part rest parent key, row = part ++ rest ∧ text part = parent ++ '.' :: key ∧
      part.length = fragment.more + 1 ∧ IsAttribute parent key (text rest) ∧
      ∀ replacement ∈ fragment.replacement, replacement = quoted parent key ∧
        part.head?.any Cell.isLiteral = false ∧ previous.any isPathChar = false := by
  simp only [fragment?] at h
  split at h
  · simp at h
  · obtain ⟨⟨parent, key⟩, hfound, rfl⟩ := Option.map_eq_some_iff.mp h
    obtain ⟨behind, htext, hattribute⟩ := attribute?_eq hfound
    obtain ⟨part, rest, rfl, hpart, rfl⟩ := row_of_text htext
    have hlength : part.length = parent.length + key.length + 1 := by
      have := congrArg List.length hpart
      simp only [text, List.length_map, List.length_append, List.length_cons] at this
      omega
    obtain ⟨first, more, rfl⟩ := List.exists_cons_of_length_eq_add_one hlength
    refine ⟨first :: more, rest, parent, key, rfl, hpart, hlength, hattribute, ?_⟩
    intro replacement hreplacement
    simp only [Option.mem_def, Option.ite_none_left_eq_some, Option.some.injEq, Bool.or_eq_true,
      not_or, Bool.not_eq_true] at hreplacement
    obtain ⟨⟨⟨hliteral, hpath⟩, -⟩, rfl⟩ := hreplacement
    exact ⟨rfl, hliteral, hpath⟩

/-! ## Following the pass -/

/-- What quoting makes of a row that `previous` precedes.  The patch keeps a cell at which nothing
is found, keeps an attribute that is left alone, or quotes the key of an attribute. -/
inductive Quotes : Option Char → List Cell → Patch → List Cell → Prop
  | nil {previous} : Quotes previous [] [] []
  | pass {previous cell row patch new} (hfind : fragment? previous (cell :: row) = none)
      (hrest : Quotes (some cell.char) row patch new) :
      Quotes previous (cell :: row) (.keep [cell.char] :: patch) (cell :: new)
  | leave {previous part row patch new parent key more} (hpart : text part = parent ++ '.' :: key)
      (hattribute : IsAttribute parent key (text row)) (hlength : part.length = more + 1)
      (hfind : fragment? previous (part ++ row) = some ⟨more, none⟩)
      (hrest : Quotes (text part).getLast? row patch new) :
      Quotes previous (part ++ row) (.keep (text part) :: patch) (part ++ new)
  | quote {previous part row patch new parent key} (hpart : text part = parent ++ '.' :: key)
      (hattribute : IsAttribute parent key (text row))
      (hcode : part.head?.any Cell.isLiteral = false) (hpath : previous.any isPathChar = false)
      (hrest : Quotes (text part).getLast? row patch new) :
      Quotes previous (part ++ row) (.change (text part) (quoted parent key) :: patch)
        (quotedRow parent key ++ new)

theorem exists_quotes (previous : Option Char) (row : List Cell) :
    ∃ new, Quotes previous row (walk fragment? 0 previous row) new := by
  refine walk_induction (motive := fun previous row patch => ∃ new, Quotes previous row patch new)
    (fun previous row fragment hfind => ?_) (fun _ => ⟨[], .nil⟩)
    (fun previous cell row hfind ⟨new, hnew⟩ => ⟨cell :: new, .pass hfind hnew⟩)
    (fun previous part row fragment hfind hlength ⟨new, hnew⟩ => ?_) previous row
  · obtain ⟨part, rest, parent, key, rfl, -, hlength, -⟩ := fragment?_eq_some hfind
    rw [List.length_append]
    omega
  · obtain ⟨other, rest, parent, key, hrow, hpart, hother, hattribute, hreplaced⟩ :=
      fragment?_eq_some hfind
    obtain ⟨rfl, rfl⟩ := List.append_inj hrow (hlength.trans hother.symm)
    have htake : part.take (fragment.more + 1) = part := by rw [← hlength, List.take_length]
    obtain ⟨more, replacement⟩ := fragment
    cases replacement with
    | none =>
        rw [Fragment.piece, htake]
        exact ⟨part ++ new, .leave hpart hattribute hlength hfind hnew⟩
    | some replacement =>
        obtain ⟨rfl, hcode, hpath⟩ := hreplaced replacement rfl
        rw [Fragment.piece, htake]
        exact ⟨quotedRow parent key ++ new, .quote hpart hattribute hcode hpath hnew⟩

namespace Quotes

variable {previous : Option Char} {row new : List Cell} {patch : Patch}

theorem before_patch (h : Quotes previous row patch new) : patch.before = text row := by
  induction h with
  | nil => rfl
  | pass _ _ ih => simp [ih]
  | leave _ _ _ _ _ ih => simp [ih]
  | quote _ _ _ _ _ ih => simp [ih]

theorem after_patch (h : Quotes previous row patch new) : patch.after = text new := by
  induction h with
  | nil => rfl
  | pass _ _ ih => simp [ih]
  | leave _ _ _ _ _ ih => simp [ih]
  | quote _ _ _ _ _ ih => simp [ih, text_quotedRow]

theorem name_eq (h : Quotes previous row patch new) :
    (text row).takeWhile isNameChar = (text new).takeWhile isNameChar := by
  induction h with
  | nil => rfl
  | pass _ _ ih => simp only [text_cons, List.takeWhile_cons, ih]
  | leave _ _ _ _ _ ih =>
      rw [text_append, text_append]
      exact takeWhile_append_congr ih _
  | quote hpart _ _ _ _ _ =>
      rw [text_append, text_append, hpart, text_quotedRow]
      exact takeWhile_quoted ..

end Quotes

/-! ## Scanning the new row -/

theorem solid_of_isPathChar {c : Char} (h : isPathChar c = true) : Solid c := by
  rcases Bool.or_eq_true_iff.mp h with hname | hdot
  · exact solid_of_isNameChar hname
  · rw [beq_iff_eq.mp hdot]
    decide

namespace IsAttribute

variable {parent key rest : List Char} {s : Scanner}

theorem path (h : IsAttribute parent key rest) :
    ∀ c ∈ parent ++ '.' :: key, isPathChar c = true := by
  intro c hc
  rw [List.mem_append, List.mem_cons] at hc
  rcases hc with hc | rfl | hc
  · simp [isPathChar, h.parent_name c hc]
  · rfl
  · exact h.key_path c hc

theorem solid (h : IsAttribute parent key rest) : ∀ c ∈ parent ++ '.' :: key, Solid c :=
  fun c hc => solid_of_isPathChar (h.path c hc)

theorem read (h : IsAttribute parent key rest) (hs : s.mode = .code) (behind : List Char) :
    ∃ last, opensRegex last = false ∧
      s.paint (parent ++ '.' :: key ++ behind) =
        codeRow (parent ++ '.' :: key) ++ (atCode last).paint behind ∧
      s.finish (parent ++ '.' :: key ++ behind) = (atCode last).finish behind := by
  obtain ⟨c, hlast, hc⟩ := h.key_last
  obtain ⟨front, rfl⟩ := List.getLast?_eq_some_iff.mp hlast
  have hread := read_solid h.solid (by simp) hs behind
  have hlast : (parent ++ '.' :: (front ++ [c])).getLast? = some c := by
    rw [← List.cons_append, ← List.append_assoc, List.getLast?_concat]
  rw [hlast] at hread
  have hregex : opensRegex (([] : List Char).foldl significant (some c)) = false :=
    opensRegex_of_name hc (by simp)
  exact ⟨some c, hregex, hread⟩

theorem read_quoted (h : IsAttribute parent key rest) (hs : s.mode = .code) (behind : List Char) :
    s.paint (quoted parent key ++ behind) =
        quotedRow parent key ++ (atCode (some '"')).paint behind ∧
      s.finish (quoted parent key ++ behind) = (atCode (some '"')).finish behind := by
  have htext : quoted parent key ++ behind =
      (parent ++ ['.']) ++ '"' :: (key ++ '"' :: behind) := by
    simp [quoted]
  have hfront : ∀ c ∈ parent ++ ['.'], Solid c := fun c hc => h.solid c (by
    rw [List.mem_append, List.mem_singleton] at hc
    rcases hc with hc | rfl <;> simp [*])
  have hkey : ∀ c ∈ key, Plain c := fun c hc => (solid_of_isPathChar (h.key_path c hc)).1
  obtain ⟨hpaint, hfinish⟩ := read_solid hfront (by simp) hs ('"' :: (key ++ '"' :: behind))
  have hopened : Literal.openedBy? (some '.') Literal.double.delimiter = some .double := rfl
  obtain ⟨hliteral, hclosed⟩ := read_literal hopened
    (fun hback => (hkey _ hback).2.2.2 rfl) (fun hquote => (hkey _ hquote).1 rfl) behind
  rw [List.getLast?_concat] at hpaint hfinish
  rw [htext, hpaint, hfinish, quotedRow, List.append_assoc]
  exact ⟨congrArg _ hliteral, hclosed⟩

end IsAttribute

theorem Quotes.reads {previous : Option Char} {row new : List Cell} {patch : Patch}
    (h : Quotes previous row patch new) {s t : Scanner} (hs : s.Paints row) (halike : s.Alike t) :
    t.Paints new ∧ (s.finish (text row)).Alike (t.finish (text new)) := by
  induction h generalizing s t with
  | nil => exact ⟨rfl, halike⟩
  | @pass _ cell row _ new _ hrest ih =>
      obtain ⟨hrole, hnext⟩ := paints_cons.mp hs
      obtain ⟨hstep, hstate⟩ := halike.step cell.char fun _ => regexFlagCount_congr hrest.name_eq
      obtain ⟨hnew, hfinal⟩ := ih hnext hstate
      exact ⟨paints_cons.mpr ⟨hstep.symm.trans hrole, hnew⟩, hfinal⟩
  | @leave _ part row _ new _ _ _ _ _ _ _ hrest ih =>
      obtain ⟨hpaint, hnext⟩ := paints_append.mp hs
      obtain ⟨hsame, hstate⟩ := halike.paintPart hrest.name_eq (text part)
      obtain ⟨hnew, hfinal⟩ := ih hnext hstate
      refine ⟨paints_append.mpr ⟨hsame.symm.trans hpaint, hnew⟩, ?_⟩
      rw [text_append, text_append, finish_append, finish_append]
      exact hfinal
  | @quote _ part row _ new parent key hpart hattribute hcode _ hrest ih =>
      have hmode : s.mode = .code := by
        cases part with
        | nil => simp at hpart
        | cons first part => exact Paints.mode (a := []) hs (by simpa using hcode)
      obtain ⟨last, hlast, hpaint, hfinish⟩ := hattribute.read hmode (text row)
      obtain ⟨hpaint', hfinish'⟩ := hattribute.read_quoted (halike.mode ▸ hmode) (text new)
      have hold : (atCode last).Paints row := by
        rw [Paints, text_append, hpart, hpaint] at hs
        exact (List.append_inj hs (by simp [← hpart, codeRow, text])).2
      have hstate : (atCode last).Alike (atCode (some '"')) := ⟨rfl, rfl, hlast⟩
      obtain ⟨hnew, hfinal⟩ := ih hold hstate
      rw [Paints, text_append, text_append, text_quotedRow, hpart, hpaint', hfinish, hfinish', hnew]
      exact ⟨rfl, hfinal⟩

/-- The query with quoted keys is read as the new row. -/
theorem cells_after_patch (query : List Char) :
    ∃ new, Quotes none (cells query) (patch query) new ∧ cells (patch query).after = new ∧
      (scan (patch query).after).final.mode = (scan query).final.mode := by
  obtain ⟨new, hnew⟩ := exists_quotes none (cells query)
  change Quotes none (cells query) (patch query) new at hnew
  obtain ⟨hpaints, hfinal⟩ := hnew.reads (paints_cells query) (.refl _)
  rw [text_cells] at hfinal
  refine ⟨new, hnew, ?_, ?_⟩
  · rw [hnew.after_patch]
    exact hpaints
  · rw [hnew.after_patch]
    exact hfinal.mode.symm

end QuoteKey

end OpalRepair
