import Mathlib
import OpalRepair.Proofs.Rewritten
import OpalRepair.Proofs.Searching

/-!
# Rows with expanded searches

Expanding goes over a row from search to search.  The relation `Expands` follows the pass and names
the new row.  The scanner reads the new row out of the new text if the searches and what they become
can be put anywhere in code.  It is enough that they leave no literal open.

Main statement: `cells_after_patch`.
-/

namespace OpalRepair

open Query Text

/-! ## Parts that can be put anywhere in code -/

namespace Query

/-- Read alone, the text leaves no literal open. -/
def Closed (text : List Char) : Prop := (scan text).final.mode = .code

instance : DecidablePred Closed := fun text =>
  inferInstanceAs (Decidable ((scan text).final.mode = .code))

namespace Scanner

def Portable (part : List Char) : Prop := Settles part (cells part) part.getLast?

theorem Settles.cells_eq {part : List Char} {row : List Cell} {last : Option Char}
    (h : Settles part row last) : cells part = row := by
  have hread := h (atCode none) rfl []
  rw [List.append_nil] at hread
  exact hread.trans (List.append_nil row)

theorem Settles.portable {part : List Char} {row : List Cell} {last : Option Char}
    (h : Settles part row last) (hlast : part.getLast? = last) : Portable part := by
  rw [Portable, h.cells_eq, hlast]
  exact h

theorem final_ne_flags (text : List Char) (more : Nat) : (scan text).final.mode ≠ .flags more := by
  intro hmode
  have hahead : (atCode none).FlagsAhead (text ++ []) := fun more h => by simp [atCode] at h
  have hlt := hahead.reach more (by rw [← finish_eq_reach]; exact hmode)
  simp at hlt

section Ends

variable {c d : Char} {part : List Char}

theorem closed_concat (hd : Solid d) (hname : isNameChar d = false) :
    Closed (part ++ [d]) ↔ Closed part := by
  have hfinal : (scan (part ++ [d])).final.Alike ((scan part).final.step d []).2 :=
    finish_cut _ part (by simpa using hname)
  rw [Closed, hfinal.mode, Closed]
  cases hmode : (scan part).final.mode with
  | code => simp [step_solid hmode hd, atCode]
  | flags more => exact absurd hmode (final_ne_flags part more)
  | inside literal =>
      have hne : d ≠ literal.delimiter := by
        obtain ⟨⟨hdouble, hsingle, hslash, -⟩, -⟩ := hd
        cases literal <;> assumption
      simp [(step_inside hmode hne []).2]

theorem settles_closed (hc : Solid c) (hd : Solid d) (hname : isNameChar d = false)
    (hclosed : Closed (c :: part)) :
    Settles (c :: (part ++ [d])) (cells (c :: part) ++ [⟨d, .code⟩]) (some d) := by
  intro s hs rest
  have hfirst (t : Scanner) (ht : t.mode = .code) :
      t.paint (c :: part) = ⟨c, .code⟩ :: (atCode (some c)).paint part ∧
        t.finish (c :: part) = (atCode (some c)).finish part := by
    rw [paint, finish, step_solid ht hc]
    exact ⟨rfl, rfl⟩
  have hmode : (s.finish (c :: part)).mode = .code := by
    rw [(hfirst s hs).2, ← (hfirst (atCode none) rfl).2]
    exact hclosed
  have hcells : s.paint (c :: part) = cells (c :: part) :=
    (hfirst s hs).1.trans (hfirst (atCode none) rfl).1.symm
  calc s.paint (c :: (part ++ [d]) ++ rest)
      = s.paint ((c :: part) ++ d :: rest) := by simp
    _ = s.paint (c :: part) ++ (s.finish (c :: part)).paint (d :: rest) :=
        paint_cut s (c :: part) (by simpa using hname)
    _ = cells (c :: part) ++ ⟨d, .code⟩ :: (atCode (some d)).paint rest := by
        rw [hcells, paint, step_solid hmode hd]
    _ = cells (c :: part) ++ [⟨d, .code⟩] ++ (atCode (some d)).paint rest := by simp

theorem portable_of_closed (hc : Solid c) (hd : Solid d) (hname : isNameChar d = false)
    (hclosed : Closed (c :: (part ++ [d]))) : Portable (c :: (part ++ [d])) := by
  have hfront : Closed (c :: part) := (closed_concat hd hname).mp hclosed
  refine (settles_closed hc hd hname hfront).portable ?_
  rw [← List.cons_append, List.getLast?_concat]

end Ends

/-- A part of a row between a solid character of code and one that nothing goes on behind is read
alone as it is read there. -/
theorem Paints.alone {s : Scanner} {before more after : List Cell} {first : Cell}
    (h : s.Paints (before ++ (first :: more ++ after))) (hfirst : first.isLiteral = false)
    (hsolid : Solid first.char)
    (hlast : ∀ cell ∈ (first :: more).getLast?, isNameChar cell.char = false ∧
      ¬ (cell.char = '/' ∧ cell.role = .closing)) :
    cells (text (first :: more)) = first :: more := by
  have hpart := (paints_append.mp h).2
  have hfresh : (atCode none).Paints (first :: more ++ after) := (hpart.fresh hfirst hsolid rfl).1
  have hread := hfresh.kept_firm (Alike.refl _) hlast []
  rw [List.append_nil] at hread
  exact hread.trans (List.append_nil _)

end Scanner

end Query

namespace ExpandTerms

open Patch Scanner

/-! ## Searches -/

theorem IsSearch.last {field content : List Char} {part : List Cell}
    (h : IsSearch field content (text part)) :
    ∀ cell ∈ part.getLast?, isNameChar cell.char = false ∧
      ¬ (cell.char = '/' ∧ cell.role = .closing) := by
  obtain ⟨c, middle, hpart, -⟩ := h.ends
  intro cell hcell
  have hlast : (text part).getLast? = some cell.char := by
    rw [text, List.getLast?_map, Option.mem_def.mp hcell]
    rfl
  rw [hpart, ← List.cons_append, List.getLast?_concat] at hlast
  rw [← Option.some.inj hlast]
  exact ⟨by decide, by simp⟩

theorem IsSearch.alone {field content : List Char} {s : Scanner} {before part after : List Cell}
    (h : IsSearch field content (text part)) (hs : s.Paints (before ++ (part ++ after)))
    (hcode : part.head?.any Cell.isLiteral = false) : cells (text part) = part := by
  obtain ⟨c, middle, hpart, hname⟩ := h.ends
  cases part with
  | nil => simp at hpart
  | cons first more =>
      obtain ⟨hfirst, -⟩ := List.cons.inj hpart
      exact hs.alone (by simpa using hcode) (hfirst ▸ solid_of_isNameChar hname) h.last

theorem IsSearch.path? {field content found : List Char} (h : IsSearch field content found) :
    ∃ rest, found = field ++ rest ∧ Stops rest ∧ path? found = some field := by
  obtain ⟨hfield, -, gap, blanks, hgap, -, rfl⟩ := h
  have hstops : Stops (gap ++ '~' :: (blanks ++ '<' :: (content ++ ['>']))) := by
    cases gap with
    | nil => simp [Stops]; decide
    | cons c gap =>
        have hblank : isBlank c = true := hgap c (by simp)
        intro d hd
        obtain rfl : c = d := by simpa using hd
        refine ⟨isNameChar_of_isBlank hblank, ?_⟩
        rintro rfl
        exact absurd hblank (by decide)
  refine ⟨_, by simp, hstops, ?_⟩
  have hpath := hfield.path?_append hstops
  simpa using hpath

/-! ## Following the pass -/

/-- What expanding makes of a row that `previous` precedes.  The patch keeps a cell at which nothing
is found, keeps a search that is left alone, or expands a search. -/
inductive Expands : Option Char → List Cell → Patch → List Cell → Prop
  | nil {previous} : Expands previous [] [] []
  | pass {previous cell row patch new} (hrest : Expands (some cell.char) row patch new) :
      Expands previous (cell :: row) (.keep [cell.char] :: patch) (cell :: new)
  | leave {previous part row patch new field content} (hsearch : IsSearch field content (text part))
      (hrest : Expands (text part).getLast? row patch new) :
      Expands previous (part ++ row) (.keep (text part) :: patch) (part ++ new)
  | expand {previous part row patch new field content replacement}
      (hsearch : IsSearch field content (text part))
      (hexpand : expand? field (terms content) = some replacement)
      (hcode : part.head?.any Cell.isLiteral = false)
      (hpath : previous.any QuoteKey.isPathChar = false)
      (hrest : Expands (text part).getLast? row patch new) :
      Expands previous (part ++ row) (.change (text part) replacement :: patch)
        (cells replacement ++ new)

theorem exists_expands (previous : Option Char) (row : List Cell) :
    ∃ new, Expands previous row (walk fragment? 0 previous row) new := by
  refine walk_induction (motive := fun previous row patch => ∃ new, Expands previous row patch new)
    (fun previous row fragment hfind => ?_) (fun _ => ⟨[], .nil⟩)
    (fun previous cell row _ ⟨new, hnew⟩ => ⟨cell :: new, .pass hnew⟩)
    (fun previous part row fragment hfind hlength ⟨new, hnew⟩ => ?_) previous row
  · obtain ⟨part, rest, field, content, rfl, hlength, -⟩ := fragment?_eq_some hfind
    rw [List.length_append]
    omega
  · obtain ⟨other, rest, field, content, hrow, hother, hsearch, hreplaced⟩ :=
      fragment?_eq_some hfind
    obtain ⟨rfl, rfl⟩ := List.append_inj hrow (hlength.trans hother.symm)
    have htake : part.take (fragment.more + 1) = part := by rw [← hlength, List.take_length]
    obtain ⟨more, replacement⟩ := fragment
    cases replacement with
    | none =>
        rw [Fragment.piece, htake]
        exact ⟨part ++ new, .leave hsearch hnew⟩
    | some replacement =>
        obtain ⟨hexpand, hcode, hpath⟩ := hreplaced replacement rfl
        rw [Fragment.piece, htake]
        exact ⟨cells replacement ++ new, .expand hsearch hexpand hcode hpath hnew⟩

namespace Expands

variable {previous : Option Char} {row new : List Cell} {patch : Patch}

theorem after_patch (h : Expands previous row patch new) : patch.after = text new := by
  induction h with
  | nil => rfl
  | pass _ ih => simp [ih]
  | leave _ _ ih => simp [ih]
  | expand _ _ _ _ _ ih => simp [ih]

theorem name_eq_or (h : Expands previous row patch new) :
    (text row).takeWhile isNameChar = (text new).takeWhile isNameChar ∨
      row.head?.any Cell.isLiteral = false ∧ previous.any QuoteKey.isPathChar = false ∧
        (text new).takeWhile isNameChar = [] := by
  induction h with
  | nil => exact .inl rfl
  | @pass previous cell row patch new hrest ih =>
      refine .inl ?_
      cases hname : isNameChar cell.char with
      | false => simp [hname]
      | true =>
          rcases ih with hsame | ⟨-, hpath, -⟩
          · simp only [text_cons, List.takeWhile_cons, hsame]
          · simp [QuoteKey.isPathChar, hname] at hpath
  | leave hsearch _ _ =>
      obtain ⟨c, front, hpart, -⟩ := hsearch.ends
      refine .inl ?_
      rw [text_append, text_append, hpart, ← List.cons_append, List.append_assoc, List.append_assoc,
        List.singleton_append, List.singleton_append, takeWhile_stop (by decide),
        takeWhile_stop (by decide)]
  | @expand _ part _ _ _ _ _ _ hsearch hexpand hcode hpath _ _ =>
      obtain ⟨-, rfl⟩ := ends_of_expand? hexpand
      have hne : part ≠ [] := by
        rintro rfl
        obtain ⟨c, front, hpart, -⟩ := hsearch.ends
        simp at hpart
      refine .inr ⟨by rwa [List.head?_append_of_ne_nil _ hne], hpath, ?_⟩
      rw [text_append, text_cells, List.cons_append, List.takeWhile_cons_of_neg (by decide)]

theorem reads (h : Expands previous row patch new)
    (hportable : ∀ found replacement, .change found replacement ∈ patch →
      Portable found ∧ Portable replacement) {s t : Scanner} (hs : s.Paints row)
    (halike : s.Alike t) : t.Paints new := by
  induction h generalizing s t with
  | nil => rfl
  | @pass previous cell row patch new hrest ih =>
      obtain ⟨hrole, hnext⟩ := paints_cons.mp hs
      -- Only a slash that closes a regex asks what follows, and no flags are in front of a search.
      have hflags : s.Heeds cell.char →
          regexFlagCount (text row) = regexFlagCount (text new) := by
        intro hheeds
        rcases hrest.name_eq_or with hsame | ⟨hcode, -, hempty⟩
        · exact regexFlagCount_congr hsame
        · have hnone : regexFlagCount (text new) = 0 := by simp [regexFlagCount, hempty]
          rw [hnone]
          by_contra hflags
          exact Paints.not_closing (a := []) hs hheeds.2.2 hcode (Nat.pos_of_ne_zero hflags)
            (by rw [← hrole, hheeds.role])
      obtain ⟨hstep, hstate⟩ := halike.step cell.char hflags
      have hnew := ih (fun found replacement hmem =>
        hportable found replacement (List.mem_cons_of_mem _ hmem)) hnext hstate
      exact paints_cons.mpr ⟨hstep.symm.trans hrole, hnew⟩
  | @leave previous part row patch new field content hsearch hrest ih =>
      have hnew := ih (fun found replacement hmem =>
        hportable found replacement (List.mem_cons_of_mem _ hmem)) (paints_append.mp hs).2 (.refl _)
      rw [Paints, text_append, hs.kept_firm halike hsearch.last, hnew]
  | @expand _ part row patch new _ _ replacement hsearch hexpand hcode _ hrest ih =>
      obtain ⟨c, front, hpart, -⟩ := hsearch.ends
      obtain ⟨-, rfl⟩ := ends_of_expand? hexpand
      have hmode : s.mode = .code := by
        cases part with
        | nil => simp at hpart
        | cons first part => exact Paints.mode (a := []) hs (by simpa using hcode)
      obtain ⟨hfound, hreplaced⟩ := hportable _ _ List.mem_cons_self
      rw [Portable, ← List.cons_append, List.getLast?_concat, List.cons_append] at hreplaced
      rw [Portable, hpart, ← List.cons_append, List.getLast?_concat, List.cons_append, ← hpart]
        at hfound
      have hold : (atCode (some '>')).Paints row := by
        rw [Paints, text_append, hfound s hmode] at hs
        refine (List.append_inj hs ?_).2
        have := congrArg List.length (text_cells (text part))
        simpa [text] using this
      have hnew := ih (fun found replacement hmem =>
        hportable found replacement (List.mem_cons_of_mem _ hmem)) hold
        (show (atCode (some '>')).Alike (atCode (some ')')) from ⟨rfl, rfl, by decide⟩)
      rw [Paints, text_append, text_cells]
      exact (hreplaced t (halike.mode ▸ hmode) (text new)).trans (by rw [hnew])

end Expands

/-- The query with expanded searches is read as the new row. -/
theorem cells_after_patch {query : List Char}
    (hportable : ∀ found replacement, .change found replacement ∈ patch query →
      Portable found ∧ Portable replacement) :
    ∃ new, Expands none (cells query) (patch query) new ∧ cells (patch query).after = new := by
  obtain ⟨new, hnew⟩ := exists_expands none (cells query)
  change Expands none (cells query) (patch query) new at hnew
  refine ⟨new, hnew, ?_⟩
  rw [hnew.after_patch]
  exact hnew.reads hportable (paints_cells query) (.refl _)

/-! ## Fields in calls -/

def fieldCall (field term : List Char) : List Cell :=
  codeRow "contains(".toList ++ (cells field ++ [⟨',', .code⟩]) ++
    (codeRow [' '] ++ literalRow .double (escape term) ++ codeRow [')'])

def fieldCalls (field : List Char) (terms : List (List Char)) : List Cell :=
  List.intercalate (codeRow " or ".toList) (terms.map (fieldCall field))

def expansion (field : List Char) (terms : List (List Char)) : List Cell :=
  codeRow ['('] ++ fieldCalls field terms ++ codeRow [')']

section Calls

variable {field : List Char}

theorem fieldCalls_cons (term next : List Char) (terms : List (List Char)) :
    fieldCalls field (term :: next :: terms) =
      fieldCall field term ++ codeRow " or ".toList ++ fieldCalls field (next :: terms) := by
  rw [fieldCalls, fieldCalls, List.map_cons, List.map_cons, List.intercalate_cons_cons]

section Separators

variable (hwhole : ∀ cell ∈ cells field, cell.isSeparator = false)
include hwhole

theorem isSeparator_fieldCall (term : List Char) :
    ∀ cell ∈ fieldCall field term, cell.isSeparator = false := by
  have hliteral : ∀ cell ∈ literalRow .double (escape term), cell.isSeparator = false :=
    fun cell hcell => not_isSeparator_of_isLiteral (isLiteral_literalRow hcell)
  simp only [fieldCall, List.forall_mem_append]
  exact ⟨⟨isSeparator_codeRow, hwhole, by simp [Cell.isSeparator]⟩,
    ⟨isSeparator_codeRow, hliteral⟩, isSeparator_codeRow⟩

theorem isSeparator_fieldCalls (terms : List (List Char)) :
    ∀ cell ∈ fieldCalls field terms, cell.isSeparator = false := by
  induction terms with
  | nil => simp [fieldCalls]
  | cons term terms ih =>
      have hcall := isSeparator_fieldCall hwhole term
      cases terms with
      | nil => simpa [fieldCalls] using hcall
      | cons next terms =>
          simp only [fieldCalls_cons, List.forall_mem_append]
          exact ⟨⟨hcall, isSeparator_codeRow⟩, ih⟩

theorem isSeparator_expansion (terms : List (List Char)) :
    ∀ cell ∈ expansion field terms, cell.isSeparator = false := by
  simp only [expansion, List.forall_mem_append]
  exact ⟨⟨isSeparator_codeRow, isSeparator_fieldCalls hwhole terms⟩, isSeparator_codeRow⟩

end Separators

variable (hfield : FieldPath field) (hclosed : Closed field)
include hfield hclosed

theorem settles_containsCall (term : List Char) :
    Settles (containsCall field term) (fieldCall field term) (some ')') := by
  obtain ⟨c, rest, rfl, hstart, -⟩ := hfield.head
  have hname : Settles "contains(".toList (codeRow "contains(".toList) (some '(') :=
    show Settles ('c' :: ("ontains".toList ++ ['('])) _ _ from settles_concat (by decide)
      (show (Part.code "ontains(".toList).Plain by decide) (by decide)
  have hpath := settles_closed (solid_of_isNameChar (isNameChar_of_isNameStart hstart))
    (show Solid ',' by decide) (by decide) hclosed
  have hspace := reads_code (some ',') (show (Part.code [' ']).Plain by decide)
  have hend := reads_code (some '"') (show (Part.code [')']).Plain by decide)
  have htext : containsCall (c :: rest) term =
      "contains(".toList ++ c :: (rest ++ [',']) ++ ([' '] ++ quote term ++ [')']) := by
    have hcomma : ", ".toList = [',', ' '] := rfl
    unfold containsCall
    simp only [hcomma, List.append_assoc, List.cons_append, List.nil_append]
  rw [htext]
  exact (hname.append hpath).consumes ((hspace.append (reads_quote _ term)).append hend)

theorem settles_calls {terms : List (List Char)} (hne : terms ≠ []) :
    Settles (List.intercalate " or ".toList (terms.map (containsCall field)))
      (fieldCalls field terms) (some ')') := by
  induction terms with
  | nil => exact absurd rfl hne
  | cons term terms ih =>
      have hcall := settles_containsCall hfield hclosed term
      cases terms with
      | nil => simpa [fieldCalls] using hcall
      | cons next terms =>
          have hor := reads_code (some ')') (show (Part.code " or ".toList).Plain by decide)
          rw [List.map_cons, List.map_cons, List.intercalate_cons_cons, fieldCalls_cons]
          exact (hcall.consumes hor).append (ih (List.cons_ne_nil next terms))

theorem settles_expand? {terms : List (List Char)} {replacement : List Char}
    (h : expand? field terms = some replacement) :
    Settles replacement (expansion field terms) (some ')') := by
  obtain ⟨hne, rfl⟩ := ends_of_expand? h
  have hopen : Settles ['('] (codeRow ['(']) (some '(') := settles_code (by decide) (by simp)
  have hclose := reads_code (some ')') (show (Part.code [')']).Plain by decide)
  exact (hopen.append (settles_calls hfield hclosed hne)).consumes hclose

theorem portable_expand? (hwhole : ∀ cell ∈ cells field, cell.isSeparator = false)
    {terms : List (List Char)} {replacement : List Char}
    (h : expand? field terms = some replacement) :
    Portable replacement ∧ ∀ cell ∈ cells replacement, cell.isSeparator = false := by
  have hall := settles_expand? hfield hclosed h
  obtain ⟨-, hreplacement⟩ := ends_of_expand? h
  refine ⟨hall.portable ?_, ?_⟩
  · rw [hreplacement, ← List.cons_append, List.getLast?_concat]
  · rw [hall.cells_eq]
    exact isSeparator_expansion hwhole terms

end Calls

end ExpandTerms

end OpalRepair
