import Mathlib
import OpalRepair.Proofs.Expanding.Stages
import OpalRepair.Proofs.Keeping.Aligned

/-!
# Expanded searches in order

A search becomes calls in parentheses.  Verbs and called words are checked by readers that go over a
row from left to right, so that what a reader knows in front of a search decides whether calls may
stand there.

Main statement: `ExpandTerms.wellFormed_after`.
-/

namespace OpalRepair

open Query Text

namespace Query

/-! ## Verbs, cell by cell -/

def insideAfter (inside : Bool) (row : List Cell) : Bool :=
  row.foldl (fun inside cell => !cell.isSeparator && (inside || !cell.isGap)) inside

def VerbsFrom : Bool → List Cell → Prop
  | _, [] => True
  | inside, cell :: row =>
    (inside = false → cell.isGap = false → StartsWithVerb (cell :: row)) ∧
      VerbsFrom (insideAfter inside [cell]) row

theorem insideAfter_append (inside : Bool) (a b : List Cell) :
    insideAfter inside (a ++ b) = insideAfter (insideAfter inside a) b := List.foldl_append

theorem insideAfter_of_whole {row : List Cell} (h : ∀ cell ∈ row, cell.isSeparator = false) :
    insideAfter true row = true := by
  induction row with
  | nil => rfl
  | cons cell row ih =>
      obtain ⟨hcell, hrow⟩ := List.forall_mem_cons.mp h
      have hstep : insideAfter true [cell] = true := by simp [insideAfter, hcell]
      rw [← List.singleton_append, insideAfter_append, hstep, ih hrow]

theorem verbsFrom_whole {part : List Cell} (h : ∀ cell ∈ part, cell.isSeparator = false)
    (row : List Cell) : VerbsFrom true (part ++ row) ↔ VerbsFrom true row := by
  induction part with
  | nil => rfl
  | cons cell part ih =>
      obtain ⟨hcell, hpart⟩ := List.forall_mem_cons.mp h
      have hstep : insideAfter true [cell] = true := by simp [insideAfter, hcell]
      rw [List.cons_append, VerbsFrom, hstep, ih hpart]
      simp

theorem startsWithVerb_congr {first : Cell} (hfirst : first.isGap = false) {a b : List Cell}
    (h : (text (first :: a)).takeWhile isNameChar = (text (first :: b)).takeWhile isNameChar) :
    StartsWithVerb (first :: a) ↔ StartsWithVerb (first :: b) := by
  have hblank : isBlank first.char = false := (Bool.or_eq_false_iff.mp hfirst).2
  have htrim (row : List Cell) : trimStart (text (first :: row)) = text (first :: row) := by
    simp [trimStart, hblank]
  rw [StartsWithVerb, StartsWithVerb, leadingName?, leadingName?, htrim, htrim, h]

section Layout

variable {row : List Cell}
  (hpipe : ∀ cell ∈ row, cell.isSeparator = true → isNameChar cell.char = false)
include hpipe

theorem takeWhile_first {first : Stage} {stages : List Stage}
    (h : Layout.ofCells row = ⟨[], first :: stages⟩) :
    (text first.body).takeWhile isNameChar = (text row).takeWhile isNameChar := by
  have hrow : row = first.body ++ (first.gap ++ stages.flatMap Stage.cells) := by
    have hcells := Layout.cells_ofCells row
    rw [h] at hcells
    simpa [Layout.cells, Stage.cells] using hcells.symm
  have hapart := Layout.apart row
  rw [h] at hapart
  obtain ⟨htrimmed, hgap, -⟩ := hapart
  cases hspace : first.gap with
  | nil =>
      rcases hgap with rfl | hgap
      · rw [hrow, hspace]
        simp
      · simp [hspace] at hgap
  | cons cell gap =>
      have hmem : cell ∈ first.gap := by simp [hspace]
      have hname : isNameChar cell.char = false := by
        rcases Bool.or_eq_true_iff.mp (htrimmed.gap cell hmem) with hseparator | hblank
        · exact hpipe cell (by rw [hrow]; simp [hmem]) hseparator
        · exact isNameChar_of_isBlank hblank
      rw [hrow, hspace, text_append, List.cons_append, text_cons, takeWhile_stop hname]

/-- The verbs of the stages can be checked cell by cell.  Inside a stage, a first stage that no
separator stands in front of is the same stage. -/
theorem verbsFrom_ofCells :
    ((∀ stage ∈ (Layout.ofCells row).stages, StartsWithVerb stage.body) ↔ VerbsFrom false row) ∧
      ((∀ stage ∈ if (Layout.ofCells row).lead.any Cell.isSeparator then
          (Layout.ofCells row).stages else (Layout.ofCells row).stages.tail,
        StartsWithVerb stage.body) ↔ VerbsFrom true row) := by
  induction row with
  | nil => simp [Layout.ofCells, VerbsFrom]
  | cons cell row ih =>
      obtain ⟨hout, hin⟩ := ih (List.forall_mem_cons.mp hpipe).2
      have hcons : Layout.ofCells (cell :: row) = Layout.cons cell (Layout.ofCells row) := rfl
      have hname (first : Stage) (stages : List Stage)
          (h : Layout.ofCells (cell :: row) = ⟨[], first :: stages⟩) := takeWhile_first hpipe h
      rw [hcons] at hname ⊢
      generalize Layout.ofCells row = layout at hout hin hname ⊢
      obtain ⟨lead, stages⟩ := layout
      rw [VerbsFrom, VerbsFrom]
      cases hgap : cell.isGap with
      | true =>
          cases hseparator : cell.isSeparator with
          | true => simpa [Layout.cons, hgap, hseparator, insideAfter] using hout
          | false =>
              have hboth := And.intro hout hin
              simpa [Layout.cons, hgap, hseparator, insideAfter] using hboth
      | false =>
          have hseparator : cell.isSeparator = false := (Bool.or_eq_false_iff.mp hgap).1
          have hstep (inside : Bool) : insideAfter inside [cell] = true := by
            simp [insideAfter, hseparator, hgap]
          -- The cell opens a stage that takes in the next one, if no separator lies between them.
          obtain ⟨body, gap, rest, hopen, hrest⟩ : ∃ body gap rest,
              Layout.cons cell ⟨lead, stages⟩ = ⟨[], ⟨cell :: body, gap⟩ :: rest⟩ ∧
                rest = if lead.any Cell.isSeparator then stages else stages.tail := by
            cases stages with
            | nil => exact ⟨[], lead, [], by simp [Layout.cons, hgap], by simp⟩
            | cons stage stages =>
                cases hlead : lead.any Cell.isSeparator with
                | true => exact ⟨[], lead, _, by simp [Layout.cons, hgap, hlead], rfl⟩
                | false =>
                    exact ⟨lead ++ stage.body, stage.gap, _, by simp [Layout.cons, hgap, hlead], rfl⟩
          have hverb := startsWithVerb_congr hgap (hname _ _ hopen)
          rw [hopen, hstep, hstep, ← hin, ← hrest]
          simp [hverb]

end Layout

theorem verbs_iff_verbsFrom (query : List Char) :
    (∀ body ∈ (layout query).stages.map Stage.body, StartsWithVerb body) ↔
      VerbsFrom false (cells query) := by
  rw [List.forall_mem_map]
  refine (verbsFrom_ofCells fun cell hcell hseparator => ?_).1
  rw [Scanner.char_of_isSeparator hcell hseparator]
  decide

/-! ## Exchanged parts -/

/-- For the checks `new` may stand for `part` behind `before`. -/
structure Exchange (before part new : List Cell) : Prop where
  inside : insideAfter false before = true
  whole : ∀ cell ∈ part ++ new, cell.isSeparator = false
  end_part : ∃ cell ∈ part.getLast?, Word.Ends cell.char
  end_new : ∃ cell ∈ new.getLast?, Word.Ends cell.char ∧ cell.isOpen = false
  excess : ∀ pair : Pair, pair.excess new = pair.excess part
  calls : (Word.idle.after before).Sound Callable part → (Word.idle.after before).Sound Callable new

/-- Behind `before`, a row becomes a new one by exchange of parts.  Names that stay do not grow. -/
inductive Exchanges : List Cell → List Cell → List Cell → Prop
  | nil {before} : Exchanges before [] []
  | keep {before cell row new}
      (hname : isNameChar cell.char = true →
        (text row).takeWhile isNameChar = (text new).takeWhile isNameChar)
      (hrest : Exchanges (before ++ [cell]) row new) : Exchanges before (cell :: row) (cell :: new)
  | swap {before part row replaced new} (hpart : Exchange before part replaced)
      (hrest : Exchanges (before ++ part) row new) : Exchanges before (part ++ row) (replaced ++ new)

theorem Word.after_of_ends {row : List Cell} (h : ∃ cell ∈ row.getLast?, Ends cell.char)
    (word : Word) : word.after row = idle := by
  obtain ⟨cell, hcell, hends⟩ := h
  obtain ⟨front, rfl⟩ := List.getLast?_eq_some_iff.mp hcell
  exact after_ends word front hends

namespace Exchanges

variable {before row new : List Cell}

theorem keep_all {part : List Cell} (hlast : ∀ cell ∈ part.getLast?, isNameChar cell.char = false)
    (h : Exchanges (before ++ part) row new) : Exchanges before (part ++ row) (part ++ new) := by
  induction part generalizing before with
  | nil => simpa using h
  | cons cell part ih =>
      have hrest : Exchanges (before ++ [cell]) (part ++ row) (part ++ new) := by
        refine ih (fun other hother => ?_) (by simpa using h)
        exact hlast other (by rw [List.getLast?_cons, Option.mem_def.mp hother]; rfl)
      refine .keep (fun hname => ?_) hrest
      rcases part.eq_nil_or_concat' with rfl | ⟨front, last, rfl⟩
      · simp [hlast cell (by simp)] at hname
      · have hstop : isNameChar last.char = false :=
          hlast last (by rw [← List.cons_append, List.getLast?_concat]; rfl)
        have hfront (rest : List Cell) : (text (front ++ [last] ++ rest)).takeWhile isNameChar =
            (text front).takeWhile isNameChar := by
          rw [List.append_assoc, List.singleton_append, text_append, text_cons,
            takeWhile_stop hstop]
        exact (hfront row).trans (hfront new).symm

theorem excess_eq (h : Exchanges before row new) (pair : Pair) :
    pair.excess new = pair.excess row := by
  induction h with
  | nil => rfl
  | keep _ _ ih => rw [Pair.excess_cons, ih, ← Pair.excess_cons]
  | swap hpart _ ih => rw [Pair.excess_append, Pair.excess_append, hpart.excess, ih]

theorem calls (h : Exchanges before row new) (hrow : (Word.idle.after before).Sound Callable row) :
    (Word.idle.after before).Sound Callable new := by
  induction h with
  | nil => trivial
  | keep _ _ ih =>
      refine ⟨hrow.1, ?_⟩
      have hnext := ih (by rw [Word.after_append]; exact hrow.2)
      rwa [Word.after_append] at hnext
  | swap hpart _ ih =>
      rw [Word.sound_append] at hrow ⊢
      have hend := hpart.end_new.imp fun cell h => And.intro h.1 h.2.1
      rw [Word.after_append, Word.after_of_ends hpart.end_part] at ih
      rw [Word.after_of_ends hpart.end_part] at hrow
      rw [Word.after_of_ends hend]
      exact ⟨hpart.calls hrow.1, ih hrow.2⟩

theorem verbs (h : Exchanges before row new)
    (hrow : VerbsFrom (insideAfter false before) row) : VerbsFrom (insideAfter false before) new := by
  induction h with
  | nil => trivial
  | @keep before cell row new hname _ ih =>
      rw [insideAfter_append] at ih
      refine ⟨fun hout hgap => ?_, ih hrow.2⟩
      refine (startsWithVerb_congr hgap ?_).mp (hrow.1 hout hgap)
      rw [text_cons, text_cons, List.takeWhile_cons, List.takeWhile_cons]
      split_ifs with hcell
      · rw [hname hcell]
      · rfl
  | @swap before part row replaced new hpart _ ih =>
      obtain ⟨hwhole, hwhole'⟩ := List.forall_mem_append.mp hpart.whole
      rw [hpart.inside, verbsFrom_whole hwhole] at hrow
      rw [insideAfter_append, hpart.inside, insideAfter_of_whole hwhole] at ih
      rw [hpart.inside, verbsFrom_whole hwhole']
      exact ih hrow

theorem eq_nil (h : Exchanges before row []) : row = [] := by
  generalize hnew : ([] : List Cell) = new at h
  cases h with
  | nil => rfl
  | keep _ _ => simp at hnew
  | swap hpart _ =>
      obtain ⟨cell, hcell, -⟩ := hpart.end_new
      rw [(List.append_eq_nil_iff.mp hnew.symm).1] at hcell
      simp at hcell

theorem shut (h : Exchanges before row new) (hrow : Shut row) : Shut new := by
  have hsplit (part : List Cell) {rest : List Cell} (hpart : rest = [] → Shut part)
      (hrest : Shut rest) : Shut (part ++ rest) := by
    cases rest with
    | nil => simpa using hpart rfl
    | cons cell rest => exact (shut_append (by simp)).mpr hrest
  have hback {part rest : List Cell} (h : Shut (part ++ rest)) : Shut rest := by
    cases rest with
    | nil => simp [Shut]
    | cons cell rest => exact (shut_append (by simp)).mp h
  induction h with
  | nil => exact hrow
  | @keep before cell row new _ hrest ih =>
      rw [← List.singleton_append] at hrow ⊢
      refine hsplit [cell] (fun hnil => ?_) (ih (hback hrow))
      subst hnil
      rwa [hrest.eq_nil, List.append_nil] at hrow
  | swap hpart _ ih =>
      refine hsplit _ (fun _ cell hcell => ?_) (ih (hback hrow))
      obtain ⟨last, hlast, -, hopen⟩ := hpart.end_new
      rwa [Option.some.inj (hcell.symm.trans hlast)]

end Exchanges

end Query

theorem WellFormed.exchange {query output : List Char} (h : WellFormed query)
    (hexchanges : Exchanges [] (cells query) (cells output)) : WellFormed output where
  closed := (closed_iff_shut output).mpr (hexchanges.shut ((closed_iff_shut query).mp h.closed))
  paired pair := by
    have hexcess := hexchanges.excess_eq pair
    have hpaired := h.paired pair
    rw [Pair.excess, Pair.excess] at hexcess
    omega
  verbs := by
    rw [verbs_iff_verbsFrom]
    exact hexchanges.verbs ((verbs_iff_verbsFrom query).mp h.verbs)
  calls := hexchanges.calls h.calls

/-! ## Rewritten fragments, one by one -/

namespace Patch

variable {p : List Char → List Char → Prop}

def Every (p : List Char → List Char → Prop) : List Char → Patch → Prop
  | _, [] => True
  | front, .keep part :: patch => Every p (front ++ part) patch
  | front, .change found _ :: patch => p front found ∧ Every p (front ++ found) patch

instance decidableEvery [∀ front found, Decidable (p front found)] :
    ∀ front patch, Decidable (Every p front patch)
  | _, [] => .isTrue trivial
  | front, .keep part :: patch => decidableEvery (front ++ part) patch
  | front, .change found _ :: patch =>
    have := decidableEvery (front ++ found) patch
    inferInstanceAs (Decidable (_ ∧ _))

theorem Every.of_forall {front : List Char} {patch : Patch}
    (h : ∀ (a b : Patch) found replacement, patch = a ++ .change found replacement :: b →
      p (front ++ a.before) found) : Every p front patch := by
  induction patch generalizing front with
  | nil => trivial
  | cons piece patch ih =>
      have hrest : Every p (front ++ piece.before) patch := ih fun a b found replacement hpatch => by
        have hfound := h (piece :: a) b found replacement (by rw [hpatch]; rfl)
        rwa [before_cons, ← List.append_assoc] at hfound
      cases piece with
      | keep part => exact hrest
      | change found replacement =>
          have hfirst := h [] patch found replacement rfl
          exact ⟨(List.append_nil front) ▸ hfirst, hrest⟩

theorem Every.related {front found replacement : List Char} {a b : Patch}
    (h : Every p front (a ++ .change found replacement :: b)) : p (front ++ a.before) found := by
  induction a generalizing front with
  | nil => exact (List.append_nil front).symm ▸ h.1
  | cons piece a ih =>
      rw [before_cons, ← List.append_assoc]
      cases piece with
      | keep part => exact ih h
      | change other replaced => exact ih h.2

theorem every_iff {patch : Patch} :
    Every p [] patch ↔ ∀ front found replacement back,
      patch.Rewrites front found replacement back → p front found := by
  constructor
  · rintro h front found replacement back ⟨a, b, rfl, rfl, -⟩
    exact h.related
  · intro h
    exact .of_forall fun a b found replacement hpatch =>
      h _ found replacement _ ⟨a, b, hpatch, rfl, rfl⟩

instance {patch : Patch} [∀ front found, Decidable (p front found)] :
    Decidable (∀ front found replacement back,
      patch.Rewrites front found replacement back → p front found) :=
  decidable_of_iff _ every_iff

end Patch

namespace ExpandTerms

open Scanner

/-! ## Calls for a field -/

structure Sealed (part : List Char) : Prop where
  closed : Closed part
  whole : ∀ cell ∈ cells part, cell.isSeparator = false
  paired : ∀ pair : Pair, pair.excess (cells part) = 0

instance : DecidablePred Sealed := fun part =>
  decidable_of_iff (Closed part ∧ (∀ cell ∈ cells part, cell.isSeparator = false) ∧
      ∀ pair ∈ Pair.all, pair.excess (cells part) = 0)
    ⟨fun h => ⟨h.1, h.2.1, fun pair => h.2.2 pair (by cases pair <;> simp [Pair.all])⟩,
      fun h => ⟨h.closed, h.whole, fun pair _ => h.paired pair⟩⟩

theorem sound_field {field : List Char} (hfield : FieldPath field) {word : Word}
    (h : word.Sound Callable (cells field)) (other : Word) :
    other.Sound Callable (cells field) := by
  obtain @⟨c, name, segments, hstart, hname, -⟩ := hfield
  have htext : text (cells (c :: (name ++ dots segments))) = c :: name ++ dots segments := by simp
  obtain ⟨front, back, hrow, hfront, hback⟩ := List.map_eq_append_iff.mp htext
  rw [hrow, Word.sound_append] at h ⊢
  refine ⟨other.sound_of_no_paren fun cell hcell => ?_, ?_⟩
  · have hmem : cell.char ∈ c :: name := hfront ▸ List.mem_map_of_mem hcell
    refine ne_paren_of_isNameChar ?_
    rcases List.mem_cons.mp hmem with hchar | hchar
    · exact hchar ▸ isNameChar_of_isNameStart hstart
    · exact hname _ hchar
  · cases back with
    | nil => trivial
    | cons cell back =>
        have hdot : cell.char = '.' := by
          cases segments with
          | nil => simp [dots] at hback
          | cons segment segments => exact (List.cons.inj hback).1
        have hstep : (word.after front).step cell = (other.after front).step cell :=
          Word.step_forgets _ _ (by rw [hdot]; decide) (by rw [hdot]; decide)
        rw [Word.sound_cons, ← hstep]
        exact ⟨fun hparen => absurd (hdot.symm.trans hparen) (by decide), h.2.2⟩

section Field

variable {field : List Char}

theorem excess_fieldCalls (hpaired : ∀ pair : Pair, pair.excess (cells field) = 0)
    (terms : List (List Char)) (pair : Pair) : pair.excess (fieldCalls field terms) = 0 := by
  have hcall (term : List Char) : pair.excess (fieldCall field term) = 0 := by
    have hliteral : pair.excess (literalRow .double (escape term)) = 0 := by
      simp [Pair.excess, countP_isCode_literalRow]
    have hcode : pair.excess (codeRow "contains(".toList) + pair.excess [⟨',', .code⟩] +
        pair.excess (codeRow [' ']) + pair.excess (codeRow [')']) = 0 := by
      cases pair <;> rfl
    simp only [fieldCall, Pair.excess_append, hpaired, hliteral]
    omega
  induction terms with
  | nil => rfl
  | cons term terms ih =>
      cases terms with
      | nil => simpa [fieldCalls] using hcall term
      | cons next terms =>
          have hor : pair.excess (codeRow " or ".toList) = 0 := by cases pair <;> rfl
          rw [fieldCalls_cons, Pair.excess_append, Pair.excess_append, hcall, hor, ih]
          rfl

theorem excess_expansion (hpaired : ∀ pair : Pair, pair.excess (cells field) = 0)
    (terms : List (List Char)) (pair : Pair) : pair.excess (expansion field terms) = 0 := by
  have hcode : pair.excess (codeRow ['(']) + pair.excess (codeRow [')']) = 0 := by
    cases pair <;> rfl
  rw [expansion, Pair.excess_append, Pair.excess_append, excess_fieldCalls hpaired]
  omega

theorem after_fieldCall (term : List Char) (word : Word) :
    word.after (fieldCall field term) = .idle := by
  refine Word.after_of_ends ⟨⟨')', .code⟩, ?_, Word.ends_close⟩ _
  rw [fieldCall, ← List.append_assoc]
  exact List.getLast?_concat

variable (hsound : Word.idle.Sound Callable (cells field))
include hsound

theorem sound_fieldCall (term : List Char) : Word.idle.Sound Callable (fieldCall field term) := by
  have hname : Word.idle.Sound Callable (codeRow "contains(".toList) := by
    have hword : Word.idle.after (codeRow "contains".toList) = .name "contains".toList := by
      decide
    have hknown : Callable "contains".toList := by decide
    have hsplit : codeRow "contains(".toList = codeRow "contains".toList ++ [⟨'(', .code⟩] := rfl
    rw [hsplit, Word.sound_append, hword]
    refine ⟨sound_codeRow (by simp; decide) _, fun _ run hrun => ?_, trivial⟩
    obtain rfl : "contains".toList = run := by simpa [Word.pending?] using hrun
    exact hknown
  have hopen : Word.idle.after (codeRow "contains(".toList) = .idle :=
    Word.after_of_ends ⟨⟨'(', .code⟩, rfl, Word.ends_open⟩ _
  have hcomma (word : Word) : word.after [⟨',', .code⟩] = .idle :=
    Word.after_of_ends ⟨⟨',', .code⟩, rfl, Word.ends_comma⟩ _
  have hplain {c : Char} (hc : c ≠ '(') (word : Word) : word.Sound Callable (codeRow [c]) :=
    word.sound_of_no_paren (by simp [codeRow, hc])
  simp only [fieldCall, Word.sound_append, Word.after_append, hopen, hcomma]
  exact ⟨⟨hname, hsound, hplain (by decide) _⟩, ⟨hplain (by decide) _,
    Word.sound_literalRow _ _ _⟩, hplain (by decide) _⟩

theorem sound_fieldCalls (terms : List (List Char)) :
    Word.idle.Sound Callable (fieldCalls field terms) := by
  induction terms with
  | nil => trivial
  | cons term terms ih =>
      cases terms with
      | nil => simpa [fieldCalls] using sound_fieldCall hsound term
      | cons next terms =>
          have hword : Word.idle.after (codeRow " or ".toList) = .spaced "or".toList := by
            decide
          have hor : Word.idle.Sound Callable (codeRow " or ".toList) :=
            Word.sound_of_no_paren _ (by simp [codeRow])
          rw [fieldCalls_cons, List.append_assoc, Word.sound_append, Word.sound_append,
            after_fieldCall, hword, Word.sound_spaced_iff]
          exact ⟨sound_fieldCall hsound term, hor, fun _ => by decide +kernel, ih⟩

theorem sound_expansion (terms : List (List Char)) {word : Word}
    (hword : ∀ run ∈ word.pending?, Callable run) :
    word.Sound Callable (expansion field terms) := by
  rw [expansion, List.append_assoc]
  refine ⟨fun _ => hword, ?_⟩
  rw [Word.step_open]
  change Word.idle.Sound Callable (fieldCalls field terms ++ codeRow [')'])
  rw [Word.sound_append]
  exact ⟨sound_fieldCalls hsound terms, Word.sound_of_no_paren _ (by simp [codeRow])⟩

end Field

/-! ## Searches -/

/-- A search that calls can stand for behind `before`: the search and its field are sealed, the stage
has started, and a parenthesis there calls a known word, if it calls one. -/
structure Fitting (before : List Cell) (found : List Char) : Prop where
  search : Sealed found
  field : ∀ field ∈ path? found, Sealed field
  inside : insideAfter false before = true
  callable : ∀ run ∈ (Word.idle.after before).pending?, Callable run

instance (before : List Cell) (found : List Char) : Decidable (Fitting before found) :=
  decidable_of_iff (Sealed found ∧ (∀ field ∈ path? found, Sealed field) ∧
      insideAfter false before = true ∧ ∀ run ∈ (Word.idle.after before).pending?, Callable run)
    ⟨fun h => ⟨h.1, h.2.1, h.2.2.1, h.2.2.2⟩, fun h => ⟨h.search, h.field, h.inside, h.callable⟩⟩

theorem Fitting.exchange {before part : List Cell} {field content replacement : List Char}
    (h : Fitting before (text part)) (hsearch : IsSearch field content (text part))
    (halone : cells (text part) = part)
    (hexpand : expand? field (terms content) = some replacement) :
    Exchange before part (cells replacement) := by
  obtain ⟨rest, hfound, hstops, hpath⟩ := hsearch.path?
  obtain ⟨hclosed, hwhole, hpaired⟩ := h.field field hpath
  have hcells := (settles_expand? hsearch.field_path hclosed hexpand).cells_eq
  have hpart := h.search.whole
  have hbalance := h.search.paired
  rw [halone] at hpart hbalance
  have hlast (terms : List (List Char)) :
      (⟨')', .code⟩ : Cell) ∈ (expansion field terms).getLast? := List.getLast?_concat
  rw [hcells]
  refine ⟨h.inside, List.forall_mem_append.mpr ⟨hpart, isSeparator_expansion hwhole _⟩, ?_,
    ⟨_, hlast _, Word.ends_close, rfl⟩, fun pair => ?_, fun hsound => ?_⟩
  · obtain ⟨c, middle, htext, -⟩ := hsearch.ends
    have hend : (text part).getLast? = some '>' := by
      rw [htext, ← List.cons_append, List.getLast?_concat]
    rw [text, List.getLast?_map] at hend
    obtain ⟨cell, hcell, hchar⟩ := Option.map_eq_some_iff.mp hend
    exact ⟨cell, hcell, hchar ▸ ⟨by decide, by decide, by decide⟩⟩
  · rw [excess_expansion hpaired, hbalance]
  · have hfront : part = cells field ++ (scan field).final.paint rest := by
      rw [← halone, hfound]
      exact paint_cut _ field fun c hc => (hstops c hc).1
    rw [hfront, Word.sound_append] at hsound
    exact sound_expansion (sound_field hsearch.field_path hsound.1 .idle) _ h.callable

theorem Expands.exchanges {previous : Option Char} {row new : List Cell} {patch : Patch}
    (h : Expands previous row patch new) {s : Scanner} (hs : s.Paints row) {before : List Cell}
    (hfitting : ∀ (a b : Patch) found replacement, patch = a ++ .change found replacement :: b →
      Fitting (before ++ row.take a.before.length) found) : Exchanges before row new := by
  have htake (part row : List Cell) (a : Patch) {piece : Piece} (hpiece : piece.before = text part) :
      (part ++ row).take (Patch.before (piece :: a)).length = part ++ row.take a.before.length := by
    have hlength : (Patch.before (piece :: a)).length = part.length + a.before.length := by
      rw [Patch.before, List.flatMap_cons, List.length_append, hpiece, text, List.length_map]
      rfl
    rw [hlength, List.take_length_add_append]
  induction h generalizing s before with
  | nil => exact .nil
  | @pass previous cell row patch new hrest ih =>
      refine .keep (fun hname => ?_) (ih (paints_cons.mp hs).2 fun a b found replacement hpatch => ?_)
      · rcases hrest.name_eq_or with hsame | ⟨-, hpath, -⟩
        · exact hsame
        · simp [QuoteKey.isPathChar, hname] at hpath
      · have hfit := hfitting (.keep [cell.char] :: a) b found replacement (by rw [hpatch]; rfl)
        have hcell := htake [cell] row a (show Piece.before (.keep [cell.char]) = text [cell] from rfl)
        rw [List.singleton_append] at hcell
        rwa [hcell, ← List.append_assoc] at hfit
  | @leave previous part row patch new field content hsearch hrest ih =>
      refine Exchanges.keep_all (fun cell hcell => (hsearch.last cell hcell).1)
        (ih (paints_append.mp hs).2 fun a b found replacement hpatch => ?_)
      have hfit := hfitting (.keep (text part) :: a) b found replacement (by rw [hpatch]; rfl)
      rwa [htake part row a rfl, ← List.append_assoc] at hfit
  | @expand previous part row patch new field content replacement hsearch hexpand hcode _ hrest ih =>
      have halone : cells (text part) = part :=
        hsearch.alone (show s.Paints ([] ++ (part ++ row)) from hs) hcode
      have hfit : Fitting before (text part) := by
        have hfirst := hfitting [] patch (text part) replacement rfl
        simpa [Patch.before] using hfirst
      refine .swap (hfit.exchange hsearch halone hexpand)
        (ih (paints_append.mp hs).2 fun a b found other hpatch => ?_)
      have hfit := hfitting (.change (text part) replacement :: a) b found other (by rw [hpatch]; rfl)
      rwa [htake part row a rfl, ← List.append_assoc] at hfit

theorem wellFormed_after {query : List Char} (h : WellFormed query)
    (hfitting : ∀ front found replacement back,
      (patch query).Rewrites front found replacement back →
        Fitting ((cells query).take front.length) found) :
    WellFormed (patch query).after := by
  obtain ⟨new, hnew, hcells⟩ := cells_after_patch fun found replacement hmem => by
    obtain ⟨front, back, hrewrites⟩ := Patch.exists_rewrites hmem
    have hfit := hfitting front found replacement back hrewrites
    exact ⟨(portable_of_rewrites hrewrites).1 hfit.search.closed,
      (replacement_of_rewrites hrewrites hfit.search.whole fun field hfield =>
        (hfit.field field hfield).closed).1⟩
  refine h.exchange (hcells ▸ hnew.exchanges (paints_cells query) fun a b found replacement hpatch => ?_)
  exact hfitting a.before found replacement b.before ⟨a, b, hpatch, rfl, rfl⟩

end ExpandTerms

end OpalRepair
