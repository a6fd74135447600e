import Mathlib
import OpalRepair.Proofs.Quoting.Again
import OpalRepair.Proofs.Searching
import OpalRepair.Proofs.Selection

/-!
# Calm rows

A row is calm if a pass has nothing to do at any of its places.  A pass reads from a place on no
further than up to the end of a path, a parenthesis behind it or the end of a search term, so the
parts of a calm row can be put elsewhere and stay calm there.
-/

namespace OpalRepair

open Query Text

namespace Query

/-! ## Places -/

/-- There is nothing to do at the places of a row between `previous` and `behind`. -/
def Calm (marks : Option Char → List Cell → Bool) : Option Char → List Cell → List Cell → Prop
  | _, [], _ => True
  | previous, cell :: row, behind =>
    marks previous (cell :: (row ++ behind)) = false ∧ Calm marks (some cell.char) row behind

instance decidableCalm (marks : Option Char → List Cell → Bool) :
    ∀ previous row behind, Decidable (Calm marks previous row behind)
  | _, [], _ => .isTrue trivial
  | _, cell :: row, behind =>
    have := decidableCalm marks (some cell.char) row behind
    inferInstanceAs (Decidable (_ ∧ _))

def StartsPath (previous : Option Char) : Prop :=
  ∀ c ∈ previous, isWordChar c = false ∧ c ≠ '.'

theorem startsPath_iff (previous : Option Char) : StartsPath previous ↔
    joinsWord previous = false ∧ previous.any QuoteKey.isPathChar = false := by
  cases previous with
  | none => simp [StartsPath, joinsWord]
  | some c =>
      have hname : isWordChar c = false → isNameChar c = false := fun hword => by
        by_contra hname
        simp [isWordChar_of_isNameChar (by simpa using hname)] at hword
      simp only [StartsPath, Option.mem_def, Option.some.injEq, forall_eq', joinsWord,
        Option.any_some, QuoteKey.isPathChar, Bool.or_eq_false_iff, beq_eq_false_iff_ne]
      exact ⟨fun h => ⟨h.1, hname h.1, h.2⟩, fun h => ⟨h.1, h.2.2⟩⟩

end Query

/-- The characters of a term that stands alone: no blank, bracket, quote, comma or pipe. -/
def ExpandTerms.isTermChar (c : Char) : Bool := !isBlank c && !"<>(),|\"".toList.contains c

namespace Query

/-- A text in front of which nothing is called, no bracket is opened and no term is closed. -/
structure Blunt (behind : List Char) : Prop where
  next : ∀ c ∈ (trimStart behind).head?, c ≠ '(' ∧ c ≠ '<'
  term : (behind.dropWhile ExpandTerms.isTermChar).head? ≠ some '>'

structure Parted (row behind : List Cell) : Prop where
  path : (∀ c ∈ (text row).getLast?, QuoteKey.isPathChar c = false) ∨
    ∀ c ∈ (text behind).head?, QuoteKey.isPathChar c = false
  blunt : Blunt (text behind)

instance : DecidablePred StartsPath := fun previous =>
  decidable_of_iff _ (startsPath_iff previous).symm

/-- What is marked starts with a name that no path leads to, or with a tilde, and does not depend on
what stands behind a part. -/
structure Local (marks : Option Char → List Cell → Bool) : Prop where
  previous {before before' cell row} :
    StartsPath before ∧ StartsPath before' ∨ isNameChar cell.char = false →
      marks before (cell :: row) = marks before' (cell :: row)
  start {previous cell row} : isNameChar cell.char = false → cell.char ≠ '~' →
    marks previous (cell :: row) = false
  inner {c cell row} : isNameChar c = true → isNameChar cell.char = true →
    marks (some c) (cell :: row) = false
  name {previous name behind} : name ≠ [] → (∀ c ∈ name, isNameChar c = true) →
    (∀ c ∈ (text behind).head?, QuoteKey.isPathChar c = false) →
    skipTo? '(' (text behind) = none ∨
      Vocabulary.metricSelectors.contains (String.ofList name) = false →
    marks previous (codeRow name ++ behind) = false
  part {previous row behind behind'} : row ≠ [] → Parted row behind → Parted row behind' →
    marks previous (row ++ behind) = false → marks previous (row ++ behind') = false

/-- Moreover, a parenthesis behind a row marks nothing in it, and in literals nothing is marked. -/
structure Framed (marks : Option Char → List Cell → Bool) : Prop extends Local marks where
  paren {previous row behind rest} : row ≠ [] → Parted row behind →
    (∀ c ∈ (text row).getLast?, QuoteKey.isPathChar c = false) →
    marks previous (row ++ behind) = false → marks previous (row ++ ⟨'(', .code⟩ :: rest) = false
  literal {previous cell content quote behind} : cell.isLiteral = true → '<' ∉ text content →
    quote.char = '"' → marks previous (cell :: (content ++ quote :: behind)) = false

section Calm

variable {marks : Option Char → List Cell → Bool} {before : Option Char}
  {a b row behind : List Cell}

theorem calm_append : Calm marks before (a ++ b) behind ↔
    Calm marks before a (b ++ behind) ∧ Calm marks ((text a).getLast?.or before) b behind := by
  induction a generalizing before with
  | nil => simp [Calm]
  | cons cell a ih =>
      rw [List.cons_append, Calm, Calm, ih, text_cons, getLast?_cons_or,
        List.append_assoc, and_assoc]

theorem Parted.tail {cell : Cell} (h : Parted (cell :: row) behind) : Parted row behind where
  path := h.path.imp_left fun hlast c hc => by
    refine hlast c ?_
    rw [text_cons, List.getLast?_cons, Option.mem_def.mp hc]
    rfl
  blunt := h.blunt

theorem Calm.part (hlocal : Local marks) (h : Calm marks before row behind)
    (hbehind : Parted row behind) {behind' : List Cell} (hbehind' : Parted row behind') :
    Calm marks before row behind' := by
  induction row generalizing before with
  | nil => trivial
  | cons cell row ih =>
      exact ⟨hlocal.part (List.cons_ne_nil cell row) hbehind hbehind' h.1,
        ih h.2 hbehind.tail hbehind'.tail⟩

theorem Calm.previous (hlocal : Local marks) (h : Calm marks before row behind)
    {before' : Option Char}
    (hbefore : StartsPath before ∧ StartsPath before' ∨
      ∀ c ∈ (text row).head?, isNameChar c = false) : Calm marks before' row behind := by
  cases row with
  | nil => trivial
  | cons cell row =>
      refine ⟨?_, h.2⟩
      rw [← hlocal.previous (hbefore.imp_right fun hname => hname cell.char rfl)]
      exact h.1

theorem calm_plain (hlocal : Local marks)
    (h : ∀ cell ∈ row, isNameChar cell.char = false ∧ cell.char ≠ '~') :
    Calm marks before row behind := by
  induction row generalizing before with
  | nil => trivial
  | cons cell row ih =>
      obtain ⟨hcell, hrow⟩ := List.forall_mem_cons.mp h
      exact ⟨hlocal.start hcell.1 hcell.2, ih hrow⟩

theorem calm_name (hlocal : Local marks) {name : List Char}
    (hname : ∀ c ∈ name, isNameChar c = true)
    (hpath : ∀ c ∈ (text behind).head?, QuoteKey.isPathChar c = false)
    (hcall : skipTo? '(' (text behind) = none ∨
      Vocabulary.metricSelectors.contains (String.ofList name) = false) :
    Calm marks before (codeRow name) behind := by
  cases name with
  | nil => trivial
  | cons c name =>
      refine ⟨hlocal.name (List.cons_ne_nil c name) hname hpath hcall, ?_⟩
      obtain ⟨hc, hrest⟩ := List.forall_mem_cons.mp hname
      clear hcall hname
      -- Inside of a name nothing starts.
      induction name generalizing c with
      | nil => trivial
      | cons d name ih =>
          obtain ⟨hd, hrest⟩ := List.forall_mem_cons.mp hrest
          exact ⟨hlocal.inner hc hd, ih d hd hrest⟩

/-- A text of names that select no metric, each with other characters behind it. -/
def isQuiet (words : List (String × String)) : Bool :=
  words.all fun word => word.1.toList.all isNameChar &&
    !Vocabulary.metricSelectors.contains word.1 && !word.2.toList.isEmpty &&
      word.2.toList.all fun c => !QuoteKey.isPathChar c && c != '~'

theorem calm_words (hlocal : Local marks) (words : List (String × String))
    (h : isQuiet words = true) :
    Calm marks before (codeRow (words.flatMap fun word => word.1.toList ++ word.2.toList))
      behind := by
  induction words generalizing before with
  | nil => trivial
  | cons word words ih =>
      rw [isQuiet, List.all_cons, Bool.and_eq_true] at h
      obtain ⟨hword, hrest⟩ := h
      simp only [Bool.and_eq_true, Bool.not_eq_true', List.all_eq_true, bne_iff_ne, ne_eq] at hword
      obtain ⟨⟨⟨hname, hselector⟩, hne⟩, hplain⟩ := hword
      have hrow (a b : List Char) : codeRow (a ++ b) = codeRow a ++ codeRow b := List.map_append
      rw [List.flatMap_cons, List.append_assoc, hrow, hrow, calm_append, calm_append]
      refine ⟨calm_name hlocal hname (fun c hc => ?_) (.inr ?_), calm_plain hlocal ?_, ih hrest⟩
      · rw [List.append_assoc, text_append, text_codeRow,
          List.head?_append_of_ne_nil _ (by simpa using hne)] at hc
        exact (hplain c (List.mem_of_mem_head? hc)).1
      · rwa [String.ofList_toList]
      · intro cell hcell
        obtain ⟨c, hc, rfl⟩ := List.mem_map.mp hcell
        exact ⟨(Bool.or_eq_false_iff.mp (hplain c hc).1).1, (hplain c hc).2⟩

end Calm

/-! ## Texts behind a part -/

theorem skipTo?_eq_none {c : Char} {text : List Char} :
    skipTo? c text = none ↔ (trimStart text).head? ≠ some c := by
  rw [skipTo?]
  cases trimStart text with
  | nil => simp
  | cons d rest => by_cases h : d = c <;> simp [h]

section Blunt

variable {behind : List Char}

theorem Blunt.skipTo? (h : Blunt behind) : skipTo? '(' behind = none ∧ skipTo? '<' behind = none :=
  ⟨skipTo?_eq_none.mpr fun hc => (h.next _ hc).1 rfl,
    skipTo?_eq_none.mpr fun hc => (h.next _ hc).2 rfl⟩

theorem term_of_first (h : ∀ c ∈ behind.head?, ExpandTerms.isTermChar c = false ∧ c ≠ '>') :
    (behind.dropWhile ExpandTerms.isTermChar).head? ≠ some '>' := by
  cases behind with
  | nil => simp
  | cons c rest =>
      obtain ⟨hterm, hclose⟩ := h c rfl
      simpa [List.dropWhile_cons, hterm] using hclose

theorem blunt_of_first
    (hfirst : ∀ c ∈ behind.head?, ExpandTerms.isTermChar c = false ∧ c ≠ '>')
    (hnext : ∀ c ∈ (trimStart behind).head?, c ≠ '(' ∧ c ≠ '<') : Blunt behind :=
  ⟨hnext, term_of_first hfirst⟩

theorem next_of_isNameChar {c : Char} (h : isNameChar c = true) (rest : List Char) :
    ∀ d ∈ (trimStart (c :: rest)).head?, d ≠ '(' ∧ d ≠ '<' := by
  intro d hd
  rw [trimStart, List.dropWhile_cons_of_neg (by simp [isBlank_of_isNameChar h])] at hd
  obtain rfl := Option.some.inj hd
  constructor <;> rintro rfl <;> exact absurd h (by decide)

theorem isBlank_or_next {c : Char} (hc : c ∈ behind.head?) :
    isBlank c = true ∨ c ∈ (trimStart behind).head? := by
  cases behind with
  | nil => simp at hc
  | cons d rest =>
      obtain rfl := Option.some.inj hc
      cases hblank : isBlank d <;> simp [trimStart, hblank]

theorem not_isTermChar_of_isBlank {c : Char} (h : isBlank c = true) :
    ExpandTerms.isTermChar c = false ∧ c ≠ '>' := by
  refine ⟨by simp [ExpandTerms.isTermChar, h], ?_⟩
  rintro rfl
  exact absurd h (by decide)

theorem not_isPathChar_of_isBlank {c : Char} (h : isBlank c = true) :
    QuoteKey.isPathChar c = false := by
  rw [QuoteKey.isPathChar, isNameChar_of_isBlank h, Bool.false_or, beq_eq_false_iff_ne]
  rintro rfl
  exact absurd h (by decide)

/-- Characters that stand behind a part: they belong to no path and to no term. -/
def stops : List Char := ")|,".toList

theorem of_mem_stops {c : Char} (h : c ∈ stops) : ExpandTerms.isTermChar c = false ∧ c ≠ '>' ∧
    c ≠ '(' ∧ c ≠ '<' ∧ QuoteKey.isPathChar c = false ∧ isBlank c = false := by
  rcases (by simpa [stops] using h : c = ')' ∨ c = '|' ∨ c = ',') with rfl | rfl | rfl <;> decide

end Blunt

theorem parted_of_next {behind : List Cell} (h : ∀ c ∈ (trimStart (text behind)).head?, c ∈ stops)
    (row : List Cell) : Parted row behind where
  path := .inr fun c hc => (isBlank_or_next hc).elim not_isPathChar_of_isBlank fun hnext =>
    (of_mem_stops (h c hnext)).2.2.2.2.1
  blunt := by
    refine blunt_of_first (fun c hc => ?_) fun c hc => ?_
    · rcases isBlank_or_next hc with hblank | hnext
      · exact not_isTermChar_of_isBlank hblank
      · exact ⟨(of_mem_stops (h c hnext)).1, (of_mem_stops (h c hnext)).2.1⟩
    · exact ⟨(of_mem_stops (h c hc)).2.2.1, (of_mem_stops (h c hc)).2.2.2.1⟩

theorem parted_nil (row : List Cell) : Parted row [] := parted_of_next (by simp [trimStart]) row

theorem parted_of_fence {behind : List Cell} (h : AlignMetric.Fence (text behind))
    (row : List Cell) : Parted row behind := by
  refine parted_of_next (fun c hc => ?_) row
  rcases h with hnil | ⟨rest, hpipe⟩
  · simp [hnil] at hc
  · obtain rfl : '|' = c := by simpa [hpipe] using hc
    decide

theorem parted_of_blanks {blanks behind : List Cell} {cell : Cell}
    (hblanks : ∀ cell ∈ blanks, isBlank cell.char = true) (hcell : cell.char ∈ stops)
    (row : List Cell) : Parted row (blanks ++ cell :: behind) := by
  refine parted_of_next (fun c hc => ?_) row
  rw [text_append, trimStart, List.dropWhile_append_of_pos (forall_mem_text hblanks), text_cons,
    List.dropWhile_cons_of_neg (by simp [(of_mem_stops hcell).2.2.2.2.2])] at hc
  rwa [← Option.some.inj hc]

theorem parted_of_stop {behind : List Cell} {cell : Cell} (hcell : cell.char ∈ stops)
    (row : List Cell) : Parted row (cell :: behind) :=
  parted_of_blanks (List.forall_mem_nil _) hcell row

end Query

end OpalRepair
