import Mathlib
import OpalRepair.Proofs.Clause.Checks
import OpalRepair.Proofs.Dropping.Accepted
import OpalRepair.Proofs.Quoting.Rows
import OpalRepair.Proofs.Sorting.Key

/-!
# Searches for several terms

A search for terms between angle brackets becomes one call a term, and each term a string.  Three
rules have to agree on where a term ends: how a text is cut into terms, how a term is escaped and
how the scanner reads a string.  They do, whatever stands between the brackets.

Main statement: `expandTerms_spells`.
-/

namespace OpalRepair

open Query Text

/-! ## Rows of code and literals -/

namespace Query

/-- The literals of a row in order: the delimiter that opens each, and what it holds. -/
def literals : List Cell → List (Char × List Char)
  | [] => []
  | cell :: row =>
    if cell.role = .opening then
      (cell.char, text (row.takeWhile (·.role == .content))) :: literals row
    else literals row

def unescape : List Char → List Char
  | [] => []
  | [c] => [c]
  | c :: d :: rest => if c = '\\' then d :: unescape rest else c :: unescape (d :: rest)

theorem literals_append {run : List Cell} (hrun : ∀ cell ∈ run, cell.role ≠ .opening)
    (rest : List Cell) : literals (run ++ rest) = literals rest := by
  induction run with
  | nil => rfl
  | cons cell run ih =>
      obtain ⟨hcell, hrun⟩ := List.forall_mem_cons.mp hrun
      rw [List.cons_append, literals, if_neg hcell, ih hrun]

theorem literals_literalRow (kind : Literal) (content : List Char) (rest : List Cell) :
    literals (literalRow kind content ++ rest) = (kind.delimiter, content) :: literals rest := by
  have hcontent : ∀ cell ∈ contentRow content, (cell.role == .content) = true := by
    intro cell hcell
    obtain ⟨c, -, rfl⟩ := List.mem_map.mp hcell
    rfl
  have hinside : ∀ cell ∈ contentRow content ++ [⟨kind.delimiter, .closing⟩],
      cell.role ≠ .opening := by
    intro cell hcell
    rcases List.mem_append.mp hcell with hcell | hcell
    · simp [beq_iff_eq.mp (hcontent cell hcell)]
    · simp [List.mem_singleton.mp hcell]
  have htake : (contentRow content ++ [Cell.mk kind.delimiter .closing] ++ rest).takeWhile
      (·.role == .content) = contentRow content := by
    rw [List.append_assoc, List.takeWhile_append_of_pos hcontent]
    simp
  rw [literalRow, List.cons_append, literals, if_pos rfl, htake, literals_append hinside,
    text_contentRow]

theorem role_codeRow {part : List Char} {cell : Cell} (h : cell ∈ codeRow part) :
    cell.role = .code := by
  obtain ⟨c, -, rfl⟩ := List.mem_map.mp h
  rfl

theorem literals_codeRow (part : List Char) (rest : List Cell) :
    literals (codeRow part ++ rest) = literals rest :=
  literals_append (fun cell hcell => by simp [role_codeRow hcell]) rest

theorem countP_isQuote_codeRow (part : List Char) : (codeRow part).countP Cell.isQuote = 0 :=
  List.countP_eq_zero.mpr fun cell hcell => by simp [Cell.isQuote, role_codeRow hcell]

theorem countP_isQuote_literalRow (content : List Char) :
    (literalRow .double content).countP Cell.isQuote = 2 := by
  have hcontent : (contentRow content).countP Cell.isQuote = 0 := by
    refine List.countP_eq_zero.mpr fun cell hcell => ?_
    obtain ⟨c, -, rfl⟩ := List.mem_map.mp hcell
    simp [Cell.isQuote]
  rw [literalRow, List.countP_cons, List.countP_append, hcontent]
  rfl

theorem flat_codeRow {part : List Char} (hpart : ∀ c ∈ part, c ∉ special) {cell : Cell}
    (h : cell ∈ codeRow part) : cell.opens = false ∧ cell.closes = false := by
  obtain ⟨c, hc, rfl⟩ := List.mem_map.mp h
  exact flat_of_not_isDelimiter (.inl (not_isDelimiter_of_bland (hpart c hc)))

theorem unescape_cons {c : Char} (hc : c ≠ '\\') (rest : List Char) :
    unescape (c :: rest) = c :: unescape rest := by
  cases rest with
  | nil => rfl
  | cons d rest => rw [unescape, if_neg hc]

end Query

namespace ExpandTerms

/-! ## Terms -/

/-- Whether a place is inside double quotes: an odd number of them precedes it. -/
def isQuoted (front : List Char) : Bool := front.count '"' % 2 == 1

theorem isQuoted_quote (front : List Char) : isQuoted (front ++ ['"']) = !isQuoted front := by
  rcases Nat.mod_two_eq_zero_or_one (front.count '"') with h | h <;>
    simp [isQuoted, Nat.add_mod, h]

theorem isQuoted_other {c : Char} (hc : c ≠ '"') (front : List Char) :
    isQuoted (front ++ [c]) = isQuoted front := by
  simp [isQuoted, hc]

/-- Whether `c` stays behind `front`.  Double quotes go, and so do the blanks outside of them. -/
def stays (front : List Char) (c : Char) : Bool := c != '"' && (!isBlank c || isQuoted front)

def bareFrom (front : List Char) : List Char → List Char
  | [] => []
  | c :: rest =>
    if stays front c then c :: bareFrom (front ++ [c]) rest else bareFrom (front ++ [c]) rest

def bare (content : List Char) : List Char := bareFrom [] content

theorem flatten_termsFrom (current front content : List Char) :
    (termsFrom current (isQuoted front) content).flatten = current ++ bareFrom front content := by
  induction content generalizing current front with
  | nil => simp [termsFrom, bareFrom]
  | cons c content ih =>
      have hrest (current : List Char) := ih current (front ++ [c])
      rw [termsFrom, bareFrom]
      by_cases hquote : c = '"'
      · subst hquote
        rw [isQuoted_quote] at hrest
        cases hquoted : isQuoted front with
        | false =>
            rw [hquoted, Bool.not_false] at hrest
            simp [stays, hrest]
        | true =>
            rw [hquoted, Bool.not_true] at hrest
            simp [stays, hrest]
      · rw [isQuoted_other hquote] at hrest
        cases hquoted : isQuoted front <;> cases hblank : isBlank c <;> rw [hquoted] at hrest <;>
          simp [stays, hquote, hblank, hquoted, hrest]

theorem flatten_terms (content : List Char) : (terms content).flatten = bare content := by
  rw [terms, List.flatten_filter_not_isEmpty]
  exact flatten_termsFrom [] [] content

/-! ## Strings -/

def escape (term : List Char) : List Char :=
  term.flatMap fun c => if c = '\\' ∨ c = '"' then ['\\', c] else [c]

theorem quote_eq (term : List Char) : quote term = '"' :: (escape term ++ ['"']) := rfl

theorem unescape_escape (term : List Char) : unescape (escape term) = term := by
  induction term with
  | nil => rfl
  | cons c term ih =>
      rw [escape, List.flatMap_cons, ← escape]
      split_ifs with hc
      · rw [List.cons_append, List.singleton_append, unescape, if_pos rfl, ih]
      · rw [List.singleton_append, unescape_cons fun h => hc (.inl h), ih]

open Scanner

theorem reads_escape (last : Option Char) (term : List Char) :
    (atLiteral .double last).Consumes (escape term) (contentRow (escape term))
      (atLiteral .double (term.foldl significant last)) := by
  induction term generalizing last with
  | nil => exact .nil _
  | cons c term ih =>
      rw [escape, List.flatMap_cons, ← escape]
      split_ifs with hc
      · have hescaped : Consumes ⟨.inside .double, true, last⟩ (c :: escape term)
            (contentRow (c :: escape term))
            (atLiteral .double ((c :: term).foldl significant last)) :=
          .cons (fun _ => rfl) (ih _)
        exact .cons (fun _ => rfl) hescaped
      · have hback : c ≠ '\\' := fun h => hc (.inl h)
        have hquote : c ≠ Literal.double.delimiter := fun h => hc (.inr h)
        refine .cons (fun _ => ?_) (ih _)
        simp [step, atLiteral, hback, hquote]

theorem reads_quote (last : Option Char) (term : List Char) :
    (atCode last).Consumes (quote term) (literalRow .double (escape term)) (atCode (some '"')) := by
  have hclose (last : Option Char) : (atLiteral .double last).Consumes ['"'] [⟨'"', .closing⟩]
      (atCode (some '"')) := .cons (fun _ => rfl) (.nil _)
  rw [quote_eq]
  exact .cons (fun _ => rfl) ((reads_escape _ term).append (hclose _))

/-! ## Calls -/

abbrev Identifier := Lexeme isNameStart isNameChar

def dottedPath (first : Identifier) (more : List Identifier) : List Char :=
  first.text ++ dots (more.map Lexeme.text)

theorem fieldPath_dottedPath (first : Identifier) (more : List Identifier) :
    FieldPath (dottedPath first more) := by
  refine .intro first.head_mem first.tail_mem fun segment hsegment => ?_
  obtain ⟨name, -, rfl⟩ := List.mem_map.mp hsegment
  exact .name name.head_mem name.tail_mem

theorem isPathChar_dottedPath (first : Identifier) (more : List Identifier) :
    ∀ c ∈ dottedPath first more, QuoteKey.isPathChar c = true := by
  have hname (name : Identifier) : ∀ c ∈ name.text, QuoteKey.isPathChar c = true := by
    intro c hc
    have hchar : isNameChar c = true :=
      Lexeme.forall_mem (fun _ => isNameChar_of_isNameStart) (fun _ h => h) name c hc
    simp [QuoteKey.isPathChar, hchar]
  intro c hc
  simp only [dottedPath, dots, List.mem_append, List.mem_flatMap, List.mem_map, List.mem_cons] at hc
  rcases hc with hc | ⟨segment, ⟨name, -, rfl⟩, rfl | hc⟩
  · exact hname first c hc
  · rfl
  · exact hname name c hc

def callRow (field term : List Char) : List Cell :=
  codeRow ("contains(".toList ++ field ++ ", ".toList) ++ literalRow .double (escape term) ++
    codeRow [')']

def callsRow (field : List Char) (terms : List (List Char)) : List Cell :=
  List.intercalate (codeRow " or ".toList) (terms.map (callRow field))

/-- A row that leaves no parenthesis open and whose literals are strings, one for each of `terms`.
If there are any, they stand in parentheses. -/
structure Encodes (terms : List (List Char)) (row : List Cell) : Prop where
  literals : ∀ rest, literals (row ++ rest) =
    terms.map (fun term => ('"', escape term)) ++ literals rest
  quotes : row.countP Cell.isQuote = 2 * terms.length
  whole : ∀ cell ∈ row, cell.isSeparator = false
  level : ∀ depth, depthAfter depth row = depth
  nesting : ∀ depth, nestingFrom depth row = if terms.isEmpty then depth else depth + 1

theorem Encodes.append {terms terms' : List (List Char)} {a b : List Cell} (ha : Encodes terms a)
    (hb : Encodes terms' b) : Encodes (terms ++ terms') (a ++ b) where
  literals rest := by simp [ha.literals, hb.literals]
  quotes := by
    rw [List.countP_append, ha.quotes, hb.quotes, List.length_append]
    omega
  whole := List.forall_mem_append.mpr ⟨ha.whole, hb.whole⟩
  level depth := by rw [depthAfter_append, ha.level, hb.level]
  nesting depth := by
    rw [nestingFrom_append, ha.level, ha.nesting, hb.nesting]
    cases terms <;> cases terms' <;> simp

/-- A query of one stage whose literals are strings, which stand for `terms` in order. -/
structure Spells (terms : List (List Char)) (query : List Char) : Prop where
  stage : split query = [query]
  closed : (scan query).openLiteral = none
  quotes : (scan query).doubleQuotes = 2 * terms.length
  nesting : nestingDepth (cells query) = 2
  literals : (literals (cells query)).map (fun literal => (literal.1, unescape literal.2)) =
    terms.map fun term => ('"', term)

def filtered (field : List Char) (terms : List (List Char)) : List Char :=
  "filter (".toList ++ List.intercalate " or ".toList (terms.map (containsCall field)) ++ [')']

def filteredRow (field : List Char) (terms : List (List Char)) : List Cell :=
  codeRow "filter (".toList ++ callsRow field terms ++ codeRow [')']

section Calls

variable {field : List Char} (hfield : ∀ c ∈ field, QuoteKey.isPathChar c = true)
include hfield

theorem reads_containsCall (last : Option Char) (term : List Char) :
    (atCode last).Consumes (containsCall field term) (callRow field term) (atCode (some ')')) := by
  have hfront : ∀ c ∈ "contains(".toList ++ field ++ ", ".toList, Plain c ∧ c ≠ '|' := by
    rw [List.forall_mem_append, List.forall_mem_append]
    refine ⟨⟨show (Part.code "contains(".toList).Plain by decide, fun c hc => ?_⟩,
      show (Part.code ", ".toList).Plain by decide⟩
    have hsolid := QuoteKey.solid_of_isPathChar (hfield c hc)
    exact ⟨hsolid.1, hsolid.2.2⟩
  exact ((reads_code last hfront).append (reads_quote _ term)).append
    (reads_code (some '"') (show (Part.code [')']).Plain by decide))

theorem reads_calls (last : Option Char) {terms : List (List Char)} (hne : terms ≠ []) :
    (atCode last).Consumes (List.intercalate " or ".toList (terms.map (containsCall field)))
      (callsRow field terms) (atCode (some ')')) := by
  induction terms generalizing last with
  | nil => exact absurd rfl hne
  | cons term terms ih =>
      have hcall := reads_containsCall hfield last term
      rw [callsRow]
      cases terms with
      | nil => simpa only [List.map_cons, List.map_nil, List.intercalate_singleton] using hcall
      | cons next terms =>
          rw [List.map_cons, List.map_cons, List.map_cons, List.map_cons,
            List.intercalate_cons_cons, List.intercalate_cons_cons]
          have hor := reads_code (some ')') (show (Part.code " or ".toList).Plain by decide)
          exact (hcall.append hor).append (ih _ (List.cons_ne_nil next terms))

theorem encodes_call (term : List Char) : Encodes [term] (callRow field term) := by
  have hbrackets : brackets (callRow field term) = codeRow "()".toList := by
    have hnone : brackets (codeRow field) = [] := by
      refine List.filter_eq_nil_iff.mpr fun cell hcell => ?_
      have hflat := flat_codeRow (fun c hc => bland_of_class rfl (hfield c hc)) hcell
      simp [hflat]
    have happend (a b : List Char) : codeRow (a ++ b) = codeRow a ++ codeRow b := List.map_append
    rw [callRow, happend, happend, brackets_append, brackets_append, brackets_append,
      brackets_append, hnone, Clause.brackets_literalRow]
    rfl
  have hparens (depth : Nat) : depthAfter depth (codeRow "()".toList) = depth ∧
      nestingFrom depth (codeRow "()".toList) = depth + 1 := by
    refine ⟨rfl, ?_⟩
    change max depth (max (depth + 1) depth) = depth + 1
    omega
  constructor
  · intro rest
    rw [callRow, List.append_assoc, List.append_assoc, literals_codeRow, literals_literalRow,
      literals_codeRow]
    rfl
  · rw [callRow, List.countP_append, List.countP_append, countP_isQuote_codeRow,
      countP_isQuote_codeRow, countP_isQuote_literalRow]
    rfl
  · rw [callRow, List.forall_mem_append, List.forall_mem_append]
    exact ⟨⟨isSeparator_codeRow, fun _ hcell =>
      not_isSeparator_of_isLiteral (isLiteral_literalRow hcell)⟩, isSeparator_codeRow⟩
  · intro depth
    rw [← (nesting_brackets depth _).1, hbrackets, (hparens depth).1]
  · intro depth
    rw [← (nesting_brackets depth _).2, hbrackets, (hparens depth).2]
    rfl

theorem encodes_calls (terms : List (List Char)) : Encodes terms (callsRow field terms) := by
  induction terms with
  | nil => exact ⟨fun _ => rfl, rfl, by simp [callsRow], fun _ => rfl, fun _ => rfl⟩
  | cons term terms ih =>
      have hcall := encodes_call hfield term
      have hor : Encodes [] (codeRow " or ".toList) := by
        have hbland : isBland " or ".toList = true := rfl
        have hnesting := nesting_of_flat fun _ => flat_codeRow (bland_of_isBland hbland)
        exact ⟨literals_codeRow _, countP_isQuote_codeRow _, isSeparator_codeRow,
          fun depth => (hnesting depth).1, fun depth => (hnesting depth).2⟩
      rw [callsRow] at ih ⊢
      cases terms with
      | nil => simpa only [List.map_cons, List.map_nil, List.intercalate_singleton] using hcall
      | cons next terms =>
          rw [List.map_cons, List.map_cons, List.intercalate_cons_cons]
          exact (hcall.append hor).append ih

theorem scan_filtered {terms : List (List Char)} (hne : terms ≠ []) :
    cells (filtered field terms) = filteredRow field terms ∧
      (scan (filtered field terms)).final.mode = .code := by
  have hfront := reads_code none (show (Part.code "filter (".toList).Plain by decide)
  have hback := reads_code (some ')') (show (Part.code [')']).Plain by decide)
  obtain ⟨hpaint, hfinish⟩ := ((hfront.append (reads_calls hfield _ hne)).append hback) []
  rw [List.append_nil] at hpaint hfinish
  refine ⟨hpaint.trans (List.append_nil _), ?_⟩
  change (Scanner.finish (atCode none) (filtered field terms)).mode = .code
  exact congrArg Scanner.mode hfinish

theorem layout_filteredRow (terms : List (List Char)) :
    Layout.ofCells (filteredRow field terms) = ⟨[], [⟨filteredRow field terms, []⟩]⟩ := by
  have hwhole : ∀ cell ∈ filteredRow field terms, cell.isSeparator = false := by
    rw [filteredRow, List.forall_mem_append, List.forall_mem_append]
    exact ⟨⟨isSeparator_codeRow, (encodes_calls hfield terms).whole⟩, isSeparator_codeRow⟩
  have hhead : ∃ cell ∈ (filteredRow field terms).head?, isBlank cell.char = false :=
    ⟨⟨'f', .code⟩, rfl, by decide⟩
  have hlast : ∃ cell ∈ (filteredRow field terms).getLast?, isBlank cell.char = false :=
    ⟨⟨')', .code⟩, List.getLast?_concat, by decide⟩
  have hcore := @Layout.foldr_cons_core [] (filteredRow field terms) [] (by simpa using hwhole)
    (by simp) (by simp) hhead hlast ⟨[], []⟩ (.inl rfl)
  rwa [List.nil_append, List.append_nil, List.nil_append] at hcore

theorem spells_filtered {terms : List (List Char)} (hne : terms ≠ []) :
    Spells terms (filtered field terms) := by
  obtain ⟨hcells, hmode⟩ := scan_filtered hfield hne
  have hencodes := encodes_calls hfield terms
  constructor
  · rw [split, layout, hcells, layout_filteredRow hfield, List.map_singleton, Stage.text,
      ← hcells, text_cells]
  · rw [openLiteral_eq_none_iff, hmode]
    simp
  · rw [doubleQuotes_eq]
    change (cells (filtered field terms)).countP Cell.isQuote = _
    rw [hcells, filteredRow, List.countP_append, List.countP_append, countP_isQuote_codeRow,
      countP_isQuote_codeRow, hencodes.quotes, Nat.zero_add, Nat.add_zero]
  · have hterms : terms.isEmpty = false := by simpa using hne
    have hfront : depthAfter 0 (codeRow "filter (".toList) = 1 ∧
        nestingFrom 0 (codeRow "filter (".toList) = 1 := ⟨rfl, rfl⟩
    rw [hcells, nestingDepth, filteredRow, nestingFrom_append, nestingFrom_append,
      depthAfter_append, hfront.1, hfront.2, hencodes.level, hencodes.nesting, hterms]
    rfl
  · have hend : literals (codeRow [')']) = [] := rfl
    rw [hcells, filteredRow, List.append_assoc, literals_codeRow, hencodes.literals]
    simp [hend, unescape_escape]

end Calls

/-! ## The pass -/

def searching (field content : List Char) : List Char :=
  "filter ".toList ++ (field ++ (" ~ <".toList ++ (content ++ ['>'])))

theorem toList_searching (field : List Char) (content : String) :
    ("filter " ++ String.ofList field ++ " ~ <" ++ content ++ ">").toList =
      searching field content.toList := by
  unfold searching
  simp

theorem clear_verb {c : Char} (hstart : isNameStart c = true) {row : List Cell}
    (hrow : (text row).head? = some c) (previous : Option Char) :
    Patch.Clear fragment? row previous (codeRow "filter ".toList) := by
  obtain ⟨rest, hrest⟩ := List.head?_eq_some_iff.mp hrow
  refine Patch.clear_of_read fragment?_eq_none (fun n hn => ?_) previous
  have hunmarked (mark : Char) (hmark : isNameStart mark = false) :
      Unmarked mark ((text (codeRow "filter ".toList)).drop n ++ text row) := by
    have hdrop : ((text (codeRow "filter ".toList)).drop n ++ text row).dropWhile isNameChar =
        ' ' :: text row := by
      have hlength : n < 7 := hn
      interval_cases n <;> rfl
    have hblank : isBlank c = false := (solid_of_isNameChar (isNameChar_of_isNameStart hstart)).2.1
    have hne : c ≠ mark := by
      rintro rfl
      simp [hstart] at hmark
    rw [Unmarked, hdrop, Word.skipTo?_cons_blank (by decide), hrest, Word.skipTo?_cons_other hblank,
      if_neg hne]
  exact search?_eq_none (hunmarked '.' (by decide)) (hunmarked '~' (by decide))

theorem patch_searching (first : Identifier) (more : List Identifier) {content : List Char}
    (hcontent : ∀ c ∈ content, c ≠ '<' ∧ c ≠ '>') :
    ∃ found, patch (searching (dottedPath first more) content) =
      Patch.keepAll (codeRow "filter ".toList) ++
        [match expand? (dottedPath first more) (terms content) with
          | none => .keep found
          | some replacement => .change found replacement] := by
  set field := dottedPath first more
  set search := field ++ (" ~ <".toList ++ (content ++ ['>']))
  obtain ⟨rest, hrest⟩ : ∃ rest, search = first.head :: rest := ⟨_, rfl⟩
  have hsolid := solid_of_isNameChar (isNameChar_of_isNameStart first.head_mem)
  -- The field starts in code, as the verb leaves nothing open.
  have hverb := reads_code none (show (Part.code "filter ".toList).Plain by decide) search
  obtain ⟨row, hrow⟩ : ∃ row, (atCode (some 'r')).paint search = ⟨first.head, .code⟩ :: row := by
    rw [hrest, paint, step_solid rfl hsolid]
    exact ⟨_, rfl⟩
  have hcells : cells (searching field content) =
      codeRow "filter ".toList ++ (⟨first.head, .code⟩ :: row) := hverb.1.trans (congrArg _ hrow)
  have htext : text (⟨first.head, .code⟩ :: row) = search := by rw [← hrow, text_paint]
  have hclear : Patch.Clear fragment? (⟨first.head, .code⟩ :: row) none
      (codeRow "filter ".toList) := clear_verb first.head_mem rfl none
  -- There the search is found, which ends with the query.
  have hpath : path? search = some field :=
    (fieldPath_dottedPath first more).path?_append fun c hc => by
      obtain rfl : ' ' = c := by simpa using hc
      decide
  have hfind : fragment? (some ' ') (⟨first.head, .code⟩ :: row ++ []) =
      some ⟨search.length - 1, expand? field (terms content)⟩ := by
    rw [List.append_nil, fragment?_code first.head_mem, htext, search?_field hpath hcontent]
    rfl
  have hlength : (⟨first.head, .code⟩ :: row : List Cell).length = search.length - 1 + 1 := by
    rw [← htext]
    simp [text]
  have hwalk := Patch.walk_found hfind hlength
  rw [List.append_nil, Patch.walk] at hwalk
  refine ⟨text ((⟨first.head, .code⟩ :: row).take (search.length - 1 + 1)), ?_⟩
  rw [patch, hcells, Patch.ofFragments, Patch.walk_clear hclear]
  exact congrArg _ hwalk

theorem apply_searching (context : Context) (first : Identifier) (more : List Identifier)
    {content : List Char} (hcontent : ∀ c ∈ content, c ≠ '<' ∧ c ≠ '>') {query : String}
    (hquery : query.toList = searching (dottedPath first more) content) :
    ((expandTerms.apply context query).fired = true ↔ 2 ≤ (terms content).length) ∧
      ((expandTerms.apply context query).fired = true →
        (expandTerms.apply context query).query.toList =
          filtered (dottedPath first more) (terms content)) := by
  obtain ⟨found, hpatch⟩ := patch_searching first more hcontent
  have hfired : (expandTerms.apply context query).fired = true ↔
      (patch query.toList).changes ≠ [] := Pass.fired_ofPatch ..
  have hafter : (expandTerms.apply context query).query.toList = (patch query.toList).after :=
    String.toList_ofList
  rw [hfired, hafter, hquery, hpatch, Patch.changes_append, Patch.changes_keepAll,
    Patch.after_append, Patch.after_keepAll, text_codeRow, expand?]
  split_ifs with hfew
  · have hnone : Patch.changes [Piece.keep found] = [] := rfl
    rw [hnone]
    exact ⟨iff_of_false (by simp) (Nat.not_le_of_lt hfew), by simp⟩
  · refine ⟨iff_of_true (by simp) (Nat.le_of_not_lt hfew), fun _ => ?_⟩
    unfold filtered
    simp

end ExpandTerms

/-- A search for the terms of a text without angle brackets is replaced exactly if there are several
terms.  The new query is one stage with parentheses two deep and with one string a term, which
holds the term; and the terms are the text without double quotes and without the blanks outside of
them. -/
theorem expandTerms_spells (context : Context) (first : ExpandTerms.Identifier)
    (more : List ExpandTerms.Identifier) {content : String}
    (hcontent : ∀ c ∈ content.toList, c ≠ '<' ∧ c ≠ '>') :
    let outcome := expandTerms.apply context
      ("filter " ++ String.ofList (ExpandTerms.dottedPath first more) ++ " ~ <" ++ content ++ ">")
    let terms := ExpandTerms.terms content.toList
    (outcome.fired = true ↔ 2 ≤ terms.length) ∧
      (outcome.fired = true → ExpandTerms.Spells terms outcome.query.toList) ∧
      terms.flatten = ExpandTerms.bare content.toList := by
  intro outcome terms
  obtain ⟨hfired, hquery⟩ := ExpandTerms.apply_searching context first more hcontent
    (ExpandTerms.toList_searching _ content)
  refine ⟨hfired, fun hchanged => ?_, ExpandTerms.flatten_terms _⟩
  have hmany : 2 ≤ terms.length := hfired.mp hchanged
  have hne : terms ≠ [] := List.ne_nil_of_length_pos (Nat.lt_of_lt_of_le Nat.two_pos hmany)
  rw [hquery hchanged]
  exact ExpandTerms.spells_filtered (ExpandTerms.isPathChar_dottedPath first more) hne

/-- A pipe and a backslash in double quotes are one term, and the last double quote stays open. -/
theorem expandTerms_spells_open :
    let first : ExpandTerms.Identifier := ⟨'a', ['b'], by decide, by simp; decide⟩
    let second : ExpandTerms.Identifier := ⟨'_', ['1'], by decide, by simp; decide⟩
    let content := "can't \"| \\\"/( \" x"
    let field := String.ofList (ExpandTerms.dottedPath first [second])
    let outcome := expandTerms.apply {} ("filter " ++ field ++ " ~ <" ++ content ++ ">")
    (∀ c ∈ content.toList, c ≠ '<' ∧ c ≠ '>') ∧ outcome.fired = true ∧
      ExpandTerms.Spells ["can't".toList, "| \\".toList, "/(".toList, " x".toList]
        outcome.query.toList := by
  intro first second content field outcome
  have hcontent : ∀ c ∈ content.toList, c ≠ '<' ∧ c ≠ '>' := by simp [content]
  have hterms : ExpandTerms.terms content.toList =
      ["can't".toList, "| \\".toList, "/(".toList, " x".toList] := by decide
  obtain ⟨hfired, hspells, -⟩ := expandTerms_spells {} first [second] hcontent
  have hchanged : outcome.fired = true := hfired.mpr (by rw [hterms]; decide)
  exact ⟨hcontent, hchanged, hterms ▸ hspells hchanged⟩

end OpalRepair
