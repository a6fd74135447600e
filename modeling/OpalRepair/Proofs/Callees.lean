import Mathlib
import OpalRepair.Check
import OpalRepair.Proofs.Bytes.Bracket
import OpalRepair.Proofs.Characters
import OpalRepair.Proofs.Reading
import OpalRepair.Proofs.Verdict

/-!
# Called words

A call is a whole word with a parenthesis behind it.  The calls of a query are described on its
text, without cells and without a search, and the check for functions is measured against them.

Main statement: `knownFunctions_refuses_first_unknown`.
-/

namespace OpalRepair

open Query Text Vocabulary

/-! ## Calls in a text -/

structure Text.WordRun (before word after : List Char) : Prop where
  nonempty : word ≠ []
  chars : ∀ c ∈ word, isWordChar c = true
  front : ∀ c ∈ before.getLast?, isWordChar c = false
  back : ∀ c ∈ after.head?, isWordChar c = false

/-- The query calls `word` behind `before`.  Where a word starts, not where it ends, decides whether
it stands in a literal. -/
structure Query.Calls (query before word : List Char) : Prop where
  run : ∃ blanks after, query = before ++ word ++ (blanks ++ '(' :: after) ∧ Blanks blanks ∧
    WordRun before word (blanks ++ '(' :: after)
  start : ∃ c ∈ word.head?, isAlphabetic c = true ∨ c = '_'
  code : (scan query).inLiteral (byteSize before) = false
  free : before.getLast? ≠ some '.'

theorem Text.back_of_blanks {blanks : List Char} (hblanks : Blanks blanks) (after : List Char) :
    ∀ c ∈ (blanks ++ '(' :: after).head?, isWordChar c = false := by
  cases blanks with
  | nil => simp; decide
  | cons b blanks => simpa using isWordChar_of_isBlank (hblanks b (by simp))

/-- Functions, verbs and, in any ASCII case, the connectives may be called. -/
def Known (name : String) : Prop :=
  name ∈ functions ∨ name ∈ verbs ∨
    String.ofList (name.toList.map Char.toLower) ∈ ["and", "or", "not", "in"]

theorem isCallable_iff (name : String) : isCallable name = true ↔ Known name := by
  simp only [isCallable, Known, Bool.or_eq_true, List.contains_iff_mem, or_assoc]
  rfl

theorem nodup_hinted : (hints.flatMap Prod.fst).Nodup := by
  -- Numbers are compared in one step, strings byte by byte.
  refine .of_map (fun name => name.toByteArray.data.toList.foldl (256 * · + ·.toNat) 1) ?_
  decide

theorem hint?_eq_some_iff {name hint : String} :
    hint? name = some hint ↔ ∃ row ∈ hints, name ∈ row.1 ∧ row.2 = hint := by
  rw [hint?, Option.map_eq_some_iff]
  constructor
  · rintro ⟨row, hrow, rfl⟩
    exact ⟨row, List.mem_of_find?_eq_some hrow, by simpa using List.find?_some hrow, rfl⟩
  · rintro ⟨row, hrow, hname, rfl⟩
    obtain ⟨before, after, hsplit⟩ := List.append_of_mem hrow
    have hearlier : ∀ other ∈ before, name ∉ other.1 := by
      intro other hother hmem
      have hnodup := nodup_hinted
      rw [hsplit, List.flatMap_append, List.flatMap_cons, List.nodup_append] at hnodup
      exact hnodup.2.2 name (List.mem_flatMap.mpr ⟨other, hother, hmem⟩) name
        (List.mem_append_left _ hname) rfl
    refine ⟨row, ?_, rfl⟩
    rw [hsplit, List.find?_eq_some_iff_append]
    exact ⟨by simpa using hname, before, after, rfl, fun other hother => by
      simpa using hearlier other hother⟩

theorem hint?_eq_none_iff {name : String} : hint? name = none ↔ ∀ row ∈ hints, name ∉ row.1 := by
  simp [hint?]

/-- What is said about a function that is not known.  A hint leaves no room for suggestions. -/
structure Blames (settings : Settings) (name : String) (error : Error) : Prop where
  hinted : ∀ row ∈ hints, name ∈ row.1 → error = .unknownFunction name (some row.2) []
  unhinted : (∀ row ∈ hints, name ∉ row.1) →
    error = .unknownFunction name none (suggest functions name settings.maxSuggestions)

theorem functionError?_eq_none_iff (settings : Settings) (name : String) :
    functionError? settings name = none ↔ Known name := by
  rw [functionError?, ← isCallable_iff]
  split <;> simp_all

theorem functionError?_eq_some_iff (settings : Settings) (name : String) (error : Error) :
    functionError? settings name = some error ↔ ¬ Known name ∧ Blames settings name error := by
  rw [functionError?, ← isCallable_iff]
  split
  · rename_i hknown
    simp [hknown]
  · rename_i hunknown
    rw [Option.some.injEq, and_iff_right hunknown]
    cases hhint : hint? name with
    | some hint =>
        obtain ⟨row, hrow, hname, rfl⟩ := hint?_eq_some_iff.mp hhint
        constructor
        · rintro rfl
          refine ⟨fun other hother hmem => ?_, fun hnone => absurd hname (hnone row hrow)⟩
          rw [Option.some.inj (hhint.symm.trans (hint?_eq_some_iff.mpr ⟨other, hother, hmem, rfl⟩))]
        · exact fun h => (h.hinted row hrow hname).symm
    | none =>
        have hnone := hint?_eq_none_iff.mp hhint
        constructor
        · rintro rfl
          exact ⟨fun row hrow hname => absurd hname (hnone row hrow), fun _ => rfl⟩
        · exact fun h => (h.unhinted hnone).symm

/-! ## Calls at sites -/

theorem Text.isWordChar_of_start {c : Char} (h : isAlphabetic c = true ∨ c = '_') :
    isWordChar c = true := by
  rcases h with h | rfl
  · exact isWordChar_of_isAlphabetic h
  · decide

theorem called_iff (row word : List Char) :
    (skipTo? '(' (row.dropWhile isWordChar)).map (fun _ => row.takeWhile isWordChar) = some word ↔
      (∀ c ∈ word, isWordChar c = true) ∧
        ∃ blanks after, row = word ++ (blanks ++ '(' :: after) ∧ Blanks blanks := by
  constructor
  · intro h
    obtain ⟨after, hskip, rfl⟩ := Option.map_eq_some_iff.mp h
    obtain ⟨blanks, hblanks, hdrop⟩ := skipTo?_eq hskip
    refine ⟨fun c hc => List.mem_takeWhile_imp hc, blanks, after, ?_, hblanks⟩
    rw [← hdrop, List.takeWhile_append_dropWhile]
  · rintro ⟨hword, blanks, after, rfl, hblanks⟩
    have hstop := back_of_blanks hblanks after
    rw [dropWhile_stop hword hstop, (takeWhile_eq_iff hword _).mpr ⟨_, rfl, hstop⟩,
      skipTo?_blanks hblanks (by decide), if_pos rfl, Option.map_some]

theorem calledWord?_cons (index : Nat) (previous : Option Char) (cell : Cell) (rest : List Cell) :
    calledWord? ⟨index, previous, cell :: rest⟩ =
      if !joinsWord previous && (isAlphabetic cell.char || cell.char == '_') && !cell.isLiteral
          && previous != some '.' then
        (skipTo? '(' ((text (cell :: rest)).dropWhile isWordChar)).map fun _ =>
          (text (cell :: rest)).takeWhile isWordChar
      else none := rfl

theorem calledWord?_eq_some_iff {query : List Char} {front rest : List Cell}
    (hcells : cells query = front ++ rest) (index : Nat) (word : List Char) :
    calledWord? ⟨index, (text front).getLast?, rest⟩ = some word ↔
      Calls query (text front) word := by
  have hquery : query = text front ++ text rest := by rw [← text_cells query, hcells, text_append]
  have hliteral : (scan query).inLiteral (byteSize (text front)) = rest.head?.any Cell.isLiteral :=
    Bytes.inLiteral_head front rest hcells
  constructor
  · intro h
    cases rest with
    | nil => simp [calledWord?] at h
    | cons cell rest =>
        rw [calledWord?_cons] at h
        split at h
        · rename_i hstarts
          simp only [Bool.and_eq_true, Bool.not_eq_true', bne_iff_ne] at hstarts
          obtain ⟨⟨⟨hjoins, hstart⟩, hcode⟩, hfree⟩ := hstarts
          obtain ⟨hchars, blanks, after, hrow, hblanks⟩ := (called_iff _ word).mp h
          have hhead : word.head? = some cell.char := by
            have hword : isWordChar cell.char = true := isWordChar_of_start (by simpa using hstart)
            obtain ⟨_, -, rfl⟩ := Option.map_eq_some_iff.mp h
            simp [hword]
          refine ⟨⟨blanks, after, ?_, hblanks, ?_, hchars, ?_, back_of_blanks hblanks after⟩,
            ⟨cell.char, hhead, by simpa using hstart⟩, hliteral.trans (by simpa using hcode), hfree⟩
          · rw [hquery, hrow, List.append_assoc]
          · rintro rfl
            simp at hhead
          · intro c hc
            simpa [joinsWord, Option.mem_def.mp hc] using hjoins
        · simp at h
  · rintro ⟨⟨blanks, after, hsplit, hblanks, hne, hchars, hfront, -⟩, ⟨c, hc, hstart⟩, hcode, hfree⟩
    have hrow : text rest = word ++ (blanks ++ '(' :: after) := by
      rw [hquery, List.append_assoc] at hsplit
      exact List.append_cancel_left hsplit
    obtain ⟨d, word, rfl⟩ := List.exists_cons_of_ne_nil hne
    obtain rfl : d = c := by simpa using hc
    obtain ⟨cell, rest, rfl, rfl, -⟩ := row_of_text_cons hrow
    have hjoins : joinsWord (text front).getLast? = false := by
      cases hlast : (text front).getLast? with
      | none => rfl
      | some b => exact hfront b hlast
    have hliteral : cell.isLiteral = false := by simpa [hcode] using hliteral.symm
    rw [calledWord?_cons, if_pos (by simpa [hjoins, hliteral, hfree] using hstart)]
    exact (called_iff _ _).mpr ⟨hchars, blanks, after, hrow, hblanks⟩

theorem exists_site_iff {query : List Char} {index : Nat} {word : List Char} :
    (∃ site ∈ sites (cells query), site.index = index ∧ calledWord? site = some word) ↔
      ∃ before, before.length = index ∧ Calls query before word := by
  constructor
  · rintro ⟨⟨_, _, rest⟩, hsite, rfl, hcalled⟩
    obtain ⟨front, hrow, -, hindex, hprevious⟩ := mem_sitesFrom.mp hsite
    simp only [Nat.zero_add, Option.or_none] at hrow hindex hprevious
    subst hindex hprevious
    exact ⟨text front, by simp [text], (calledWord?_eq_some_iff hrow _ word).mp hcalled⟩
  · rintro ⟨before, rfl, hcalls⟩
    obtain ⟨blanks, after, hquery, -, -⟩ := hcalls.run
    obtain ⟨front, rest, hcells, rfl, hrest⟩ :=
      row_of_text ((text_cells query).trans (hquery.trans (List.append_assoc ..)))
    refine ⟨⟨front.length, (text front).getLast?, rest⟩, mem_sitesFrom.mpr ?_, by simp [text],
      (calledWord?_eq_some_iff hcells _ word).mpr hcalls⟩
    exact ⟨front, hcells, by rintro rfl; simp at hrest, by simp, by simp⟩

/-! ## The first unknown function -/

/-- Where the items stand in the order of a key, the first of them that yields something is the one
in front of which none does. -/
theorem findSome?_eq_some_iff_of_pairwise {α β : Type} {key : α → Nat} {items : List α}
    (hitems : items.Pairwise fun a b => key a < key b) (find? : α → Option β) (found : β) :
    items.findSome? find? = some found ↔
      ∃ item ∈ items, find? item = some found ∧
        ∀ other ∈ items, key other < key item → find? other = none := by
  rw [List.findSome?_eq_some_iff]
  constructor
  · rintro ⟨front, item, back, rfl, hitem, hfront⟩
    obtain ⟨-, hback, -⟩ := List.pairwise_append.mp hitems
    refine ⟨item, by simp, hitem, fun other hother hlt => ?_⟩
    rcases List.mem_append.mp hother with hother | hother
    · exact hfront other hother
    · rcases List.mem_cons.mp hother with rfl | hother
      · omega
      · have := (List.pairwise_cons.mp hback).1 other hother
        omega
  · rintro ⟨item, hmem, hitem, hothers⟩
    obtain ⟨front, back, rfl⟩ := List.append_of_mem hmem
    refine ⟨front, item, back, rfl, hitem, fun other hother => hothers other (by simp [hother]) ?_⟩
    exact (List.pairwise_append.mp hitems).2.2 other hother item (by simp)

theorem refuseFirst_eq_error {α : Type} {find? : α → Option Error} {items : List α}
    {error : Error} :
    refuseFirst find? items = .error error ↔ items.findSome? find? = some error := by
  rw [refuseFirst]
  cases items.findSome? find? <;> simp

def siteError? (settings : Settings) (site : Site) : Option Error :=
  (calledWord? site).bind fun word => functionError? settings (String.ofList word)

theorem siteError?_eq_none_iff (settings : Settings) (site : Site) :
    siteError? settings site = none ↔
      ∀ word, calledWord? site = some word → Known (String.ofList word) := by
  simp only [siteError?, Option.bind_eq_none_iff, functionError?_eq_none_iff]

theorem knownFunctions_eq (settings : Settings) (query : List Char) :
    knownFunctions settings (scan query) =
      refuseFirst (siteError? settings) (sites (cells query)) := by
  have hfind (found : List Site) :
      (((found.filterMap calledWord?).map String.ofList).findSome? (functionError? settings)) =
        found.findSome? (siteError? settings) := by
    induction found with
    | nil => rfl
    | cons site found ih =>
        cases hword : calledWord? site with
        | none =>
            rw [List.filterMap_cons_none hword, List.findSome?_cons, siteError?, hword, ih]
            rfl
        | some word =>
            rw [List.filterMap_cons_some hword, List.map_cons, List.findSome?_cons,
              List.findSome?_cons, siteError?, hword, ih]
            rfl
  rw [knownFunctions, refuseFirst, refuseFirst, ← hfind]
  rfl

/-- The query calls `word` behind `before`, it is not known, and all words called further to the
left are. -/
structure Query.FirstUnknown (query before word : List Char) : Prop where
  calls : Calls query before word
  unknown : ¬ Known (String.ofList word)
  earlier : ∀ front name, Calls query front name → front.length < before.length →
    Known (String.ofList name)

/-- A query is refused for its functions exactly if it calls a word that is not known.  The first
such word is blamed. -/
theorem knownFunctions_refuses_first_unknown (settings : Settings) (query : String) :
    (knownFunctions settings (scan query.toList) = .ok () ↔
      ∀ before word, Calls query.toList before word → Known (String.ofList word)) ∧
    ∀ error, knownFunctions settings (scan query.toList) = .error error ↔
      ∃ before word, FirstUnknown query.toList before word ∧
        Blames settings (String.ofList word) error := by
  rw [knownFunctions_eq]
  constructor
  · rw [refuseFirst_eq_ok]
    constructor
    · intro h before word hcalls
      obtain ⟨site, hsite, -, hcalled⟩ := exists_site_iff.mpr ⟨before, rfl, hcalls⟩
      exact (siteError?_eq_none_iff settings site).mp (h site hsite) word hcalled
    · intro h site hsite
      refine (siteError?_eq_none_iff settings site).mpr fun word hcalled => ?_
      obtain ⟨before, -, hcalls⟩ := exists_site_iff.mp ⟨site, hsite, rfl, hcalled⟩
      exact h before word hcalls
  · intro error
    rw [refuseFirst_eq_error, sites, findSome?_eq_some_iff_of_pairwise (pairwise_sitesFrom _ _ _)]
    constructor
    · rintro ⟨site, hsite, herror, hothers⟩
      obtain ⟨word, hcalled, herror⟩ := Option.bind_eq_some_iff.mp herror
      obtain ⟨hunknown, hblames⟩ := (functionError?_eq_some_iff settings _ error).mp herror
      obtain ⟨before, hindex, hcalls⟩ := exists_site_iff.mp ⟨site, hsite, rfl, hcalled⟩
      refine ⟨before, word, ⟨hcalls, hunknown, fun front name hname hlt => ?_⟩, hblames⟩
      obtain ⟨other, hother, hfront, hcalled⟩ := exists_site_iff.mpr ⟨front, rfl, hname⟩
      exact (siteError?_eq_none_iff settings other).mp (hothers other hother (by omega)) name hcalled
    · rintro ⟨before, word, ⟨hcalls, hunknown, hearlier⟩, hblames⟩
      obtain ⟨site, hsite, hindex, hcalled⟩ := exists_site_iff.mpr ⟨before, rfl, hcalls⟩
      refine ⟨site, hsite, Option.bind_eq_some_iff.mpr ⟨word, hcalled, ?_⟩,
        fun other hother hlt => ?_⟩
      · exact (functionError?_eq_some_iff settings _ error).mpr ⟨hunknown, hblames⟩
      · refine (siteError?_eq_none_iff settings other).mpr fun name hname => ?_
        obtain ⟨front, hfront, hcalls⟩ := exists_site_iff.mp ⟨other, hother, rfl, hname⟩
        exact hearlier front name hcalls (by omega)

/-- A name from another language comes with its advice, and a call behind it is not reached. -/
theorem knownFunctions_refuses_first_unknown_hinted :
    let query := "filter int64(\"length(\") > length(body) or foo(x)"
    let error : Error := .unknownFunction "length"
      (some "Use strlen(x) for string length or array_length(x) for arrays.") []
    knownFunctions {} (scan query.toList) = .error error ∧
      ∃ before word, FirstUnknown query.toList before word ∧ Blames {} (String.ofList word) error := by
  intro query error
  have herror : knownFunctions {} (scan query.toList) = .error error := by decide +kernel
  exact ⟨herror, ((knownFunctions_refuses_first_unknown {} query).2 error).mp herror⟩

end OpalRepair
