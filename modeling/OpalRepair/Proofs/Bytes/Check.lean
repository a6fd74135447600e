import Mathlib
import OpalRepair.Check
import OpalRepair.Proofs.Bytes.Match
import OpalRepair.Proofs.Bytes.Stage
import OpalRepair.Proofs.Characters
import OpalRepair.Proofs.Reading

/-!
# Checks by byte offsets

Delimiters are counted among the bytes outside literals, stages are cut out of the query, and the
words that are called are matches of a pattern.
-/

namespace OpalRepair.Bytes

open Query Text Vocabulary

/-! ## Delimiters and nesting -/

def codeOf (query : List Char) (view : View) : List (Nat × Char) :=
  view.codeBytes 0 (encode query)

def imbalance? (code : List (Nat × Char)) (pair : Pair) : Option Error :=
  let opened := code.countP (·.2 == pair.left)
  let closed := code.countP (·.2 == pair.right)
  if opened = closed then none else some (.structural (.unpaired pair opened closed))

def balance (query : List Char) (view : View) : Verdict :=
  match view.openLiteral with
  | some (literal, offset) => .error (.structural (.openLiteral literal offset))
  | none => refuseFirst (imbalance? (codeOf query view)) Pair.all

def depthBound (settings : Settings) (query : List Char) (view : View) : Verdict :=
  let depth := nestingOf 0 (codeOf query view)
  require (depth ≤ settings.maxNestingDepth)
    (.complexity (.nesting depth settings.maxNestingDepth))

theorem codeOf_filter (query : List Char) :
    (codeOf query (view query)).filter (fun entry => isDelimiter entry.2) =
      delimitersAt 0 (cells query) := by
  have hfilter := filter_codeBytes [] (cells query) [] (show cells query = _ by simp)
  rwa [text_cells] at hfilter

theorem balance_eq (query : List Char) :
    balance query (view query) = balancedDelimiters (scan query) := by
  have hcount (d : Char) (hd : isDelimiter d = true) :
      (codeOf query (view query)).countP (·.2 == d) = (cells query).countP (Cell.isCode d) := by
    rw [← countP_filter_delimiter hd, codeOf_filter, countP_delimitersAt hd]
  have himbalance : imbalance? (codeOf query (view query)) = Pair.imbalance? (cells query) := by
    funext pair
    rw [imbalance?, Pair.imbalance?, hcount pair.left (by cases pair <;> decide),
      hcount pair.right (by cases pair <;> decide)]
  rw [balance, balancedDelimiters, himbalance]
  rfl

theorem nestingOf_codeOf (query : List Char) :
    nestingOf 0 (codeOf query (view query)) = nestingDepth (cells query) := by
  rw [← nestingOf_filter, codeOf_filter, nestingOf_delimitersAt, nestingDepth]

theorem depthBound_eq (settings : Settings) (query : List Char) :
    depthBound settings query (view query) = nestingBound settings (scan query) := by
  rw [depthBound, nestingBound, nestingOf_codeOf]
  rfl

/-! ## Verbs -/

def firstWord (stage : List Char) : List Char :=
  match (trimStart stage).takeWhile (!isBlank ·) with
  | [] => stage
  | word => word

def stageError? (settings : Settings) (query : List Char) (entry : Span × Nat) :
    Option (Option Error) := do
  let stage ← sliceSpan? query entry.1
  let name ← leadingIdentifier? stage
  some <| match name with
    | some name =>
      let verb := String.ofList name
      if verbs.contains verb then none
      else some (.unknownVerb verb (entry.2 + 1) (suggest verbs verb settings.maxSuggestions))
    | none => some (.unknownVerb (String.ofList (firstWord stage)) (entry.2 + 1) [])

def stageVerbs? (settings : Settings) (query : List Char) (view : View) : Option Verdict :=
  (view.stages.zipIdx.mapM (stageError? settings query)).map (refuseFirst id)

theorem firstWord_eq {stage : Stage} (h : stage.Trimmed) :
    firstWord stage.text = stage.text.takeWhile (!isBlank ·) := by
  obtain ⟨cell, hcell, hgap⟩ := h.head
  have hblank : isBlank cell.char = false := by
    simp only [Cell.isGap, Bool.or_eq_false_iff] at hgap
    exact hgap.2
  rw [firstWord, h.trimStart_text]
  cases hbody : stage.body with
  | nil => simp [hbody] at hcell
  | cons first body =>
      obtain rfl : first = cell := by simpa [hbody] using hcell
      simp [Stage.text, hbody, hblank]

theorem stageError?_place (settings : Settings) {query : List Char} {place : List Cell × Stage}
    (h : place ∈ places query) (number : Nat) :
    stageError? settings query (placeSpan place, number) =
      some (verbError? settings place.2 number) := by
  rw [stageError?, sliceSpan?_place h]
  simp only [Option.bind_eq_bind, Option.bind_some, leadingIdentifier?_eq, verbError?, Stage.verb?,
    firstWord_eq (trimmed_of_mem_places h)]
  cases leadingName? place.2.text <;> rfl

theorem stageVerbs?_eq (settings : Settings) (query : List Char) :
    stageVerbs? settings query (view query) = some (knownVerbs settings (scan query)) := by
  have hzip : (view query).stages.zipIdx =
      (places query).zipIdx.map fun entry => (placeSpan entry.1, entry.2) := by
    rw [stages_view, List.zipIdx_map]
    rfl
  have herrors : (view query).stages.zipIdx.mapM (stageError? settings query) =
      some ((places query).zipIdx.map fun entry => verbError? settings entry.1.2 entry.2) := by
    rw [hzip]
    refine mapM_map_eq_some fun entry hentry => ?_
    exact stageError?_place settings (List.fst_mem_of_mem_zipIdx hentry) entry.2
  have hstages : (scan query).layout.stages.zipIdx =
      (places query).zipIdx.map fun entry => (entry.1.2, entry.2) := by
    rw [show (scan query).layout.stages = (layout query).stages from rfl, ← map_snd_places,
      List.zipIdx_map]
    rfl
  rw [stageVerbs?, herrors, Option.map_some, knownVerbs, hstages, refuseFirst, refuseFirst,
    List.findSome?_map, List.findSome?_map]
  rfl

/-! ## Functions -/

def readCall? (previous : Option Char) (text : List Char) : Option (List Char × List Char) :=
  if joinsWord previous || !(text.head?.any fun c => isAlphabetic c || c == '_') then none
  else (skipTo? '(' (text.dropWhile isWordChar)).map fun rest =>
    (text.take (text.length - rest.length), text.takeWhile isWordChar)

def calledAt? (query : List Char) (view : View) (found : Match (List Char)) :
    Option (Option (List Char)) := do
  if view.inLiteral found.start then some none
  else
    let inPath ← precededBy? (· == '.') query found.start
    some (if inPath then none else some found.parts)

def callees? (settings : Settings) (query : List Char) (view : View) : Option Verdict := do
  let names ← (matchesFrom readCall? 0 0 none query).mapM (calledAt? query view)
  some (refuseFirst (functionError? settings) (names.reduceOption.map String.ofList))

theorem readCall?_eq {previous : Option Char} {c : Char} {text whole name : List Char}
    (h : readCall? previous (c :: text) = some (whole, name)) :
    joinsWord previous = false ∧ (isAlphabetic c || c == '_') = true ∧
      name = (c :: text).takeWhile isWordChar ∧
      ∃ word blanks rest, name = c :: word ∧ (∀ b ∈ blanks, isBlank b = true) ∧
        whole = c :: (word ++ blanks ++ ['(']) ∧ text = word ++ blanks ++ ['('] ++ rest ∧
        skipTo? '(' ((c :: text).dropWhile isWordChar) = some rest := by
  rw [readCall?] at h
  split at h
  · simp at h
  rename_i hskips
  have hstart : joinsWord previous = false ∧ (isAlphabetic c || c == '_') = true := by
    rw [Bool.not_eq_true, Bool.or_eq_false_iff] at hskips
    simpa only [List.head?_cons, Option.any_some, Bool.not_eq_false'] using hskips
  obtain ⟨rest, hskip, hpair⟩ := Option.map_eq_some_iff.mp h
  obtain ⟨rfl, rfl⟩ := Prod.mk.inj hpair
  obtain ⟨blanks, hblanks, hdrop⟩ := skipTo?_eq hskip
  have hc : isWordChar c = true := by
    rcases Bool.or_eq_true_iff.mp hstart.2 with h | h
    · exact isWordChar_of_isAlphabetic h
    · rw [beq_iff_eq.mp h]
      decide
  have htext : c :: text = (c :: text.takeWhile isWordChar) ++ blanks ++ ['('] ++ rest := by
    have := (List.takeWhile_append_dropWhile (p := isWordChar) (l := c :: text)).symm
    rw [hdrop] at this
    simpa [hc] using this
  refine ⟨hstart.1, hstart.2, rfl, text.takeWhile isWordChar, blanks, rest, by simp [hc], hblanks, ?_,
    by simpa using htext, hskip⟩
  have hsize : (c :: text).length - rest.length =
      ((c :: text.takeWhile isWordChar) ++ blanks ++ ['(']).length := by
    rw [htext]
    simp
    omega
  rw [hsize]
  exact (congrArg _ htext).trans List.take_left

theorem readCall?_clear (previous : Option Char) (c : Char) (text whole name : List Char)
    (h : readCall? previous (c :: text) = some (whole, name)) :
    Clear readCall? (whole.length - 1) (some c) text := by
  obtain ⟨-, hstart, hname, word, blanks, rest, hword, hblanks, rfl, rfl, -⟩ := readCall?_eq h
  have hchars : ∀ d ∈ c :: word, isWordChar d = true := by
    intro d hd
    rw [← hword, hname] at hd
    exact List.mem_takeWhile_imp hd
  have hinside : Clear readCall? word.length (some c) (word ++ (blanks ++ ['('] ++ rest)) := by
    refine Clear.of_word (fun previous text hjoins => ?_) ?_ fun d hd => hchars d (by simp [hd])
    · rw [readCall?, if_pos (by simp [hjoins])]
    · simpa [joinsWord] using hchars c (by simp)
  have hbehind (previous : Option Char) :
      Clear readCall? (blanks ++ ['(']).length previous (blanks ++ ['('] ++ rest) := by
    refine Clear.of_forall fun d hd previous rest => ?_
    have hd : isAlphabetic d = false ∧ d ≠ '_' := by
      rcases List.mem_append.mp hd with hd | hd
      · have hword := isWordChar_of_isBlank (hblanks d hd)
        refine ⟨?_, ?_⟩
        · by_contra halphabetic
          simp [isWordChar_of_isAlphabetic (by simpa using halphabetic)] at hword
        · rintro rfl
          revert hword
          decide
      · rw [List.mem_singleton.mp hd]
        decide
    rw [readCall?, if_pos (by simp [hd])]
  simpa [List.append_assoc, Nat.add_assoc] using hinside.append (hbehind _)

theorem calledWord?_eq (index : Nat) (previous : Option Char) (row : List Cell) :
    calledWord? ⟨index, previous, row⟩ =
      (readCall? previous (text row)).bind fun found =>
        if row.head?.any Cell.isLiteral || previous == some '.' then none else some found.2 := by
  cases row with
  | nil => simp [calledWord?, readCall?]
  | cons cell row =>
      rw [calledWord?, readCall?]
      change (if (!joinsWord previous && (isAlphabetic cell.char || cell.char == '_') &&
          !cell.isLiteral && !(previous == some '.')) = true then
          (skipTo? '(' ((text (cell :: row)).dropWhile isWordChar)).map fun _ =>
            (text (cell :: row)).takeWhile isWordChar else none) =
        (if (joinsWord previous || !(isAlphabetic cell.char || cell.char == '_')) = true then none
          else _).bind fun found : List Char × List Char =>
            if (cell.isLiteral || previous == some '.') = true then none else some found.2
      generalize joinsWord previous = joins
      generalize (isAlphabetic cell.char || cell.char == '_') = starts
      generalize cell.isLiteral = literal
      generalize (previous == some '.') = dotted
      generalize skipTo? '(' _ = skipped
      cases joins <;> cases starts <;> cases literal <;> cases dotted <;> cases skipped <;> rfl

theorem calledAt?_eq {query : List Char} {before row : List Cell} {whole name : List Char}
    (hcells : cells query = before ++ row)
    (hread : readCall? (text before).getLast? (text row) = some (whole, name)) :
    calledAt? query (view query) ⟨byteSize (text before), whole, name⟩ =
      some (calledWord? ⟨before.length, (text before).getLast?, row⟩) := by
  have hquery : query = text before ++ text row := by rw [← text_cells query, hcells, text_append]
  have hliteral := inLiteral_head before row hcells
  have hpath : precededBy? (· == '.') query (byteSize (text before)) =
      some ((text before).getLast? == some '.') := by
    rw [precededBy?_eq (fun c hc => by rw [beq_iff_eq.mp hc]; decide) (text before) (text row) hquery
      rfl]
    cases (text before).getLast? <;> rfl
  rw [calledWord?_eq, hread, calledAt?]
  simp only [hliteral, hpath, Option.bind_eq_bind, Option.bind_some]
  generalize row.head?.any Cell.isLiteral = literal
  generalize ((text before).getLast? == some '.') = dotted
  cases literal <;> cases dotted <;> rfl

theorem callees?_eq (settings : Settings) (query : List Char) :
    callees? settings query (view query) = some (knownFunctions settings (scan query)) := by
  obtain ⟨names, hmapM, hreduce⟩ := Option.map_eq_some_iff.mp
    (mapM_everywhere (fun _ _ _ hread => by rw [calledWord?_eq, hread]; rfl)
      (fun _ _ _ _ hcells hread => calledAt?_eq hcells hread) [] (cells query) rfl)
  rw [← matchesFrom_eq_everywhere readCall?_clear 0 _ _ _ trivial, text_cells] at hmapM
  rw [callees?]
  refine (congrArg (Option.bind · _) hmapM).trans ?_
  rw [Option.bind_some, hreduce]
  rfl

/-! ## All checks -/

def checkStructure? (settings : Settings) (query : String) : Option Verdict := do
  let view ← scan? query.toList
  let verbs ← stageVerbs? settings query.toList view
  let functions ← callees? settings query.toList view
  some ([balance query.toList view,
    require (view.doubleQuotes % 2 == 0) (.structural (.oddQuotes view.doubleQuotes)),
    require (view.stages.length ≤ settings.maxStages)
      (.complexity (.stages view.stages.length settings.maxStages)),
    depthBound settings query.toList view, verbs, functions].forM id)

theorem length_stages_view (query : List Char) :
    (view query).stages.length = (scan query).layout.stages.length := by
  have hlength := congrArg List.length (map_snd_places query)
  rw [List.length_map] at hlength
  rw [stages_view, List.length_map, hlength]
  rfl

theorem checkStructure?_eq (settings : Settings) (query : String) :
    checkStructure? settings query = some (checkStructure settings query) := by
  rw [checkStructure?, scan?_eq]
  simp only [Option.bind_eq_bind, Option.bind_some, stageVerbs?_eq, callees?_eq, balance_eq,
    depthBound_eq, length_stages_view]
  rfl

end OpalRepair.Bytes
