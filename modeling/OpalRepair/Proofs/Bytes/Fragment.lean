import Mathlib
import OpalRepair.Proofs.Bytes.Match
import OpalRepair.Proofs.Reading

/-!
# Passes over fragments by byte offsets

The matches of a pattern are judged by the bytes around them and rewritten where they stand.
-/

namespace OpalRepair.Bytes

open Query Text

section Walk

variable {α : Type} {query : List Char}
  {read? : Option Char → List Char → Option (List Char × α)}
  {rewrite? : Match α → Option (Option Rewrite)}
  {find? : Option Char → List Cell → Option Fragment}

/-- If matches are fragments and rewriting a match replaces the fragment, then rewriting all matches
gives the changes of the patch made of the fragments. -/
theorem rewrites_matchesFrom
    (hnone : ∀ before row, cells query = before ++ row →
      find? (text before).getLast? row = none → read? (text before).getLast? (text row) = none)
    (hsome : ∀ before row fragment, cells query = before ++ row →
      find? (text before).getLast? row = some fragment →
      ∃ parts, read? (text before).getLast? (text row) =
          some (text (row.take (fragment.more + 1)), parts) ∧
        fragment.more < row.length ∧
        rewrite? ⟨byteSize (text before), text (row.take (fragment.more + 1)), parts⟩ =
          some (fragment.replacement.map fun replacement =>
            ⟨byteSize (text before), text (row.take (fragment.more + 1)), replacement⟩))
    (before row : List Cell) (hcells : cells query = before ++ row) (skip : Nat) :
    ((matchesFrom read? skip (byteSize (text before)) (text before).getLast? (text row)).mapM
        rewrite?).map List.reduceOption =
      some (rewritesAt (byteSize (text before) + byteSize (text (row.take skip)))
        (Patch.walk find? skip (text before).getLast? row)) := by
  induction row generalizing before skip with
  | nil => rfl
  | cons cell row ih =>
      have hnext := ih (before ++ [cell]) (by simp [hcells])
      simp only [text_append, text_cons, text_nil, List.getLast?_concat, byteSize_append,
        byteSize_cons, byteSize_nil, Nat.add_zero] at hnext
      cases skip with
      | succ skip =>
          rw [text_cons, matchesFrom, Patch.walk, hnext]
          simp [Nat.add_assoc]
      | zero =>
          rw [text_cons, matchesFrom, Patch.walk, ← text_cons]
          cases hfind : find? (text before).getLast? (cell :: row) with
          | none =>
              rw [hnone before _ hcells hfind]
              simp only [hnext]
              simp [rewritesAt]
          | some fragment =>
              obtain ⟨parts, hread, hlength, hrewrite⟩ := hsome before _ fragment hcells hfind
              have hskip : (text ((cell :: row).take (fragment.more + 1))).length - 1 =
                  fragment.more := by
                simp [text] at hlength ⊢
                omega
              rw [hread]
              simp only [hskip, List.mapM_cons, hrewrite, Option.bind_eq_bind, Option.bind_some]
              obtain ⟨rewrites, hrewrites, hreduce⟩ := Option.map_eq_some_iff.mp (hnext fragment.more)
              rw [hrewrites]
              cases hreplacement : fragment.replacement with
              | none =>
                  simpa [Fragment.piece, hreplacement, rewritesAt, Nat.add_assoc] using hreduce
              | some replacement =>
                  simpa [Fragment.piece, hreplacement, rewritesAt, Nat.add_assoc] using hreduce

end Walk

/-! ## Quoting keys -/

def readAttribute? (previous : Option Char) (text : List Char) :
    Option (List Char × List Char × List Char) :=
  if joinsWord previous then none
  else (QuoteKey.attribute? text).map fun (parent, key) => (parent ++ '.' :: key, parent, key)

def quoteKeyRewrite? (query : List Char) (view : View) (found : Match (List Char × List Char)) :
    Option (Option Rewrite) := do
  let inPath ← continuesPath? query found.start
  if view.inLiteral found.start || inPath then some none
  else
    let behind ← sliceFrom? query found.stop
    if (skipTo? '(' behind).isSome then some none
    else
      let (parent, key) := found.parts
      some (some ⟨found.start, found.whole, parent ++ ".\"".toList ++ key ++ ['"']⟩)

def quoteKey? (query : String) : Option Outcome := do
  let view ← scan? query.toList
  let rewrites ← (matchesFrom readAttribute? 0 0 none query.toList).mapM
    (quoteKeyRewrite? query.toList view)
  rewritten? quoteKey.name QuoteKey.rationale query rewrites.reduceOption

theorem quoteKey_no_fragment {query : List Char} (before row : List Cell)
    (_ : cells query = before ++ row)
    (hfind : QuoteKey.fragment? (text before).getLast? row = none) :
    readAttribute? (text before).getLast? (text row) = none := by
  rw [readAttribute?]
  split
  · rfl
  · simpa [QuoteKey.fragment?, Site.startsWord, *] using hfind

theorem quoteKey_fragment {query : List Char} (before row : List Cell) (fragment : Fragment)
    (hcells : cells query = before ++ row)
    (hfind : QuoteKey.fragment? (text before).getLast? row = some fragment) :
    ∃ parts, readAttribute? (text before).getLast? (text row) =
        some (text (row.take (fragment.more + 1)), parts) ∧
      fragment.more < row.length ∧
      quoteKeyRewrite? query (view query)
          ⟨byteSize (text before), text (row.take (fragment.more + 1)), parts⟩ =
        some (fragment.replacement.map fun replacement =>
          ⟨byteSize (text before), text (row.take (fragment.more + 1)), replacement⟩) := by
  have hquery : query = text before ++ text row := by rw [← text_cells query, hcells, text_append]
  have hword : joinsWord (text before).getLast? = false := by
    by_contra hjoins
    simp [QuoteKey.fragment?, Site.startsWord, hjoins] at hfind
  rw [QuoteKey.fragment?, if_neg (by simp [Site.startsWord, hword])] at hfind
  obtain ⟨⟨parent, key⟩, hattribute, rfl⟩ := Option.map_eq_some_iff.mp hfind
  obtain ⟨rest, hrow, -⟩ := QuoteKey.attribute?_eq hattribute
  have hsize : parent.length + key.length + 1 = (parent ++ '.' :: key).length := by
    simp
    omega
  have htake : text (row.take (parent.length + key.length + 1)) = parent ++ '.' :: key := by
    rw [text, List.map_take, hsize]
    exact (congrArg _ hrow).trans List.take_left
  have hdrop : text (row.drop (parent.length + key.length + 1)) = rest := by
    rw [text, List.map_drop, hsize]
    exact (congrArg _ hrow).trans List.drop_left
  refine ⟨(parent, key), ?_, ?_, ?_⟩
  · rw [readAttribute?, if_neg (by simp [hword]), hattribute, htake]
    rfl
  · have hlength := congrArg List.length hrow
    simp [text] at hlength ⊢
    omega
  · have hpath : continuesPath? query (byteSize (text before)) =
        some (Site.continuesPath ⟨0, (text before).getLast?, row⟩) :=
      continuesPath?_eq (text before) (text row) hquery rfl
    have hliteral : (view query).inLiteral (byteSize (text before)) =
        Site.inLiteral ⟨0, (text before).getLast?, row⟩ := inLiteral_head before row hcells
    have hbehind : sliceFrom? query (byteSize (text before) + byteSize (parent ++ '.' :: key)) =
        some rest :=
      sliceFrom?_eq (text before ++ (parent ++ '.' :: key)) rest (by rw [hquery, hrow]; simp)
        (by simp)
    dsimp only
    rw [htake, hdrop, quoteKeyRewrite?]
    simp only [Match.stop, hpath, hbehind, hliteral, Option.bind_eq_bind, Option.bind_some]
    generalize Site.inLiteral _ = inLiteral
    generalize Site.continuesPath _ = inPath
    cases inLiteral <;> cases inPath <;> cases hcalled : (skipTo? '(' rest).isSome <;> rfl

theorem quoteKey?_eq (context : Context) (query : String) :
    quoteKey? query = some (quoteKey.apply context query) := by
  obtain ⟨rewrites, hmapM, hreduce⟩ := Option.map_eq_some_iff.mp
    (rewrites_matchesFrom quoteKey_no_fragment quoteKey_fragment [] (cells query.toList) rfl 0)
  rw [text_cells] at hmapM
  rw [quoteKey?, scan?_eq, Option.bind_eq_bind, Option.bind_some]
  refine (congrArg (Option.bind · _) hmapM).trans ?_
  rw [Option.bind_some, hreduce]
  exact rewritten?_patch (by simp [Patch.before_walk]) _ _

/-! ## Expanding terms -/

def readSearch? (_ : Option Char) (text : List Char) : Option (List Char × ExpandTerms.Search) :=
  (ExpandTerms.search? text).map fun search => (text.take search.size, search)

def expandTermsRewrite? (query : List Char) (view : View) (found : Match ExpandTerms.Search) :
    Option (Option Rewrite) := do
  let inPath ← continuesPath? query found.start
  if view.inLiteral found.start || inPath then some none
  else
    let replacement? := ExpandTerms.expand? found.parts.field (ExpandTerms.terms found.parts.terms)
    some (replacement?.map fun replacement => ⟨found.start, found.whole, replacement⟩)

def expandTerms? (query : String) : Option Outcome := do
  let view ← scan? query.toList
  let rewrites ← (matchesFrom readSearch? 0 0 none query.toList).mapM
    (expandTermsRewrite? query.toList view)
  rewritten? expandTerms.name ExpandTerms.rationale query rewrites.reduceOption

theorem isNameStart_head_of_search? {row : List Cell} {search : ExpandTerms.Search}
    (h : ExpandTerms.search? (text row) = some search) :
    (row.head?.any fun cell => isNameStart cell.char) = true := by
  obtain ⟨field, hfield, -⟩ := Option.bind_eq_some_iff.mp h
  cases row with
  | nil => simp [path?] at hfield
  | cons cell row =>
      rw [text_cons, path?] at hfield
      split at hfield
      · simpa
      · simp at hfield

theorem expandTerms_no_fragment {query : List Char} (before row : List Cell)
    (_ : cells query = before ++ row)
    (hfind : ExpandTerms.fragment? (text before).getLast? row = none) :
    readSearch? (text before).getLast? (text row) = none := by
  rw [readSearch?, Option.map_eq_none_iff]
  cases hsearch : ExpandTerms.search? (text row) with
  | none => rfl
  | some search =>
      simp [ExpandTerms.fragment?, isNameStart_head_of_search? hsearch, hsearch] at hfind

theorem expandTerms_fragment {query : List Char} (before row : List Cell) (fragment : Fragment)
    (hcells : cells query = before ++ row)
    (hfind : ExpandTerms.fragment? (text before).getLast? row = some fragment) :
    ∃ parts, readSearch? (text before).getLast? (text row) =
        some (text (row.take (fragment.more + 1)), parts) ∧
      fragment.more < row.length ∧
      expandTermsRewrite? query (view query)
          ⟨byteSize (text before), text (row.take (fragment.more + 1)), parts⟩ =
        some (fragment.replacement.map fun replacement =>
          ⟨byteSize (text before), text (row.take (fragment.more + 1)), replacement⟩) := by
  have hquery : query = text before ++ text row := by rw [← text_cells query, hcells, text_append]
  rw [ExpandTerms.fragment?] at hfind
  split at hfind
  · simp at hfind
  obtain ⟨search, hsearch, rfl⟩ := Option.map_eq_some_iff.mp hfind
  obtain ⟨gap, blanks, after, -, -, -, -, hrow, hsize⟩ := ExpandTerms.search?_eq hsearch
  have hlength : (text row).length = row.length := by simp [text]
  have hpositive : search.size - 1 + 1 = search.size ∧ search.size ≤ row.length := by
    have hrow := congrArg List.length hrow
    simp at hrow
    omega
  dsimp only
  rw [hpositive.1]
  refine ⟨search, ?_, by omega, ?_⟩
  · rw [readSearch?, hsearch, text, text, List.map_take]
    rfl
  · have hpath : continuesPath? query (byteSize (text before)) =
        some (Site.continuesPath ⟨0, (text before).getLast?, row⟩) :=
      continuesPath?_eq (text before) (text row) hquery rfl
    have hliteral : (view query).inLiteral (byteSize (text before)) =
        Site.inLiteral ⟨0, (text before).getLast?, row⟩ := inLiteral_head before row hcells
    rw [expandTermsRewrite?]
    simp only [hpath, hliteral, Option.bind_eq_bind, Option.bind_some]
    generalize Site.inLiteral _ = inLiteral
    generalize Site.continuesPath _ = inPath
    cases inLiteral <;> cases inPath <;> rfl

theorem expandTerms?_eq (context : Context) (query : String) :
    expandTerms? query = some (expandTerms.apply context query) := by
  obtain ⟨rewrites, hmapM, hreduce⟩ := Option.map_eq_some_iff.mp
    (rewrites_matchesFrom expandTerms_no_fragment expandTerms_fragment [] (cells query.toList) rfl 0)
  rw [text_cells] at hmapM
  rw [expandTerms?, scan?_eq, Option.bind_eq_bind, Option.bind_some]
  refine (congrArg (Option.bind · _) hmapM).trans ?_
  rw [Option.bind_some, hreduce]
  exact rewritten?_patch (by simp [Patch.before_walk]) _ _

end OpalRepair.Bytes
