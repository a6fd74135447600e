import Mathlib
import OpalRepair.Pass.DropTimeFilter
import OpalRepair.Pass.SortCall
import OpalRepair.Proofs.Bytes.Edit
import OpalRepair.Proofs.Place

/-!
# Passes over stages by byte offsets

The span of a stage is cut out of the query wherever its text is needed: for its verb, for the keys
of a sort, and to put the query together again without its time filters.
-/

namespace OpalRepair.Bytes

open Query Text

theorem mapM_eq_some_map {α β : Type} {f : α → Option β} {g : α → β} {xs : List α}
    (h : ∀ x ∈ xs, f x = some (g x)) : xs.mapM f = some (xs.map g) := by
  induction xs with
  | nil => rfl
  | cons x xs ih =>
      rw [List.mapM_cons, h x (by simp), ih fun y hy => h y (by simp [hy])]
      rfl

theorem mapM_map_eq_some {α β γ : Type} {f : β → Option γ} {k : α → β} {g : α → γ} {xs : List α}
    (h : ∀ x ∈ xs, f (k x) = some (g x)) : (xs.map k).mapM f = some (xs.map g) := by
  rw [List.mapM_map]
  exact mapM_eq_some_map h

/-! ## Where stages stand -/

def placeSpan (place : List Cell × Stage) : Span :=
  ⟨byteSize (text place.1), byteSize (text place.1) + byteSize (text place.2.body)⟩

theorem spans_placesFrom (before : List Cell) (stages : List Stage) :
    Stage.spans (fun row => byteSize (text row)) (byteSize (text before)) stages =
      (placesFrom before stages).map placeSpan := by
  induction stages generalizing before with
  | nil => rfl
  | cons stage stages ih =>
      rw [Stage.spans, placesFrom, List.map_cons, ← ih]
      simp [placeSpan, Stage.cells, Nat.add_assoc]

theorem stages_view (query : List Char) : (view query).stages = (places query).map placeSpan :=
  spans_placesFrom _ _

theorem sliceSpan?_place {query : List Char} {place : List Cell × Stage} (h : place ∈ places query) :
    sliceSpan? query (placeSpan place) = some place.2.text := by
  obtain ⟨after, hafter⟩ := cells_of_mem_places h
  have hquery := congrArg text hafter
  rw [text_cells, text_append, text_append] at hquery
  exact slice?_eq (text place.1) (text place.2.body) (text after) hquery rfl rfl

/-! ## Verbs -/

def leadingIdentifier? (stage : List Char) : Option (Option (List Char)) :=
  let stage := trimStart stage
  let stop := if stage.head?.any Char.isDigit then 0 else byteSize (stage.takeWhile isNameChar)
  if stop = 0 then some none else (slice? stage 0 stop).map some

def stageVerb? (query : List Char) (span : Span) : Option (Option String) := do
  let stage ← sliceSpan? query span
  let name ← leadingIdentifier? stage
  some (name.map String.ofList)

theorem leadingIdentifier?_eq (stage : List Char) :
    leadingIdentifier? stage = some (leadingName? stage) := by
  rw [leadingIdentifier?, leadingName?]
  generalize trimStart stage = stage
  have hslice : slice? stage 0 (byteSize (stage.takeWhile isNameChar)) =
      some (stage.takeWhile isNameChar) :=
    slice?_eq [] _ (stage.dropWhile isNameChar) (by simp) rfl (by simp)
  cases stage with
  | nil => rfl
  | cons c stage =>
      cases hc : isNameChar c with
      | false =>
          simp [hc]
      | true =>
          have hpos := c.utf8Size_pos
          cases hdigit : c.isDigit with
          | true => simp [hc, hdigit]
          | false =>
              simp only [List.takeWhile_cons, hc, if_true, byteSize_cons] at hslice ⊢
              simp [hdigit, hslice]
              omega

theorem stageVerb?_place {query : List Char} {place : List Cell × Stage} (h : place ∈ places query) :
    stageVerb? query (placeSpan place) = some place.2.verb? := by
  rw [stageVerb?, sliceSpan?_place h]
  simp only [Option.bind_eq_bind, Option.bind_some, leadingIdentifier?_eq]
  rfl

/-! ## Patches of stages -/

theorem rewritesAt_ofStages (mend? : Stage → Option (List Char)) (before : List Cell)
    (stages : List Stage) :
    rewritesAt (byteSize (text before)) (stages.flatMap (Stage.pieces mend?)) =
      ((placesFrom before stages).map fun place => (mend? place.2).map fun replacement =>
        (⟨byteSize (text place.1), place.2.text, replacement⟩ : Rewrite)).reduceOption := by
  induction stages generalizing before with
  | nil => rfl
  | cons stage stages ih =>
      have hnext := ih (before ++ stage.cells)
      have hsize : byteSize (text (before ++ stage.cells)) =
          byteSize (text before) + byteSize stage.text + byteSize (text stage.gap) := by
        simp [Stage.cells, Stage.text, Nat.add_assoc]
      rw [hsize] at hnext
      cases hmend : mend? stage <;>
        simp [Stage.pieces, hmend, rewritesAt, placesFrom, List.reduceOption_cons_of_some,
          List.reduceOption_cons_of_none, ← hnext]

theorem rewrites_ofStages {query : List Char} {rewrite? : Span → Option (Option Rewrite)}
    {mend? : Stage → Option (List Char)}
    (h : ∀ place ∈ places query, rewrite? (placeSpan place) =
      some ((mend? place.2).map fun replacement =>
        ⟨byteSize (text place.1), place.2.text, replacement⟩)) :
    ((view query).stages.mapM rewrite?).map List.reduceOption =
      some (rewritesAt 0 (.ofStages mend? (layout query))) := by
  rw [stages_view, mapM_map_eq_some h, Option.map_some, Patch.ofStages, rewritesAt,
    Nat.zero_add, rewritesAt_ofStages]
  rfl

/-! ## Sort directions -/

def sortRewrite? (query : List Char) (view : View) (span : Span) : Option (Option Rewrite) := do
  let verb ← stageVerb? query span
  if verb ≠ some "sort" then some none
  else
    let items ← splitTopLevel? query view (span.start + 4) span.stop
    let keys ← items.mapM (sliceSpan? query)
    if keys.any fun key => (SortCall.normalize? key).isSome then
      let found ← sliceSpan? query span
      some (some ⟨span.start, found, "sort ".toList
        ++ List.intercalate ", ".toList (keys.map fun key => (SortCall.normalize? key).getD key)⟩)
    else some none

def sortCall? (query : String) : Option Outcome := do
  let view ← scan? query.toList
  let rewrites ← view.stages.mapM (sortRewrite? query.toList view)
  rewritten? sortCall.name SortCall.rationale query rewrites.reduceOption

theorem sortRewrite?_place {query : List Char} :
    ∀ place ∈ places query, sortRewrite? query (view query) (placeSpan place) =
      some ((SortCall.mendStage? place.2).map fun replacement =>
        ⟨byteSize (text place.1), place.2.text, replacement⟩) := by
  intro place hplace
  rw [sortRewrite?, stageVerb?_place hplace, SortCall.mendStage?]
  simp only [Option.bind_eq_bind, Option.bind_some, Stage.hasVerb]
  by_cases hverb : place.2.verb? = some "sort"
  · obtain ⟨hrun, -⟩ := (trimmed_of_mem_places hplace).text_of_verb? hverb
    obtain ⟨after, hafter⟩ := cells_of_mem_places hplace
    have hfour : text (place.2.body.take 4) = "sort".toList := by
      have hprefix := List.prefix_iff_eq_take.mp (List.takeWhile_prefix isNameChar (l := place.2.text))
      rw [hrun] at hprefix
      rw [text, List.map_take]
      exact hprefix.symm
    have hsize : byteSize (text (place.2.body.take 4)) = 4 := by rw [hfour]; rfl
    have hwhole := congrArg (fun row => byteSize (text row)) (List.take_append_drop 4 place.2.body)
    simp only [text_append, byteSize_append, hsize] at hwhole
    obtain ⟨items, hitems, hkeys⟩ := splitTopLevel?_eq (place.1 ++ place.2.body.take 4)
      (place.2.body.drop 4) after (show cells query = _ by rw [hafter]; simp)
      (show (placeSpan place).start + 4 = _ by simp [placeSpan, hsize])
      (show (placeSpan place).stop = _ by simp [placeSpan, hsize, ← hwhole, Nat.add_assoc])
    simp only [hverb, ne_eq, not_true_eq_false, if_false, hitems, hkeys, sliceSpan?_place hplace,
      Option.bind_some, beq_self_eq_true, Bool.not_true, Bool.false_eq_true]
    split <;> rfl
  · simp [hverb]

theorem sortCall?_eq (context : Context) (query : String) :
    sortCall? query = some (sortCall.apply context query) := by
  obtain ⟨rewrites, hmapM, hreduce⟩ := Option.map_eq_some_iff.mp
    (rewrites_ofStages (show ∀ place ∈ places query.toList, _ from sortRewrite?_place))
  rw [sortCall?, scan?_eq]
  simp only [Option.bind_eq_bind, Option.bind_some, hmapM, hreduce]
  exact rewritten?_patch (by simp [layout]) _ _

/-! ## Time filters -/

def gapBehind? (query : List Char) (stages : List Span) : Option Nat → Option (List Char)
  | none => some []
  | some last => do
    let stage ← stages[last]?
    let next ← stages[last + 1]?
    slice? query stage.stop next.start

def keptFrom? (query : List Char) (stages : List Span) (keep : List Bool) :
    Option Nat → List Nat → Option (List Char)
  | _, [] => some []
  | previous, index :: rest => do
    let kept ← keep[index]?
    if kept then
      let gap ← gapBehind? query stages previous
      let stage ← stages[index]?
      let body ← sliceSpan? query stage
      let more ← keptFrom? query stages keep (some index) rest
      some (gap ++ body ++ more)
    else keptFrom? query stages keep previous rest

def remaining? (query : List Char) (stages : List Span) (keep : List Bool) :
    Option (List Char) := do
  let first ← stages[0]?
  let lead ← slice? query 0 first.start
  let kept ← keptFrom? query stages keep none (List.range stages.length)
  let tail ← stages.getLast?.elim (some []) fun last => sliceFrom? query last.stop
  some (lead ++ kept ++ tail)

def dropTimeFilter? (context : Context) (query : String) : Option Outcome :=
  match context.declaredWindow? with
  | none => some (.unchanged query)
  | some window => do
    let view ← scan? query.toList
    let texts ← view.stages.mapM (sliceSpan? query.toList)
    let keep := texts.map (!DropTimeFilter.isTimeFilter ·)
    if keep.all id || keep.all (!·) then some (.unchanged query)
    else
      let text ← remaining? query.toList view.stages keep
      let dropped := texts.filter DropTimeFilter.isTimeFilter
      some (.ofChanges (String.ofList text) dropTimeFilter.name
        (dropped.map fun stage => ⟨String.ofList stage, ""⟩)
        ("the declared time window (" ++ window ++ ") already bounds the query, so an explicit " ++
          "timestamp filter is redundant."))

/-- Stages one behind the other; `gap` stands in front of the first. -/
def joinKept (gap : List Cell) : List Stage → List Cell
  | [] => []
  | stage :: stages => gap ++ stage.body ++ joinKept stage.gap stages

theorem join_eq (tail : List Cell) (stage : Stage) (stages : List Stage) :
    DropTimeFilter.join tail (stage :: stages) = joinKept [] (stage :: stages) ++ tail := by
  induction stages generalizing stage with
  | nil => simp [DropTimeFilter.join, joinKept]
  | cons next stages ih =>
      rw [DropTimeFilter.join, ih]
      · simp [joinKept, Stage.cells]
      · simp

theorem slice?_gap {query : List Char} {i : Nat} {place next : List Cell × Stage}
    (hplace : (places query)[i]? = some place) (hnext : (places query)[i + 1]? = some next) :
    slice? query (placeSpan place).stop (placeSpan next).start = some (text place.2.gap) := by
  obtain ⟨after, hafter⟩ := cells_of_mem_places (List.mem_of_getElem? hnext)
  have hbefore := placesFrom_next hplace hnext
  have hquery := congrArg text hafter
  rw [text_cells, hbefore] at hquery
  refine slice?_eq (text (place.1 ++ place.2.body)) (text place.2.gap)
    (text (next.2.body ++ after)) ?_ ?_ ?_
  · rw [hquery]
    simp [Stage.cells]
  · simp [placeSpan]
  · simp [placeSpan, hbefore, Stage.cells, Nat.add_assoc]

def keepFlag (place : List Cell × Stage) : Bool := !DropTimeFilter.isRedundant place.2

theorem keptFrom?_eq {query : List Char} (done todo : List (List Cell × Stage))
    (hplaces : places query = done ++ todo) (previous : Option Nat) (gap : List Cell)
    (hprevious : previous = none ∧ gap = [] ∨ ∃ last place, previous = some last ∧
      last < done.length ∧ (places query)[last]? = some place ∧ gap = place.2.gap) :
    keptFrom? query ((places query).map placeSpan) ((places query).map keepFlag) previous
        (List.range' done.length todo.length) =
      some (text (joinKept gap
        ((todo.map Prod.snd).filter (!DropTimeFilter.isRedundant ·)))) := by
  induction todo generalizing done previous gap with
  | nil => rfl
  | cons place todo ih =>
      have hget : (places query)[done.length]? = some place := by simp [hplaces]
      have hmem : place ∈ places query := List.mem_of_getElem? hget
      have hkeep : ((places query).map keepFlag)[done.length]? = some (keepFlag place) := by
        simp [hget]
      have hspan : ((places query).map placeSpan)[done.length]? = some (placeSpan place) := by
        simp [hget]
      have hdone : (done ++ [place]).length = done.length + 1 := by simp
      rw [List.length_cons, List.range'_succ, keptFrom?, hkeep]
      simp only [Option.bind_eq_bind, Option.bind_some]
      cases hredundant : DropTimeFilter.isRedundant place.2 with
      | true =>
          have hnext := ih (done ++ [place]) (by simp [hplaces]) previous gap (by
            rcases hprevious with h | ⟨last, other, h, hlast, hother, hgap⟩
            · exact .inl h
            · exact .inr ⟨last, other, h, by omega, hother, hgap⟩)
          rw [hdone] at hnext
          simp [keepFlag, hredundant, hnext]
      | false =>
          have hnext := ih (done ++ [place]) (by simp [hplaces]) (some done.length) place.2.gap
            (.inr ⟨done.length, place, rfl, by omega, hget, rfl⟩)
          rw [hdone] at hnext
          have hgap : gapBehind? query ((places query).map placeSpan) previous = some (text gap) := by
            rcases hprevious with ⟨rfl, rfl⟩ | ⟨last, other, rfl, hlast, hother, rfl⟩
            · rfl
            · obtain ⟨next, hnextPlace⟩ : ∃ next, (places query)[last + 1]? = some next := by
                have hlength : last + 1 < (places query).length := by
                  rw [hplaces]
                  simp
                  omega
                exact ⟨_, List.getElem?_eq_getElem hlength⟩
              simp [gapBehind?, hother, hnextPlace, slice?_gap hother hnextPlace]
          simp [keepFlag, hredundant, hspan, sliceSpan?_place hmem, hgap, hnext, joinKept, Stage.text]

theorem sliceFrom?_tail {query : List Char} {place : List Cell × Stage}
    (h : (places query).getLast? = some place) :
    sliceFrom? query (placeSpan place).stop = some (text place.2.gap) := by
  have hcells := cells_of_getLast?_placesFrom h
  rw [← Layout.cells, show (layout query).cells = cells query from Layout.cells_ofCells _] at hcells
  have hquery := congrArg text hcells
  rw [text_cells] at hquery
  refine sliceFrom?_eq (text (place.1 ++ place.2.body)) _ ?_ ?_
  · rw [hquery]
    simp [Stage.cells]
  · simp [placeSpan]

theorem remaining?_eq {query : List Char}
    (hkept : ∃ place ∈ places query, DropTimeFilter.isRedundant place.2 = false) :
    remaining? query ((places query).map placeSpan) ((places query).map keepFlag) =
      some (DropTimeFilter.remaining (layout query)) := by
  obtain ⟨kept, hmem, hredundant⟩ := hkept
  obtain ⟨first, others, hplaces⟩ := List.exists_cons_of_ne_nil (List.ne_nil_of_mem hmem)
  obtain ⟨last, hlast⟩ : ∃ last, (places query).getLast? = some last :=
    ⟨_, List.getLast?_eq_some_getLast (List.ne_nil_of_mem hmem)⟩
  have hstages := map_snd_places query
  have hfirst : first.1 = (layout query).lead := by
    rw [places] at hplaces
    cases hlayout : (layout query).stages with
    | nil => simp [hlayout, placesFrom] at hplaces
    | cons stage stages =>
        rw [hlayout, placesFrom] at hplaces
        rw [← (List.cons.inj hplaces).1]
  obtain ⟨after, hafter⟩ := cells_of_mem_places (show first ∈ places query by simp [hplaces])
  have hlead : slice? query 0 (placeSpan first).start = some (text (layout query).lead) := by
    have hquery := congrArg text hafter
    rw [text_cells, hfirst] at hquery
    exact slice?_eq [] _ (text (first.2.body ++ after)) (hquery.trans (by simp)) rfl
      (by simp [placeSpan, hfirst])
  have hbodies := keptFrom?_eq [] (places query) rfl none [] (.inl ⟨rfl, rfl⟩)
  rw [List.length_nil, ← List.range_eq_range', hstages] at hbodies
  have htail : (layout query).stages.getLast? = some last.2 := by
    rw [← hstages, List.getLast?_map, hlast]
    rfl
  have hspan : ((places query).map placeSpan)[0]? = some (placeSpan first) := by simp [hplaces]
  have hspans : ((places query).map placeSpan).getLast? = some (placeSpan last) := by
    rw [List.getLast?_map, hlast]
    rfl
  have hsome : (layout query).stages.filter (!DropTimeFilter.isRedundant ·) ≠ [] := by
    refine List.ne_nil_of_mem (List.mem_filter.mpr ⟨?_, by simpa using hredundant⟩)
    rw [← hstages]
    exact List.mem_map_of_mem hmem
  obtain ⟨stage, stages, hfilter⟩ := List.exists_cons_of_ne_nil hsome
  rw [hfilter] at hbodies
  rw [remaining?, List.length_map, hbodies, hspan, hspans]
  simp only [Option.bind_eq_bind, Option.bind_some, hlead, Option.elim_some, sliceFrom?_tail hlast]
  rw [DropTimeFilter.remaining, htail, hfilter, join_eq]
  simp

theorem dropTimeFilter?_eq (context : Context) (query : String) :
    dropTimeFilter? context query = some (dropTimeFilter.apply context query) := by
  rw [dropTimeFilter?]
  simp only [dropTimeFilter]
  cases context.declaredWindow? with
  | none => rfl
  | some window =>
      have htexts : (view query.toList).stages.mapM (sliceSpan? query.toList) =
          some ((places query.toList).map fun place => place.2.text) := by
        rw [stages_view]
        exact mapM_map_eq_some fun place hplace => sliceSpan?_place hplace
      have hstages := map_snd_places query.toList
      have hkeep : ((places query.toList).map fun place => place.2.text).map
          (!DropTimeFilter.isTimeFilter ·) = (places query.toList).map keepFlag := by
        rw [List.map_map]
        rfl
      have hall : ((places query.toList).map keepFlag).all id =
          ((layout query.toList).stages.filter DropTimeFilter.isRedundant).isEmpty := by
        rw [← hstages, Bool.eq_iff_iff, List.isEmpty_iff, List.filter_eq_nil_iff]
        simp only [List.all_map, List.all_eq_true, List.forall_mem_map]
        simp [keepFlag]
      have hnone : ((places query.toList).map keepFlag).all (!·) =
          (((layout query.toList).stages.filter DropTimeFilter.isRedundant).length ==
            (layout query.toList).stages.length) := by
        rw [← hstages, Bool.eq_iff_iff, beq_iff_eq, List.length_filter_eq_length_iff]
        simp only [List.all_map, List.all_eq_true, List.forall_mem_map]
        simp [keepFlag]
      have hdropped : ((places query.toList).map fun place => place.2.text).filter
          DropTimeFilter.isTimeFilter =
          ((layout query.toList).stages.filter DropTimeFilter.isRedundant).map Stage.text := by
        rw [← hstages, List.filter_map, List.filter_map, List.map_map]
        rfl
      simp only [scan?_eq, Option.bind_eq_bind, Option.bind_some, htexts, hkeep]
      rw [DropTimeFilter.apply, hall, hnone, hdropped, stages_view]
      by_cases hstay : (((layout query.toList).stages.filter DropTimeFilter.isRedundant).isEmpty ||
          ((layout query.toList).stages.filter DropTimeFilter.isRedundant).length ==
            (layout query.toList).stages.length) = true
      · rw [if_pos hstay, if_pos hstay]
      · have hkept : ∃ place ∈ places query.toList,
            DropTimeFilter.isRedundant place.2 = false := by
          by_contra hno
          refine hstay (Bool.or_eq_true_iff.mpr (.inr ?_))
          rw [← hnone]
          simpa [keepFlag] using hno
        rw [if_neg hstay, if_neg hstay, remaining?_eq hkept, Option.bind_some, List.map_map]
        rfl

end OpalRepair.Bytes
