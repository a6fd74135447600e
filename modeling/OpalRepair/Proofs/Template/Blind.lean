import Mathlib
import OpalRepair.Proofs.Template.Count
import OpalRepair.Proofs.Template.Fragment
import OpalRepair.Proofs.Template.Key

/-!
# Blindness to literals

What is written inside a literal neither makes a pass fire nor keeps it from firing, and it comes
out of the pass as it went in.  So the output is one template for all contents of the literal.
-/

namespace OpalRepair

open Query Text Vocabulary Template

/-! ## Flags for counts around a literal -/

namespace FlagCount

namespace HoledCount

def derivation (count : HoledCount) : Template :=
  plain (count.label ++ "_flag".toList ++ ":if(".toList) ++ count.condition ++
    plain ", 1, 0)".toList

theorem derivation_fill (hole : Nat) (word : List Char) (count : HoledCount) :
    (fill hole word count).derivation = Template.fill word count.derivation := by
  simp [fill, derivation, Count.derivation, Count.flag]

def edit (count : HoledCount) : HoledEdit :=
  ⟨count.span, plain (Count.sum ⟨count.stage, count.span, count.label, []⟩)⟩

theorem edit_fill (hole : Nat) (word : List Char) (count : HoledCount) :
    (fill hole word count).edit = HoledEdit.fill hole word count.edit := by
  simp [fill, edit, Count.edit, HoledEdit.fill, placeSpan, Count.sum, Count.flag]

end HoledCount

section Flags

variable {kind : Literal} {front behind : List Cell}

theorem exists_aggregation? (kind : Literal) (front behind : List Cell) :
    ∃ numberAt : Nat → Option Nat, ∀ content position,
      aggregation? (Layout.ofCells (front ++ (literalRow kind content ++ behind)))
        (place front.length (content.length + 2) position) = numberAt position := by
  obtain ⟨spans, verbs, -, -, h⟩ := exists_spans kind front behind
  refine ⟨fun position => (spans.findIdx? (·.contains position)).filter fun number =>
    (verbs[number]?).join.any aggregationVerbs.contains, fun content position => ?_⟩
  obtain ⟨hspans, hverbs⟩ := h content
  have hcontains (span : Span) : (placeSpan front.length (content.length + 2) span).contains
      (place front.length (content.length + 2) position) = span.contains position :=
    contains_placeSpan (by omega) ..
  rw [aggregation?, hspans, List.findIdx?_map, ← hverbs]
  congr 1
  · funext number
    rw [List.getElem?_map]
    cases (Layout.ofCells (front ++ (literalRow kind content ++ behind))).stages[number]? <;> rfl
  · congr 1
    funext span
    exact hcontains span

theorem exists_derive? (kind : Literal) (front behind : List Cell) (counts : List HoledCount)
    (number : Nat) :
    ∃ edit? : Option HoledEdit, (∀ edit ∈ edit?, edit.span.start ≤ edit.span.stop) ∧ ∀ content,
      derive? (Layout.ofCells (front ++ (literalRow kind content ++ behind)))
          (counts.map (HoledCount.fill front.length (text (literalRow kind content)))) number =
        edit?.map (HoledEdit.fill front.length (text (literalRow kind content))) := by
  obtain ⟨spans, verbs, -, -, h⟩ := exists_spans kind front behind
  have hword (content : List Char) : (text (literalRow kind content)).length = content.length + 2 := by
    simp
  let own := counts.filter (·.stage == number)
  have hown (content : List Char) :
      (counts.map (HoledCount.fill front.length (text (literalRow kind content)))).filter
          (·.stage == number) =
        own.map (HoledCount.fill front.length (text (literalRow kind content))) := by
    rw [List.filter_map]
    rfl
  let derivations := List.intercalate (plain ", ".toList) (own.map HoledCount.derivation)
  have hderivations (content : List Char) :
      List.intercalate ", ".toList ((own.map (HoledCount.fill front.length
        (text (literalRow kind content)))).map Count.derivation) =
          Template.fill (text (literalRow kind content)) derivations := by
    rw [fill_intercalate, List.map_map, List.map_map]
    congr 2
    funext count
    exact count.derivation_fill ..
  have hverb (content : List Char) :
      (((Layout.ofCells (front ++ (literalRow kind content ++ behind))).stages[number - 1]?).any
        (·.hasVerb "make_col")) = (verbs[number - 1]?).any (· == some "make_col") := by
    rw [← (h content).2, List.getElem?_map, Option.any_map]
    rfl
  cases hempty : own.isEmpty with
  | true =>
      refine ⟨none, by simp, fun content => ?_⟩
      rw [derive?, hown, List.isEmpty_map, hempty]
      rfl
  | false =>
  cases hcol : number != 0 && (verbs[number - 1]?).any (· == some "make_col") with
  | true =>
      refine ⟨(spans[number - 1]?).map fun span =>
        ⟨⟨span.stop, span.stop⟩, plain ", ".toList ++ derivations⟩, ?_, fun content => ?_⟩
      · intro edit hedit
        obtain ⟨span, -, rfl⟩ := Option.map_eq_some_iff.mp hedit
        exact le_rfl
      · rw [derive?, hown, List.isEmpty_map, hempty, hderivations, hverb, hcol, (h content).1,
          List.getElem?_map, Option.map_map]
        simp [Function.comp_def, HoledEdit.fill, placeSpan]
  | false =>
      refine ⟨(spans[number]?).map fun span => ⟨⟨span.start, span.start⟩,
        plain "make_col ".toList ++ derivations ++ plain " | ".toList⟩, ?_, fun content => ?_⟩
      · intro edit hedit
        obtain ⟨span, -, rfl⟩ := Option.map_eq_some_iff.mp hedit
        exact le_rfl
      · rw [derive?, hown, List.isEmpty_map, hempty, hderivations, hverb, hcol, (h content).1,
          List.getElem?_map, Option.map_map]
        simp [Function.comp_def, HoledEdit.fill, placeSpan]

theorem exists_edits (kind : Literal) (front behind : List Cell) {counts : List HoledCount}
    (hcounts : ∀ count ∈ counts, count.span.start ≤ count.span.stop) :
    ∃ holed : List HoledEdit, (∀ edit ∈ holed, edit.span.start ≤ edit.span.stop) ∧ ∀ content,
      edits (Layout.ofCells (front ++ (literalRow kind content ++ behind)))
          (counts.map (HoledCount.fill front.length (text (literalRow kind content)))) =
        holed.map (HoledEdit.fill front.length (text (literalRow kind content))) := by
  obtain ⟨spans, verbs, -, -, h⟩ := exists_spans kind front behind
  choose derive hle hderive using exists_derive? kind front behind counts
  have hlength (content : List Char) :
      (Layout.ofCells (front ++ (literalRow kind content ++ behind))).stages.length =
        verbs.length := by
    rw [← (h content).2, List.length_map]
  refine ⟨counts.map HoledCount.edit ++ (List.range verbs.length).filterMap derive, ?_,
    fun content => ?_⟩
  · intro edit hedit
    rcases List.mem_append.mp hedit with hedit | hedit
    · obtain ⟨count, hcount, rfl⟩ := List.mem_map.mp hedit
      exact hcounts count hcount
    · obtain ⟨number, -, hedit⟩ := List.mem_filterMap.mp hedit
      exact hle number edit hedit
  · rw [edits, hlength, List.map_append, List.map_map, List.map_map, List.map_filterMap]
    congr 1
    · exact List.map_congr_left fun count _ => count.edit_fill ..
    · exact List.filterMap_congr fun number _ => hderive number content

theorem blind_apply (context : Context) {query : List Char → List Char} {ok : List Char → Prop}
    (hempty : ok [])
    (hcells : ∀ content, ok content →
      cells (query content) = front ++ (literalRow kind content ++ behind)) :
    flagCount.Blind context ok query := by
  let layoutOf := fun content => Layout.ofCells (front ++ (literalRow kind content ++ behind))
  obtain ⟨numberAt, hnumber⟩ := exists_aggregation? kind front behind
  obtain ⟨counts, hcounts⟩ : ∃ counts : List HoledCount, ∀ content,
      FlagCount.counts (front ++ (literalRow kind content ++ behind)) (layoutOf content) =
        counts.map (HoledCount.fill front.length (text (literalRow kind content))) :=
    exists_counts hnumber kind behind
  -- The spans of the counts are ordered in the template because they are in one query.
  have hspans : ∀ count ∈ counts, count.span.start ≤ count.span.stop := by
    intro count hcount
    have hmem : HoledCount.fill front.length (text (literalRow kind [])) count ∈
        FlagCount.counts (cells (query [])) (layout (query [])) := by
      rw [layout, hcells [] hempty, hcounts]
      exact List.mem_map_of_mem hcount
    have hwithin := (Bytes.within_count hmem).1
    exact (place_le_iff (by simp)).mp hwithin
  obtain ⟨edits, hle, hedits⟩ := exists_edits kind front behind hspans
  obtain ⟨template, htemplate⟩ :=
    @HoledEdit.exists_splice (text front) (text behind) edits hle
  refine ⟨delimited kind.delimiter template, !counts.isEmpty, fun content hcontent => ?_⟩
  have hword : text (literalRow kind content) = kind.delimiter :: (content ++ [kind.delimiter]) := by
    simp
  have hquery : query content =
      Template.fill (text (literalRow kind content)) (holed (text front) (text behind)) := by
    rw [fill_holed, ← text_append, ← text_append, ← hcells content hcontent, text_cells]
  have hlength : (text front).length = front.length := by simp [text]
  constructor
  · simp only [flagCount, apply, Outcome.ofChanges, String.toList_ofList, hcells content hcontent]
    rw [hcounts, hedits, hquery, ← hlength, htemplate _ (by simp), fill_delimited, hword]
  · simp only [flagCount, apply, Outcome.ofChanges, Outcome.fired, String.toList_ofList,
      hcells content hcontent]
    rw [hcounts]
    cases counts <;> rfl

end Flags

end FlagCount

/-! ## Patches around a literal -/

section Patches

variable {kind : Literal} {front behind : List Cell} {query : List Char → List Char}

theorem QuoteKey.blind_apply (context : Context) {ok : List Char → Prop}
    (hcells : ∀ content, ok content →
      cells (query content) = front ++ (literalRow kind content ++ behind)) :
    quoteKey.Blind context ok query := by
  obtain ⟨template, quiet, h⟩ := patterned_ofFragments kind front behind
  refine Pass.blind_ofPatch ⟨template, quiet, fun content hcontent => ?_⟩
  dsimp only
  rw [patch, hcells content hcontent, ← List.append_assoc]
  exact h content trivial

theorem SortCall.blind_apply (context : Context) (hback : '\\' ∉ query [])
    (hempty : kind.Holds [])
    (hcells : ∀ content, kind.Holds content →
      cells (query content) = front ++ (literalRow kind content ++ behind)) :
    sortCall.Blind context kind.Holds query := by
  obtain ⟨lead, before, start, body, gap, stages, -, hlayout⟩ := Layout.exists_stage kind front behind
  have hquery {content : List Char} (hcontent : kind.Holds content) : layout (query content) =
      ⟨lead, before ++ ⟨start ++ (literalRow kind content ++ body), gap⟩ :: stages⟩ := by
    rw [layout, hcells content hcontent, hlayout]
  have hstage : Patch.Patterned kind.Holds fun content =>
      Stage.pieces mendStage? ⟨start ++ (literalRow kind content ++ body), gap⟩ := by
    refine Patch.patterned_pieces gap (around kind (text start) (text body)) (fun content => ?_)
      (patterned?_mendStage? hback (congrArg Layout.stages (hquery hempty)))
    rw [Literal.text_between, fill_around]
  have hpatch := ((Patch.Patterned.const (.keep (text lead) ::
    before.flatMap (Stage.pieces mendStage?))).append hstage).append
      (Patch.Patterned.const (stages.flatMap (Stage.pieces mendStage?)))
  obtain ⟨template, quiet, h⟩ := hpatch
  refine Pass.blind_ofPatch ⟨template, quiet, fun content hcontent => ?_⟩
  have hpieces : patch (query content) = (.keep (text lead) ::
      before.flatMap (Stage.pieces mendStage?)) ++
        Stage.pieces mendStage? ⟨start ++ (literalRow kind content ++ body), gap⟩ ++
          stages.flatMap (Stage.pieces mendStage?) := by
    rw [patch, hquery hcontent, Patch.ofStages]
    simp
  dsimp only
  rw [hpieces]
  exact h content hcontent

end Patches

/-! ## The passes that rewrite expressions -/

theorem Query.Scanner.escaped_finish {s : Scanner} (hescaped : s.escaped = false)
    {text : List Char} (hback : '\\' ∉ text) : (s.finish text).escaped = false := by
  induction text generalizing s with
  | nil => exact hescaped
  | cons c text ih =>
      obtain ⟨hc, htext⟩ : '\\' ≠ c ∧ '\\' ∉ text := by simpa using hback
      refine ih ?_ htext
      rw [step]
      cases s.mode with
      | flags more => exact hescaped
      | code =>
          dsimp only
          rw [if_neg (by simp [hescaped]), if_neg hc.symm]
          split <;> exact hescaped
      | inside literal =>
          dsimp only
          rw [if_neg (by simp [hescaped]), if_neg hc.symm]
          split <;> exact hescaped

/-- Quoting keys, mending sort keys and counting by flags treat the content of a literal as a black
box, wherever the literal is opened in code. -/
theorem blind_to_literals {pass : Pass} (hpass : pass ∈ [quoteKey, sortCall, flagCount])
    {kind : Literal} {p s : List Char} (hmode : (scan p).final.mode = .code)
    (hregex : kind = .regex → opensRegex (scan p).final.last = true)
    (hp : '\\' ∉ p) (hs : '\\' ∉ s) (context : Context) :
    pass.Blind context kind.Holds (kind.between p s) := by
  have hescaped : (scan p).final.escaped = false := Scanner.escaped_finish rfl hp
  have hopened : Literal.openedBy? (scan p).final.last kind.delimiter = some kind := by
    cases kind with
    | double | single => simp [Literal.openedBy?, Literal.delimiter]
    | regex => simp [Literal.openedBy?, Literal.delimiter, hregex]
  have hcells (content : List Char) (hcontent : kind.Holds content) :
      cells (kind.between p s content) =
        cells p ++ (literalRow kind content ++ (Scanner.behindLiteral kind s).paint s) := by
    rw [← List.append_assoc]
    exact (scan_literal hmode hescaped hopened hcontent.1 hcontent.2 s).1
  have hempty : kind.Holds [] := ⟨by simp, by simp⟩
  have hback : '\\' ∉ kind.between p s [] := by
    have hdelimiter : '\\' ≠ kind.delimiter := by cases kind <;> decide
    simp [Literal.between, hp, hs, hdelimiter]
  have hcases : pass = quoteKey ∨ pass = sortCall ∨ pass = flagCount := by simpa using hpass
  rcases hcases with rfl | rfl | rfl
  · exact QuoteKey.blind_apply context hcells
  · exact SortCall.blind_apply context hback hempty hcells
  · exact FlagCount.blind_apply context hempty hcells

/-- A regex in a condition moves into the flag column, and a parenthesis in it closes nothing. -/
theorem blind_to_literals_condition :
    flagCount.Blind {} Literal.regex.Holds
        (Literal.regex.between "statsby n:count_if(path ~ ".toList ") | sort -n".toList) ∧
      Literal.regex.Holds "x) | y".toList ∧
      (flagCount.apply {} "statsby n:count_if(path ~ /x) | y/) | sort -n").query =
        "make_col n_flag:if(path ~ /x) | y/, 1, 0) | statsby n:sum(n_flag) | sort -n" := by
  refine ⟨blind_to_literals (by simp) rfl (fun _ => rfl) (by decide) (by decide) {}, ?_, ?_⟩
  · exact ⟨by decide, by decide⟩
  · decide

end OpalRepair
