import Mathlib
import OpalRepair.Proofs.Counting.Section
import OpalRepair.Proofs.Rescan

/-!
# Summing flags

In every stage the sums of the flags take the place of the counts.  The flags of a stage are derived
in the `make_col` stage in front of it, or in a new one.
-/

namespace OpalRepair.FlagCount

open Query Text Vocabulary

/-! ## The stages afterwards -/

namespace Section

def derivations (part : Section) : List Char :=
  List.intercalate ", ".toList (part.segments.map fun segment => segment.count.derivation)

def summed (part : Section) : List Char :=
  (part.segments.flatMap fun segment => text segment.kept ++ segment.count.sum) ++ text part.tail

def makes (part : Section) : Bool := part.stage.hasVerb "make_col"

end Section

def carried : List Section → List Char
  | [] => []
  | part :: _ => if part.segments.isEmpty then [] else ", ".toList ++ part.derivations

/-- The stages in which the counts are replaced; `made` tells whether the stage in front of them
derives columns. -/
def operated : Bool → List Section → List (List Char)
  | _, [] => []
  | made, part :: parts =>
    (if part.segments.isEmpty || made then [] else ["make_col ".toList ++ part.derivations]) ++
      (part.summed ++ if part.makes then carried parts else []) :: operated part.makes parts

/-! ## The same as cells -/

namespace Segment

def derivationRow (segment : Segment) : List Cell :=
  codeRow (segment.count.flag ++ ":if(".toList) ++
    (trimCells segment.inside ++ codeRow ", 1, 0)".toList)

def sumRow (segment : Segment) : List Cell := segment.kept ++ codeRow segment.count.sum

end Segment

namespace Section

def derivationsRow (part : Section) : List Cell :=
  List.intercalate (codeRow ", ".toList) (part.segments.map Segment.derivationRow)

def summedRow (part : Section) : List Cell :=
  part.segments.flatMap Segment.sumRow ++ part.tail

def flags (part : Section) : Stage := ⟨codeRow "make_col ".toList ++ part.derivationsRow, gapRow⟩

end Section

def carriedRow : List Section → List Cell
  | [] => []
  | part :: _ => if part.segments.isEmpty then [] else codeRow ", ".toList ++ part.derivationsRow

def mended : Bool → List Section → List Stage
  | _, [] => []
  | made, part :: parts =>
    (if part.segments.isEmpty || made then [] else [part.flags]) ++
      ⟨part.summedRow ++ if part.makes then carriedRow parts else [], part.gap⟩ ::
        mended part.makes parts

def mendedFrom (made : Bool) (gap : List Cell) (parts : List Section) : List Cell :=
  (if made then carriedRow parts else []) ++ (gap ++ (mended made parts).flatMap Stage.cells)

theorem mendedFrom_cons (made : Bool) (gap : List Cell) (part : Section) (parts : List Section) :
    mendedFrom made gap (part :: parts) =
      (if made then carriedRow (part :: parts) else []) ++
        (gap ++ ((if part.segments.isEmpty || made then [] else part.flags.cells) ++
          (part.summedRow ++ mendedFrom part.makes part.gap parts))) := by
  rw [mendedFrom, mended, mendedFrom]
  cases part.segments.isEmpty || made <;> simp [Stage.cells]

/-! ### Texts -/

theorem text_derivationRow {segment : Segment}
    (h : Spelled segment.count segment.head segment.paren segment.inside segment.close) :
    text segment.derivationRow = segment.count.derivation := by
  rw [Segment.derivationRow, Count.derivation, h.condition, ← text_trimCells]
  simp

def Spells (parts : List Section) : Prop :=
  ∀ part ∈ parts, ∀ segment ∈ part.segments,
    Spelled segment.count segment.head segment.paren segment.inside segment.close

theorem Cut.spells {counts : List Count} {number start : Nat} {parts : List Section}
    (h : Cut counts number start parts) : Spells parts := by
  induction parts generalizing number start with
  | nil => simp [Spells]
  | cons part parts ih =>
      obtain ⟨-, hplaced, -, hrest⟩ := h
      intro other hother
      rcases List.mem_cons.mp hother with rfl | hother
      · exact hplaced.spelled
      · exact ih hrest other hother

theorem text_derivationsRow {part : Section} (h : ∀ segment ∈ part.segments,
      Spelled segment.count segment.head segment.paren segment.inside segment.close) :
    text part.derivationsRow = part.derivations := by
  obtain ⟨segments, tail, gap⟩ := part
  rw [Section.derivationsRow, Section.derivations]
  dsimp only at h ⊢
  induction segments with
  | nil => rfl
  | cons segment segments ih =>
      have hrest := ih fun other hother => h other (by simp [hother])
      have hfirst := text_derivationRow (h segment (by simp))
      cases segments with
      | nil => simpa [List.intercalate] using hfirst
      | cons other segments =>
          simp only [List.map_cons, List.intercalate, List.intersperse_cons_cons, List.flatten_cons,
            text_append, text_codeRow, hfirst] at hrest ⊢
          rw [hrest]

theorem text_summedRow (part : Section) : text part.summedRow = part.summed := by
  rw [Section.summedRow, Section.summed, text_append]
  induction part.segments with
  | nil => rfl
  | cons segment segments ih =>
      simpa [Segment.sumRow] using ih

theorem text_carriedRow {parts : List Section} (h : Spells parts) :
    text (carriedRow parts) = carried parts := by
  cases parts with
  | nil => rfl
  | cons part parts =>
      rw [carriedRow, carried]
      split
      · rfl
      · rw [text_append, text_codeRow, text_derivationsRow (h part (by simp))]

theorem text_mended {made : Bool} {parts : List Section} (h : Spells parts) :
    (mended made parts).map Stage.text = operated made parts := by
  induction parts generalizing made with
  | nil => rfl
  | cons part parts ih =>
      have hrest : Spells parts := fun other hother => h other (by simp [hother])
      rw [mended, operated, List.map_append, List.map_cons, ih hrest]
      congr 1
      · split
        · rfl
        · simp [Section.flags, Stage.text, text_derivationsRow (h part (by simp))]
      · rw [Stage.text, text_append, text_summedRow]
        split
        · rw [text_carriedRow hrest]
        · rfl

/-! ## Splicing the edits -/

def deriveEdit (made : Bool) (stop start : Nat) (part : Section) : List Edit :=
  if part.segments.isEmpty then []
  else if made then [⟨⟨stop, stop⟩, ", ".toList ++ part.derivations⟩]
  else [⟨⟨start, start⟩, "make_col ".toList ++ part.derivations ++ " | ".toList⟩]

def editsFrom (made : Bool) (stop start : Nat) : List Section → List Edit
  | [] => []
  | part :: parts =>
    deriveEdit made stop start part ++ part.segments.map (fun segment => segment.count.edit) ++
      editsFrom part.makes (start + part.body.length) (start + part.stage.cells.length) parts

theorem applyFrom_segments {start : Nat} {segments : List Segment}
    (h : Segment.Placed start segments) (rest : List Char) (edits : List Edit) :
    Edit.applyFrom start (text (segments.flatMap Segment.cells) ++ rest)
        (segments.map (fun segment => segment.count.edit) ++ edits) =
      text (segments.flatMap Segment.sumRow) ++
        Edit.applyFrom (start + (segments.flatMap Segment.cells).length) rest edits := by
  induction segments generalizing start with
  | nil => rfl
  | cons segment segments ih =>
      obtain ⟨-, hspan, hrest⟩ := h
      have hedit : segment.count.edit = ⟨⟨start + (text segment.kept).length,
          start + (text segment.kept).length + (text segment.call).length⟩, segment.count.sum⟩ := by
        rw [Count.edit, hspan]
        simp [Segment.cells, text, Nat.add_assoc]
      have hstop : start + (text segment.kept).length + (text segment.call).length =
          start + segment.cells.length := by
        simp [Segment.cells, text, Nat.add_assoc]
      rw [List.flatMap_cons, text_append, Segment.cells, text_append, List.append_assoc,
        List.append_assoc, List.map_cons, List.cons_append, hedit, Edit.applyFrom_edit, hstop, ih hrest]
      simp [Segment.sumRow, Segment.cells, Nat.add_assoc]

def Behind (position : Nat) (edits : List Edit) : Prop :=
  ∀ edit ∈ edits, position ≤ edit.span.start ∧ edit.span.start ≤ edit.span.stop

theorem behind_segments {start : Nat} {segments : List Segment} (h : Segment.Placed start segments) :
    Behind start (segments.map fun segment => segment.count.edit) := by
  intro edit hedit
  obtain ⟨segment, hsegment, rfl⟩ := List.mem_map.mp hedit
  obtain ⟨hfrom, hlt, -⟩ := h.within segment hsegment
  exact ⟨hfrom, hlt.le⟩

theorem Behind.append {position : Nat} {a b : List Edit} (ha : Behind position a)
    (hb : Behind position b) : Behind position (a ++ b) := fun edit hedit =>
  (List.mem_append.mp hedit).elim (ha edit) (hb edit)

theorem Behind.mono {position other : Nat} {edits : List Edit} (h : Behind position edits)
    (hle : other ≤ position) : Behind other edits := fun edit hedit =>
  ⟨hle.trans (h edit hedit).1, (h edit hedit).2⟩

theorem behind_deriveEdit {made : Bool} {stop start : Nat} (h : stop ≤ start) (part : Section) :
    Behind stop (deriveEdit made stop start part) := by
  intro edit hedit
  rw [deriveEdit] at hedit
  split at hedit
  · simp at hedit
  · split at hedit
    · obtain rfl := List.mem_singleton.mp hedit
      exact ⟨le_rfl, le_rfl⟩
    · obtain rfl := List.mem_singleton.mp hedit
      exact ⟨h, le_rfl⟩

theorem body_le_cells (part : Section) : part.body.length ≤ part.stage.cells.length := by
  simp [Section.stage, Stage.cells]

theorem behind_editsFrom {counts : List Count} {number : Nat} {made : Bool} {stop start : Nat}
    {parts : List Section} (hcut : Cut counts number start parts) (hstop : stop ≤ start) :
    Behind stop (editsFrom made stop start parts) := by
  induction parts generalizing number made stop start with
  | nil => simp [editsFrom, Behind]
  | cons part parts ih =>
      obtain ⟨-, hplaced, -, hrest⟩ := hcut
      have hnext : Behind _ (editsFrom part.makes _ _ parts) :=
        ih hrest (Nat.add_le_add_left (body_le_cells part) start)
      exact ((behind_deriveEdit hstop part).append ((behind_segments hplaced).mono hstop)).append
        (hnext.mono (hstop.trans (Nat.le_add_right _ _)))

theorem applyFrom_section {start : Nat} {part : Section} (h : Segment.Placed start part.segments)
    {edits : List Edit} (hedits : Behind (start + part.body.length) edits) (rest : List Char) :
    Edit.applyFrom start (text part.body ++ rest)
        (part.segments.map (fun segment => segment.count.edit) ++ edits) =
      text part.summedRow ++ Edit.applyFrom (start + part.body.length) rest edits := by
  have hlength : start + (part.segments.flatMap Segment.cells).length + (text part.tail).length =
      start + part.body.length := by
    simp [Section.body, text, Nat.add_assoc]
  rw [show text part.body = text (part.segments.flatMap Segment.cells) ++ text part.tail from
      text_append _ _, List.append_assoc, applyFrom_segments h,
    Edit.applyFrom_skip _ _ _ (by rw [hlength]; exact hedits), hlength, Section.summedRow]
  simp

theorem applyFrom_editsFrom {counts : List Count} {number : Nat} {made : Bool} {stop : Nat}
    {gap : List Cell} {parts : List Section} (hcut : Cut counts number (stop + gap.length) parts) :
    Edit.applyFrom stop (text (gap ++ (parts.map Section.stage).flatMap Stage.cells))
        (editsFrom made stop (stop + gap.length) parts) =
      text (mendedFrom made gap parts) := by
  induction parts generalizing number made stop gap with
  | nil => cases made <;> simp [editsFrom, Edit.applyFrom, mendedFrom, mended, carriedRow]
  | cons part parts ih =>
      have hspelled := hcut.spells part (by simp)
      obtain ⟨-, hplaced, -, hrest⟩ := hcut
      -- Behind the stage the edits of the other stages go on.
      have hbehind : Behind (stop + gap.length + part.body.length)
          (editsFrom part.makes (stop + gap.length + part.body.length)
            (stop + gap.length + part.stage.cells.length) parts) :=
        behind_editsFrom hrest (Nat.add_le_add_left (body_le_cells part) _)
      have hnext : Edit.applyFrom (stop + gap.length + part.body.length)
          (text (part.gap ++ (parts.map Section.stage).flatMap Stage.cells))
          (editsFrom part.makes (stop + gap.length + part.body.length)
            (stop + gap.length + part.stage.cells.length) parts) =
          text (mendedFrom part.makes part.gap parts) := by
        have hstart : stop + gap.length + part.stage.cells.length =
            stop + gap.length + part.body.length + part.gap.length := by
          simp [Section.stage, Stage.cells, Nat.add_assoc]
        rw [hstart] at hrest ⊢
        exact ih hrest
      have hbody := applyFrom_section hplaced hbehind
        (text (part.gap ++ (parts.map Section.stage).flatMap Stage.cells))
      rw [hnext] at hbody
      have hrow : text (gap ++ ((part :: parts).map Section.stage).flatMap Stage.cells) =
          text gap ++ (text part.body ++
            text (part.gap ++ (parts.map Section.stage).flatMap Stage.cells)) := by
        simp [Section.stage, Stage.cells]
      have hgap : stop + (text gap).length = stop + gap.length := by simp [text]
      have hskip := Edit.applyFrom_skip stop (text gap) (text part.body ++
          text (part.gap ++ (parts.map Section.stage).flatMap Stage.cells))
        (hgap ▸ (behind_segments hplaced).append (hbehind.mono (Nat.le_add_right _ _)))
      rw [hgap, hbody] at hskip
      rw [hrow, mendedFrom_cons, editsFrom, deriveEdit, List.append_assoc]
      cases hempty : part.segments.isEmpty with
      | true =>
          rw [if_pos rfl, List.nil_append, hskip]
          simp [carriedRow, hempty]
      | false =>
          rw [if_neg (by simp)]
          cases made with
          | true =>
              have hinsert := Edit.applyFrom_insert stop []
              simp only [List.nil_append, List.length_nil, Nat.add_zero] at hinsert
              rw [if_pos rfl, List.singleton_append, hinsert, hskip]
              simp [carriedRow, hempty, text_derivationsRow hspelled]
          | false =>
              have hinsert := Edit.applyFrom_insert stop (text gap)
              rw [hgap] at hinsert
              rw [if_neg (by simp), List.singleton_append, hinsert, hbody]
              simp [Section.flags, Stage.cells, text_derivationsRow hspelled, gapRow]

/-! ## The order of the edits -/

def derivesFrom (made : Bool) (stop start : Nat) : List Section → List Edit
  | [] => []
  | part :: parts =>
    deriveEdit made stop start part ++
      derivesFrom part.makes (start + part.body.length) (start + part.stage.cells.length) parts

theorem editsFrom_perm (made : Bool) (stop start : Nat) (parts : List Section) :
    ((parts.flatMap fun part => part.segments.map Segment.count).map Count.edit ++
      derivesFrom made stop start parts).Perm (editsFrom made stop start parts) := by
  induction parts generalizing made stop start with
  | nil => exact .nil
  | cons part parts ih =>
      have hrest := ih part.makes (start + part.body.length) (start + part.stage.cells.length)
      rw [← Multiset.coe_eq_coe] at hrest ⊢
      rw [editsFrom, derivesFrom, List.flatMap_cons, List.map_append, List.map_map,
        ← Multiset.coe_add, ← Multiset.coe_add, ← Multiset.coe_add, ← Multiset.coe_add,
        ← Multiset.coe_add, ← hrest, ← Multiset.coe_add]
      rw [Function.comp_def]
      abel

theorem pairwise_segments {start : Nat} {segments : List Segment}
    (h : Segment.Placed start segments) :
    (segments.map fun segment => segment.count.edit).Pairwise fun a b =>
      a.span.start < b.span.start := by
  induction segments generalizing start with
  | nil => exact .nil
  | cons segment segments ih =>
      obtain ⟨hspelled, hspan, hrest⟩ := h
      refine List.pairwise_cons.mpr ⟨fun edit hedit => ?_, ih hrest⟩
      have hbehind := (behind_segments hrest edit hedit).1
      have hstart : segment.count.edit.span.start < start + segment.cells.length := by
        simp [Count.edit, hspan, Segment.cells, Segment.call]
      change segment.count.edit.span.start < edit.span.start
      omega

theorem pairwise_editsFrom {counts : List Count} {number : Nat} {made : Bool} {stop start : Nat}
    {parts : List Section} (hcut : Cut counts number start parts) (hstop : stop ≤ start) :
    (editsFrom made stop start parts).Pairwise fun a b => a.span ≠ b.span ∧ a.le b = true := by
  induction parts generalizing number made stop start with
  | nil => exact .nil
  | cons part parts ih =>
      obtain ⟨-, hplaced, -, hrest⟩ := hcut
      have hbody : (part.segments.flatMap Segment.cells).length ≤ part.body.length := by
        simp [Section.body]
      have hle := Nat.add_le_add_left (body_le_cells part) start
      have hbehind : Behind _ (editsFrom part.makes _ _ parts) := behind_editsFrom hrest hle
      -- Flags are derived in front of the counts.
      have hderive : ∀ edit ∈ deriveEdit made stop start part, edit.span.start ≤ start ∧
          edit.span.stop = edit.span.start ∧ part.segments ≠ [] := by
        intro edit hedit
        rw [deriveEdit] at hedit
        split at hedit
        · simp at hedit
        · rename_i hne
          have hne : part.segments ≠ [] := by simpa using hne
          split at hedit <;> obtain rfl := List.mem_singleton.mp hedit
          · exact ⟨hstop, rfl, hne⟩
          · exact ⟨le_rfl, rfl, hne⟩
      refine List.pairwise_append.mpr ⟨List.pairwise_append.mpr ⟨?_, ?_, ?_⟩, ih hrest hle, ?_⟩
      · rw [deriveEdit]
        split
        · exact .nil
        · split <;> exact List.pairwise_singleton _ _
      · exact (pairwise_segments hplaced).imp Edit.ordered_of_start_lt
      · intro edit hedit other hother
        obtain ⟨hfrom, hempty, -⟩ := hderive edit hedit
        obtain ⟨segment, hsegment, rfl⟩ := List.mem_map.mp hother
        obtain ⟨hstart, hlt, -⟩ := hplaced.within segment hsegment
        have hstop : edit.span.stop < segment.count.edit.span.stop := by
          change edit.span.stop < segment.count.span.stop
          omega
        refine ⟨fun heq => by rw [heq] at hstop; exact lt_irrefl _ hstop, (Bytes.le_iff _ _).mpr ?_⟩
        change edit.span.start < segment.count.span.start ∨
          edit.span.start = segment.count.span.start ∧ edit.span.stop ≤ segment.count.span.stop
        omega
      · intro edit hedit other hother
        have hother := (hbehind other hother).1
        refine Edit.ordered_of_start_lt (lt_of_lt_of_le ?_ hother)
        rcases List.mem_append.mp hedit with hedit | hedit
        · obtain ⟨hfrom, -, hne⟩ := hderive edit hedit
          obtain ⟨segment, hsegment⟩ := List.exists_mem_of_ne_nil _ hne
          obtain ⟨hstart, hlt, hwithin⟩ := hplaced.within segment hsegment
          omega
        · obtain ⟨segment, hsegment, rfl⟩ := List.mem_map.mp hedit
          obtain ⟨-, hlt, hwithin⟩ := hplaced.within segment hsegment
          change segment.count.span.start < _
          omega

section Query

variable {query : List Char}

theorem counts_perm {counts : List Count} {number start : Nat} {parts : List Section}
    (hcut : Cut counts number start parts) (hstage : ∀ count ∈ counts, count.stage < number + parts.length) :
    (counts.filter (number ≤ ·.stage)).Perm
      (parts.flatMap fun part => part.segments.map Segment.count) := by
  induction parts generalizing number start with
  | nil =>
      rw [List.filter_eq_nil_iff.mpr fun count hcount => by simpa using hstage count hcount]
      exact .nil
  | cons part parts ih =>
      obtain ⟨hcounts, -, -, hrest⟩ := hcut
      have hnext := ih hrest fun count hcount => by
        have := hstage count hcount
        simp at this
        omega
      rw [List.flatMap_cons, hcounts]
      refine List.Perm.trans ?_ (hnext.append_left _)
      have hsplit := List.filter_append_perm (·.stage == number) (counts.filter (number ≤ ·.stage))
      rw [List.filter_filter, List.filter_filter] at hsplit
      refine hsplit.symm.trans (List.Perm.of_eq (congrArg₂ _ ?_ ?_))
      · refine List.filter_congr fun count _ => ?_
        rw [Bool.eq_iff_iff]
        simp
        omega
      · refine List.filter_congr fun count _ => ?_
        rw [Bool.eq_iff_iff]
        simp
        omega

theorem stage_lt {count : Count} (h : count ∈ found query) :
    count.stage < (layout query).stages.length := by
  obtain ⟨front, rest, hrow, -, hcount⟩ := (mem_counts (layout query)).mp h
  obtain ⟨_, _, _, _, _, -, -, -, haggregation, -⟩ := countAt?_eq_some hrow hcount
  obtain ⟨hfind, -⟩ := Option.filter_eq_some_iff.mp haggregation
  obtain ⟨hlength, -⟩ := List.findIdx?_eq_some_iff_getElem.mp hfind
  rw [Bytes.spans_length, List.length_map, places, length_placesFrom] at hlength
  exact hlength

theorem derive?_eq {pre post : List Section} {part : Section}
    (hstages : (layout query).stages = (pre ++ part :: post).map Section.stage) {counts : List Count}
    (hcounts : part.segments.map Segment.count = counts.filter (·.stage == pre.length)) {made : Bool}
    {stop : Nat}
    (hbefore : pre = [] ∧ made = false ∨ ∃ front last, pre = front ++ [last] ∧ made = last.makes ∧
      stop = ((layout query).lead ++ (front.map Section.stage).flatMap Stage.cells).length +
        last.body.length) :
    (derive? (layout query) counts pre.length).toList = deriveEdit made stop
      ((layout query).lead ++ (pre.map Section.stage).flatMap Stage.cells).length part := by
  have hown : (part.segments.map Segment.count).isEmpty = part.segments.isEmpty := by
    cases part.segments <;> rfl
  have hspan := getElem?_spans_stage (hstages.trans List.map_append)
  rw [List.length_map] at hspan
  rw [derive?, ← hcounts, hown, List.map_map, deriveEdit]
  cases part.segments.isEmpty with
  | true => rfl
  | false =>
      rcases hbefore with ⟨rfl, rfl⟩ | ⟨front, last, rfl, rfl, rfl⟩
      · simp only [List.length_nil] at hspan
        simp [hspan, Section.derivations, Function.comp_def]
      · have hprevious : (layout query).stages[front.length]? = some last.stage := by
          rw [hstages]
          simp
        have hlastSpan := getElem?_spans_stage (show (layout query).stages =
          front.map Section.stage ++ last.stage :: (part :: post).map Section.stage by
            rw [hstages]
            simp)
        rw [List.length_map] at hlastSpan
        have hnumber : (front ++ [last]).length - 1 = front.length := by simp
        have hpositive : ((front ++ [last]).length != 0) = true := by simp
        have hmakes : last.stage.hasVerb "make_col" = last.makes := rfl
        simp only [hnumber, hpositive, hprevious, hlastSpan, hspan, Option.any_some, Bool.true_and,
          Option.map_some, Function.comp_def, Bool.false_eq_true, if_false]
        rw [hmakes, Section.derivations]
        cases last.makes <;> rfl

theorem filterMap_derive? {pre parts : List Section}
    (hstages : (layout query).stages = (pre ++ parts).map Section.stage) {counts : List Count}
    (hcut : Cut counts pre.length
      ((layout query).lead ++ (pre.map Section.stage).flatMap Stage.cells).length parts) {made : Bool}
    {stop : Nat}
    (hbefore : pre = [] ∧ made = false ∨ ∃ front last, pre = front ++ [last] ∧ made = last.makes ∧
      stop = ((layout query).lead ++ (front.map Section.stage).flatMap Stage.cells).length +
        last.body.length) :
    (List.range' pre.length parts.length).filterMap (derive? (layout query) counts) =
      derivesFrom made stop
        ((layout query).lead ++ (pre.map Section.stage).flatMap Stage.cells).length parts := by
  induction parts generalizing pre made stop with
  | nil => rfl
  | cons part parts ih =>
      obtain ⟨hcounts, -, -, hrest⟩ := hcut
      have hstart : ((layout query).lead ++ (pre.map Section.stage).flatMap Stage.cells).length +
          part.stage.cells.length = ((layout query).lead ++
            ((pre ++ [part]).map Section.stage).flatMap Stage.cells).length := by
        simp [Nat.add_assoc]
      rw [hstart] at hrest
      have hstages' : (layout query).stages = ((pre ++ [part]) ++ parts).map Section.stage := by
        rw [hstages]
        simp
      have hnext := ih hstages' (by simpa using hrest) (.inr ⟨pre, part, rfl, rfl, rfl⟩)
      rw [List.length_cons, List.range'_succ, derivesFrom, ← derive?_eq hstages hcounts hbefore, hstart,
        ← hnext, List.filterMap_cons]
      cases derive? (layout query) counts pre.length <;> simp

theorem sort_edits_cut {parts : List Section}
    (hstages : (layout query).stages = parts.map Section.stage)
    (hcut : Cut (found query) 0 (layout query).lead.length parts) :
    Edit.sort (edits (layout query) (found query)) =
      editsFrom false 0 (layout query).lead.length parts := by
  refine Edit.sort_eq_of_perm (List.Perm.trans ?_ (editsFrom_perm _ _ _ _))
    (pairwise_editsFrom hcut (Nat.zero_le _))
  have hderives : (List.range (layout query).stages.length).filterMap
      (derive? (layout query) (found query)) =
        derivesFrom false 0 (layout query).lead.length parts := by
    have hstages' : (layout query).stages = ([] ++ parts).map Section.stage := hstages
    have hfrom : _ = derivesFrom false 0 _ parts :=
      filterMap_derive? hstages' (by simpa using hcut) (.inl ⟨rfl, rfl⟩)
    rw [hstages, List.length_map, List.range_eq_range']
    simpa using hfrom
  rw [edits, hderives]
  refine List.Perm.append_right _ (List.Perm.map _ ?_)
  have hperm := counts_perm hcut fun count hcount => by
    have := stage_lt hcount
    rwa [hstages, List.length_map, ← Nat.zero_add parts.length] at this
  simpa using hperm

theorem splice_edits {parts : List Section}
    (hstages : (layout query).stages = parts.map Section.stage)
    (hcut : Cut (found query) 0 (layout query).lead.length parts) :
    Edit.splice query (edits (layout query) (found query)) =
      text (mendedFrom false (layout query).lead parts) := by
  have hcells : query = text ((layout query).lead ++ (parts.map Section.stage).flatMap Stage.cells) := by
    rw [← hstages]
    exact (text_cells query).symm.trans (congrArg text (cells_eq_layout query))
  have happly : Edit.applyFrom 0 _ (editsFrom false 0 (0 + (layout query).lead.length) parts) =
      text (mendedFrom false (layout query).lead parts) :=
    applyFrom_editsFrom (by simpa using hcut)
  rw [← hcells, Nat.zero_add] at happly
  rw [Edit.splice, sort_edits_cut hstages hcut, happly]

end Query

end OpalRepair.FlagCount
