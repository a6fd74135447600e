import Mathlib
import OpalRepair.Proofs.Counting.Call
import OpalRepair.Proofs.Splice

/-!
# Counts that are replaced

Every count found is reported, but only edits that do not overlap take effect.  The report is right
as long as no count stands inside another.
-/

namespace OpalRepair.FlagCount

open Query Text Vocabulary

/-- The counts in the place of which the sum of their flags is put. -/
def replaced (layout : Layout) (counts : List Count) : List Count :=
  counts.filter fun count => count.edit ∈ Edit.kept (edits layout counts)

/-- The counts whose flags are derived in front of their stage. -/
def derived (layout : Layout) (counts : List Count) : List Count :=
  counts.filter fun count =>
    (derive? layout counts count.stage).any (· ∈ Edit.kept (edits layout counts))

theorem start_of_derive? {layout : Layout} {counts : List Count} {number : Nat} {edit : Edit}
    (h : derive? layout counts number = some edit) : edit.span.stop = edit.span.start := by
  simp only [derive?] at h
  split at h
  · simp at h
  · split at h
    · obtain ⟨span, -, rfl⟩ := Option.map_eq_some_iff.mp h
      rfl
    · obtain ⟨span, -, rfl⟩ := Option.map_eq_some_iff.mp h
      rfl

theorem mem_edits {layout : Layout} {counts : List Count} {edit : Edit} :
    edit ∈ edits layout counts ↔ (∃ count ∈ counts, count.edit = edit) ∨
      ∃ number < layout.stages.length, derive? layout counts number = some edit := by
  simp [edits, List.mem_filterMap]

section Query

variable {query : List Char} {layout : Layout}

theorem start_le_stop_of_mem_edits {edit : Edit}
    (h : edit ∈ edits layout (counts (cells query) layout)) :
    edit.span.start ≤ edit.span.stop := by
  rcases mem_edits.mp h with ⟨count, hcount, rfl⟩ | ⟨number, -, hderive⟩
  · exact (start_lt_stop hcount).le
  · exact (start_of_derive? hderive).ge

theorem eq_of_start {a b : Count} (ha : a ∈ counts (cells query) layout)
    (hb : b ∈ counts (cells query) layout) (h : a.span.start = b.span.start) : a = b := by
  obtain ⟨front, rest, hrow, -, hcount⟩ := (mem_counts layout).mp ha
  obtain ⟨front', rest', hrow', -, hcount'⟩ := (mem_counts layout).mp hb
  obtain ⟨_, _, _, _, _, -, -, hspan, -⟩ := countAt?_eq_some hrow hcount
  obtain ⟨_, _, _, _, _, -, -, hspan', -⟩ := countAt?_eq_some hrow' hcount'
  have hlength : front.length = front'.length := by simpa [hspan, hspan'] using h
  obtain ⟨rfl, rfl⟩ := List.append_inj (hrow.symm.trans hrow') hlength
  exact Option.some.inj (hcount.symm.trans hcount')

theorem replaced_of_apart
    (h : ∀ inner ∈ counts (cells query) layout, ∀ outer ∈ counts (cells query) layout,
      ¬ inner.Within outer) :
    replaced layout (counts (cells query) layout) = counts (cells query) layout := by
  refine List.filter_eq_self.mpr fun count hcount => decide_eq_true ?_
  refine Edit.mem_kept (mem_edits.mpr (.inl ⟨count, hcount, rfl⟩)) fun other hother hne hle => ?_
  rw [Bytes.le_iff] at hle
  rcases mem_edits.mp hother with ⟨earlier, hearlier, rfl⟩ | ⟨number, -, hderive⟩
  · -- Another count that sorts first ends in front of this one.
    have hstart : earlier.span.start ≠ count.span.start := fun heq =>
      hne (congrArg Count.edit (eq_of_start hearlier hcount heq))
    have hlt : earlier.span.start < count.span.start := by
      change earlier.span.start < count.span.start ∨ _ at hle
      change _ ∨ earlier.span.start = count.span.start ∧ _ at hle
      omega
    exact (within_or_behind hearlier hcount hlt).resolve_left (h count hcount earlier hearlier)
  · rw [start_of_derive? hderive]
    omega

theorem not_mem_replaced {inner outer : Count} (hinner : inner ∈ counts (cells query) layout)
    (h : inner.Within outer) :
    ¬ (inner ∈ replaced layout (counts (cells query) layout) ∧
      outer ∈ replaced layout (counts (cells query) layout)) := by
  rintro ⟨hinner', houter'⟩
  have hkept := of_decide_eq_true (List.mem_filter.mp hinner').2
  have hkept' := of_decide_eq_true (List.mem_filter.mp houter').2
  have hapart : (Edit.kept (edits layout (counts (cells query) layout))).Pairwise fun a b =>
      a.span.stop ≤ b.span.start ∨ b.span.stop ≤ a.span.start :=
    (Edit.pairwise_kept fun _ hedit => start_le_stop_of_mem_edits hedit).imp .inl
  have hstart := start_lt_stop hinner
  obtain ⟨hbefore, hbehind⟩ := h
  have hne : inner.edit ≠ outer.edit := by
    intro heq
    have : inner.span = outer.span := congrArg Edit.span heq
    rw [this] at hbefore
    omega
  have : Std.Symm fun a b : Edit => a.span.stop ≤ b.span.start ∨ b.span.stop ≤ a.span.start :=
    ⟨fun _ _ => Or.symm⟩
  have hsides : inner.span.stop ≤ outer.span.start ∨ outer.span.stop ≤ inner.span.start :=
    hapart.forall hkept hkept' hne
  omega

end Query

/-! ## What is reported -/

def found (query : List Char) : List Count := counts (cells query) (layout query)

def reported (outcome : Outcome) : Nat :=
  outcome.transformation.elim 0 fun transformation => transformation.changes.length

theorem reported_apply (query : String) :
    reported (FlagCount.apply query) = (found query.toList).length := by
  change reported (.ofChanges _ _ ((found query.toList).map (change query.toList)) _) = _
  cases found query.toList with
  | nil => rfl
  | cons count counts => simp [reported, Outcome.ofChanges]

/-- The edits that are kept make the output.  The report counts the calls that they replace, and no
flag is derived in vain, exactly if no count stands inside another. -/
theorem reported_iff_apart (context : Context) (query : String) :
    (flagCount.apply context query).query =
        String.ofList (Edit.applyFrom 0 query.toList
          (Edit.kept (edits (layout query.toList) (found query.toList)))) ∧
      ((reported (flagCount.apply context query) =
            (replaced (layout query.toList) (found query.toList)).length ∧
          ∀ count ∈ derived (layout query.toList) (found query.toList),
            count ∈ replaced (layout query.toList) (found query.toList)) ↔
        ∀ inner ∈ found query.toList, ∀ outer ∈ found query.toList, ¬ inner.Within outer) := by
  refine ⟨by rw [Edit.kept, Edit.applyFrom_keptFrom]; rfl, ?_⟩
  change (reported (FlagCount.apply query) = _ ∧ _) ↔ _
  rw [reported_apply]
  constructor
  · rintro ⟨hlength, -⟩ inner hinner outer houter hwithin
    have hall : replaced (layout query.toList) (found query.toList) = found query.toList :=
      List.filter_sublist.eq_of_length hlength.symm
    refine not_mem_replaced hinner hwithin ⟨?_, ?_⟩
    · exact hall ▸ hinner
    · exact hall ▸ houter
  · intro hapart
    have hall : replaced (layout query.toList) (found query.toList) = found query.toList :=
      replaced_of_apart hapart
    rw [hall]
    exact ⟨rfl, fun count hcount => List.mem_of_mem_filter hcount⟩

/-- A count inside another is reported and its flag is derived, but it is not replaced. -/
theorem reported_not_replaced :
    reported (flagCount.apply {} "statsby a:count_if(b:count_if(x))") = 2 ∧
      (flagCount.apply {} "statsby a:count_if(b:count_if(x))").query =
        "make_col a_flag:if(b:count_if(x), 1, 0), b_flag:if(x, 1, 0) | statsby a:sum(a_flag)" ∧
      (replaced (layout "statsby a:count_if(b:count_if(x))".toList)
        (found "statsby a:count_if(b:count_if(x))".toList)).map Count.label = ["a".toList] ∧
      (derived (layout "statsby a:count_if(b:count_if(x))".toList)
        (found "statsby a:count_if(b:count_if(x))".toList)).map Count.label =
          ["a".toList, "b".toList] := by
  decide

end OpalRepair.FlagCount
