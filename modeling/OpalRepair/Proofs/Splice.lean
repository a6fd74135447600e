import Mathlib
import OpalRepair.Proofs.Bytes.Edit

/-!
# Splicing edits

Sorting brings edits into the order in which they are applied.  Of edits that overlap the first one
takes effect and the others are dropped.
-/

namespace OpalRepair.Edit

/-! ## Sorted edits -/

theorem sort_eq_insertionSort (edits : List Edit) :
    sort edits = edits.insertionSort fun a b => a.le b = true := by
  have hinsert (edit : Edit) (edits : List Edit) :
      insertSorted edit edits = edits.orderedInsert (fun a b => a.le b = true) edit := by
    induction edits with
    | nil => rfl
    | cons other edits ih => simp [insertSorted, List.orderedInsert, ih]
  induction edits with
  | nil => rfl
  | cons edit edits ih =>
      change insertSorted edit (sort edits) = _
      rw [ih, hinsert]
      rfl

instance : Std.Total fun a b : Edit => a.le b = true where
  total a b := by
    simp only [Bytes.le_iff]
    omega

instance : IsTrans Edit fun a b => a.le b = true where
  trans a b c := by
    simp only [Bytes.le_iff]
    omega

theorem sort_perm (edits : List Edit) : (sort edits).Perm edits := by
  rw [sort_eq_insertionSort]
  exact List.perm_insertionSort _ edits

theorem pairwise_sort (edits : List Edit) : (sort edits).Pairwise fun a b => a.le b = true := by
  rw [sort_eq_insertionSort]
  exact List.pairwise_insertionSort _ edits

theorem sort_eq_of_perm {edits sorted : List Edit} (hperm : edits.Perm sorted)
    (hsorted : sorted.Pairwise fun a b => a.span ≠ b.span ∧ a.le b = true) :
    sort edits = sorted := by
  -- The order is antisymmetric on edits of different spans, which is all that is needed.
  have hnodup : (sorted.map Edit.span).Nodup := List.pairwise_map.mpr (hsorted.imp And.left)
  have hsort : (sort edits).Perm sorted := (sort_perm edits).trans hperm
  refine hsort.eq_of_pairwise (fun a b ha hb hab hba => ?_) (pairwise_sort edits)
    (hsorted.imp And.right)
  rw [Bytes.le_iff] at hab hba
  have hstart : a.span.start = b.span.start := by omega
  have hstop : a.span.stop = b.span.stop := by omega
  exact List.inj_on_of_nodup_map hnodup (hsort.mem_iff.mp ha) hb
    (congrArg₂ Query.Span.mk hstart hstop)

theorem ordered_of_start_lt {a b : Edit} (h : a.span.start < b.span.start) :
    a.span ≠ b.span ∧ a.le b = true :=
  ⟨fun heq => by simp [heq] at h, (Bytes.le_iff a b).mpr (.inl h)⟩

/-! ## Applying edits -/

theorem applyFrom_edit (cursor : Nat) (kept gone rest replacement : List Char) (edits : List Edit) :
    applyFrom cursor (kept ++ (gone ++ rest))
        (⟨⟨cursor + kept.length, cursor + kept.length + gone.length⟩, replacement⟩ :: edits) =
      kept ++ (replacement ++ applyFrom (cursor + kept.length + gone.length) rest edits) := by
  have hsize : cursor + kept.length + gone.length - cursor = kept.length + gone.length := by omega
  simp [applyFrom, hsize, ← List.drop_drop]

theorem applyFrom_insert (cursor : Nat) (kept rest replacement : List Char) (edits : List Edit) :
    applyFrom cursor (kept ++ rest)
        (⟨⟨cursor + kept.length, cursor + kept.length⟩, replacement⟩ :: edits) =
      kept ++ (replacement ++ applyFrom (cursor + kept.length) rest edits) :=
  applyFrom_edit cursor kept [] rest replacement edits

theorem applyFrom_skip (cursor : Nat) (kept rest : List Char) {edits : List Edit}
    (h : ∀ edit ∈ edits, cursor + kept.length ≤ edit.span.start ∧
      edit.span.start ≤ edit.span.stop) :
    applyFrom cursor (kept ++ rest) edits = kept ++ applyFrom (cursor + kept.length) rest edits := by
  cases edits with
  | nil => rfl
  | cons edit edits =>
      obtain ⟨hstart, hstop⟩ := h edit (by simp)
      have hbefore : ¬ edit.span.start < cursor := by omega
      have hinside : ¬ edit.span.start < cursor + kept.length := by omega
      simp only [applyFrom, if_neg hbefore, if_neg hinside, List.take_append, List.drop_append]
      rw [List.take_of_length_le (by omega), List.drop_of_length_le (by omega)]
      simp [Nat.sub_sub]

/-! ## Edits that take effect -/

def keptFrom (cursor : Nat) : List Edit → List Edit
  | [] => []
  | edit :: edits =>
    if edit.span.start < cursor then keptFrom cursor edits
    else edit :: keptFrom edit.span.stop edits

def kept (edits : List Edit) : List Edit := keptFrom 0 (sort edits)

theorem applyFrom_keptFrom (cursor : Nat) (rest : List Char) (edits : List Edit) :
    applyFrom cursor rest (keptFrom cursor edits) = applyFrom cursor rest edits := by
  induction edits generalizing cursor rest with
  | nil => rfl
  | cons edit edits ih =>
      rw [keptFrom, applyFrom]
      split
      · exact ih cursor rest
      · rename_i hstart
        rw [applyFrom, if_neg hstart, ih]

theorem le_start_of_mem_keptFrom {cursor : Nat} {edits : List Edit}
    (hedits : ∀ edit ∈ edits, edit.span.start ≤ edit.span.stop) {edit : Edit}
    (h : edit ∈ keptFrom cursor edits) : cursor ≤ edit.span.start := by
  induction edits generalizing cursor with
  | nil => simp [keptFrom] at h
  | cons other edits ih =>
      have hrest := fun edit hedit => hedits edit (List.mem_cons_of_mem _ hedit)
      rw [keptFrom] at h
      split at h
      · exact ih hrest h
      · have hother := hedits other List.mem_cons_self
        rcases List.mem_cons.mp h with rfl | h
        · omega
        · have := ih hrest h
          omega

theorem pairwise_kept {edits : List Edit}
    (hedits : ∀ edit ∈ edits, edit.span.start ≤ edit.span.stop) :
    (kept edits).Pairwise fun a b => a.span.stop ≤ b.span.start := by
  have hfrom (cursor : Nat) (sorted : List Edit)
      (hsorted : ∀ edit ∈ sorted, edit.span.start ≤ edit.span.stop) :
      (keptFrom cursor sorted).Pairwise fun a b => a.span.stop ≤ b.span.start := by
    induction sorted generalizing cursor with
    | nil => exact .nil
    | cons edit sorted ih =>
        have hrest := fun other hother => hsorted other (List.mem_cons_of_mem _ hother)
        rw [keptFrom]
        split
        · exact ih cursor hrest
        · exact List.pairwise_cons.mpr
            ⟨fun _ hother => le_start_of_mem_keptFrom hrest hother, ih _ hrest⟩
  exact hfrom 0 _ fun edit hedit => hedits edit ((sort_perm edits).mem_iff.mp hedit)

theorem mem_kept {edits : List Edit} {edit : Edit} (hedit : edit ∈ edits)
    (hclear : ∀ other ∈ edits, other ≠ edit → other.le edit = true →
      other.span.stop ≤ edit.span.start) : edit ∈ kept edits := by
  have hfrom (cursor : Nat) (sorted : List Edit) (hsorted : sorted.Pairwise fun a b => a.le b = true)
      (hmem : edit ∈ sorted) (hcursor : cursor ≤ edit.span.start)
      (hsub : ∀ other ∈ sorted, other ∈ edits) : edit ∈ keptFrom cursor sorted := by
    induction sorted generalizing cursor with
    | nil => simp at hmem
    | cons other sorted ih =>
        obtain ⟨hle, hsorted⟩ := List.pairwise_cons.mp hsorted
        have hrest := fun x hx => hsub x (List.mem_cons_of_mem _ hx)
        rw [keptFrom]
        by_cases heq : other = edit
        · subst heq
          rw [if_neg (by omega)]
          exact List.mem_cons_self
        · have hmem : edit ∈ sorted :=
            (List.mem_cons.mp hmem).resolve_left fun h => heq h.symm
          have hstop := hclear other (hsub other List.mem_cons_self) heq (hle edit hmem)
          split
          · exact ih cursor hsorted hmem hcursor hrest
          · exact List.mem_cons_of_mem _ (ih _ hsorted hmem hstop hrest)
  exact hfrom 0 (sort edits) (pairwise_sort edits) ((sort_perm edits).mem_iff.mpr hedit)
    (Nat.zero_le _) fun _ h => (sort_perm edits).mem_iff.mp h

end OpalRepair.Edit
