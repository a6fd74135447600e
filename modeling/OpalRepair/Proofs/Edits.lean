import Mathlib
import OpalRepair.Proofs.Bytes.Count
import OpalRepair.Proofs.Splice

/-!
# Edits in any order

Edits can be given in any order.  They are sorted by start and end, and each takes effect unless it
overlaps one that did before; edits that do not overlap therefore all take effect, and the text
between them is kept.

Main statement: `splice_greedy`.
-/

namespace OpalRepair.Edit

/-! ## The choice of edits -/

/-- Two edits do not overlap: one ends where the other starts or in front of it. -/
def Apart (a b : Edit) : Prop := a.span.stop ≤ b.span.start ∨ b.span.stop ≤ a.span.start

instance (a b : Edit) : Decidable (a.Apart b) := inferInstanceAs (Decidable (_ ∨ _))

/-- By increasing start and end; edits with equal spans stay in the order in which they are
given. -/
def inOrder (edits : List Edit) : List Edit :=
  edits.insertionSort fun a b =>
    toLex (a.span.start, a.span.stop) ≤ toLex (b.span.start, b.span.stop)

def choose (taken : List Edit) : List Edit → List Edit
  | [] => []
  | edit :: edits =>
    if ∀ other ∈ taken, other.Apart edit then edit :: choose (edit :: taken) edits
    else choose taken edits

def greedy (edits : List Edit) : List Edit := choose [] (inOrder edits)

theorem Apart.symm {a b : Edit} (h : a.Apart b) : b.Apart a := Or.symm h

theorem sort_eq_inOrder (edits : List Edit) : sort edits = inOrder edits := by
  have hle : (fun a b : Edit => a.le b = true) = fun a b =>
      toLex (a.span.start, a.span.stop) ≤ toLex (b.span.start, b.span.stop) := by
    funext a b
    rw [eq_iff_iff, Bytes.le_iff, Prod.Lex.toLex_le_toLex]
  rw [sort_eq_insertionSort, inOrder]
  congr!

theorem apart_iff_of_le {a b : Edit} (hb : b.span.start ≤ b.span.stop) (hle : a.le b = true) :
    a.Apart b ↔ a.span.stop ≤ b.span.start := by
  rw [Bytes.le_iff] at hle
  rw [Apart]
  omega

structure Cursor (cursor : Nat) (taken : List Edit) : Prop where
  stop_le : ∀ edit ∈ taken, edit.span.stop ≤ cursor
  reached : 0 < cursor → ∃ edit ∈ taken, edit.span.stop = cursor

theorem Cursor.apart_iff {cursor : Nat} {taken : List Edit} (h : Cursor cursor taken) {edit : Edit}
    (hedit : edit.span.start ≤ edit.span.stop) (hle : ∀ other ∈ taken, other.le edit = true) :
    (∀ other ∈ taken, other.Apart edit) ↔ ¬ edit.span.start < cursor := by
  constructor
  · intro hapart hlt
    obtain ⟨last, hlast, hstop⟩ := h.reached (by omega)
    have := (apart_iff_of_le hedit (hle last hlast)).mp (hapart last hlast)
    omega
  · intro hbehind other hother
    have := h.stop_le other hother
    exact .inl (by omega)

theorem keptFrom_eq_choose {cursor : Nat} {taken edits : List Edit} (h : Cursor cursor taken)
    (hedits : ∀ edit ∈ edits, edit.span.start ≤ edit.span.stop)
    (hsorted : edits.Pairwise fun a b => a.le b = true)
    (htaken : ∀ other ∈ taken, ∀ edit ∈ edits, other.le edit = true) :
    keptFrom cursor edits = choose taken edits := by
  induction edits generalizing cursor taken with
  | nil => rfl
  | cons edit edits ih =>
      obtain ⟨hfirst, hsorted⟩ := List.pairwise_cons.mp hsorted
      have hedit := hedits edit List.mem_cons_self
      have hrest := fun x hx => hedits x (List.mem_cons_of_mem _ hx)
      have hbefore := fun other hother x hx => htaken other hother x (List.mem_cons_of_mem _ hx)
      have happly := h.apart_iff hedit fun other hother =>
        htaken other hother edit List.mem_cons_self
      rw [keptFrom, choose]
      by_cases hlt : edit.span.start < cursor
      · rw [if_pos hlt, if_neg (by simpa [happly] using hlt)]
        exact ih h hrest hsorted hbefore
      · rw [if_neg hlt, if_pos (happly.mpr hlt)]
        have hnext : Cursor edit.span.stop (edit :: taken) := by
          refine ⟨fun other hother => ?_, fun _ => ⟨edit, List.mem_cons_self, rfl⟩⟩
          rcases List.mem_cons.mp hother with rfl | hother
          · exact le_rfl
          · have := h.stop_le other hother
            omega
        rw [ih hnext hrest hsorted (List.forall_mem_cons.mpr ⟨hfirst, hbefore⟩)]

theorem kept_eq_greedy {edits : List Edit}
    (hedits : ∀ edit ∈ edits, edit.span.start ≤ edit.span.stop) : kept edits = greedy edits := by
  rw [kept, greedy, ← sort_eq_inOrder]
  exact keptFrom_eq_choose ⟨by simp, by simp⟩
    (fun edit hedit => hedits edit ((sort_perm edits).mem_iff.mp hedit)) (pairwise_sort edits)
    (by simp)

theorem choose_of_pairwise {taken edits : List Edit}
    (htaken : ∀ other ∈ taken, ∀ edit ∈ edits, other.Apart edit) (hedits : edits.Pairwise Apart) :
    choose taken edits = edits := by
  induction edits generalizing taken with
  | nil => rfl
  | cons edit edits ih =>
      obtain ⟨hfirst, hedits⟩ := List.pairwise_cons.mp hedits
      rw [choose, if_pos fun other hother => htaken other hother edit List.mem_cons_self]
      rw [ih (List.forall_mem_cons.mpr ⟨hfirst, fun other hother x hx =>
        htaken other hother x (List.mem_cons_of_mem _ hx)⟩) hedits]

theorem greedy_perm {edits : List Edit} (h : edits.Pairwise Apart) : (greedy edits).Perm edits := by
  have hsort := sort_perm edits
  have hsorted : (sort edits).Pairwise Apart := hsort.symm.pairwise h Apart.symm
  rw [greedy, ← sort_eq_inOrder, choose_of_pairwise (by simp) hsorted]
  exact hsort

/-! ## What is kept and what is changed -/

def patchFrom (cursor : Nat) (rest : List Char) : List Edit → Patch
  | [] => [.keep rest]
  | edit :: edits =>
    .keep (rest.take (edit.span.start - cursor)) ::
      .change ((rest.drop (edit.span.start - cursor)).take (edit.span.stop - edit.span.start))
        edit.replacement ::
      patchFrom edit.span.stop (rest.drop (edit.span.stop - cursor)) edits

def Follow : Nat → List Edit → Prop
  | _, [] => True
  | cursor, edit :: edits =>
    cursor ≤ edit.span.start ∧ edit.span.start ≤ edit.span.stop ∧ Follow edit.span.stop edits

theorem follow_keptFrom {cursor : Nat} {edits : List Edit}
    (hedits : ∀ edit ∈ edits, edit.span.start ≤ edit.span.stop) :
    Follow cursor (keptFrom cursor edits) := by
  induction edits generalizing cursor with
  | nil => trivial
  | cons edit edits ih =>
      have hrest := fun x hx => hedits x (List.mem_cons_of_mem _ hx)
      rw [keptFrom]
      split
      · exact ih hrest
      · exact ⟨by omega, hedits edit List.mem_cons_self, ih hrest⟩

theorem before_patchFrom {cursor : Nat} (rest : List Char) {edits : List Edit}
    (h : Follow cursor edits) : (patchFrom cursor rest edits).before = rest := by
  induction edits generalizing cursor rest with
  | nil => simp [patchFrom]
  | cons edit edits ih =>
      obtain ⟨hcursor, hspan, hnext⟩ := h
      have hdrop : rest.drop (edit.span.stop - cursor) =
          (rest.drop (edit.span.start - cursor)).drop (edit.span.stop - edit.span.start) := by
        rw [List.drop_drop]
        congr 1
        omega
      rw [patchFrom, Patch.before_cons, Patch.before_cons, ih _ hnext, hdrop]
      simp

theorem after_patchFrom {cursor : Nat} (rest : List Char) {edits : List Edit}
    (h : Follow cursor edits) :
    (patchFrom cursor rest edits).after = applyFrom cursor rest edits := by
  induction edits generalizing cursor rest with
  | nil => simp [patchFrom, applyFrom]
  | cons edit edits ih =>
      obtain ⟨hcursor, -, hnext⟩ := h
      rw [patchFrom, Patch.after_cons, Patch.after_cons, ih _ hnext, applyFrom, if_neg (by omega)]
      simp

theorem rewritesAt_patchFrom {text : List Char} {cursor : Nat} {edits : List Edit}
    (h : Follow cursor edits) :
    (Bytes.rewritesAt (Bytes.offsetOf text cursor) (patchFrom cursor (text.drop cursor) edits)).map
        Bytes.Rewrite.edit =
      edits.map (Bytes.editBytes text) := by
  induction edits generalizing cursor with
  | nil => rfl
  | cons edit edits ih =>
      obtain ⟨hcursor, hspan, hnext⟩ := h
      have hstart : Bytes.offsetOf text edit.span.start = _ := Bytes.offsetOf_add hcursor
      have hstop : Bytes.offsetOf text edit.span.stop = _ := Bytes.offsetOf_add hspan
      have hfound : (text.drop cursor).drop (edit.span.start - cursor) =
          text.drop edit.span.start := by
        rw [List.drop_drop, Nat.add_sub_cancel' hcursor]
      have hbehind : (text.drop cursor).drop (edit.span.stop - cursor) =
          text.drop edit.span.stop := by
        rw [List.drop_drop, Nat.add_sub_cancel' (hcursor.trans hspan)]
      rw [patchFrom, Bytes.rewritesAt, Bytes.rewritesAt, ← hstart, hfound, ← hstop, hbehind,
        List.map_cons, List.map_cons, ih hnext]
      simp only [Bytes.Rewrite.edit, Bytes.editBytes, Bytes.spanBytes, hstop]

/-! ## Spans in bytes -/

theorem keptFrom_editBytes {text : List Char} {cursor : Nat} (hcursor : cursor ≤ text.length)
    {edits : List Edit} (hedits : ∀ edit ∈ edits, Bytes.Within text edit.span) :
    keptFrom (Bytes.offsetOf text cursor) (edits.map (Bytes.editBytes text)) =
      (keptFrom cursor edits).map (Bytes.editBytes text) := by
  induction edits generalizing cursor with
  | nil => rfl
  | cons edit edits ih =>
      have hrest := fun x hx => hedits x (List.mem_cons_of_mem _ hx)
      have hlt : (Bytes.editBytes text edit).span.start < Bytes.offsetOf text cursor ↔
          edit.span.start < cursor := Bytes.offsetOf_lt_iff hcursor
      rw [List.map_cons, keptFrom, keptFrom]
      by_cases hbehind : edit.span.start < cursor
      · rw [if_pos (hlt.mpr hbehind), if_pos hbehind, ih hcursor hrest]
      · rw [if_neg (hlt.not.mpr hbehind), if_neg hbehind, List.map_cons]
        exact congrArg _ (ih (hedits edit List.mem_cons_self).2 hrest)

theorem start_le_stop_editBytes {text : List Char} {edits : List Edit}
    (hedits : ∀ edit ∈ edits, Bytes.Within text edit.span) :
    ∀ edit ∈ edits.map (Bytes.editBytes text), edit.span.start ≤ edit.span.stop := by
  refine List.forall_mem_map.mpr fun edit hedit => ?_
  exact Bytes.offsetOf_mono (hedits edit hedit).1

theorem greedy_editBytes {text : List Char} {edits : List Edit}
    (hedits : ∀ edit ∈ edits, Bytes.Within text edit.span) :
    greedy (edits.map (Bytes.editBytes text)) = (kept edits).map (Bytes.editBytes text) := by
  rw [← kept_eq_greedy (start_le_stop_editBytes hedits), kept, Bytes.sort_editBytes hedits]
  exact keptFrom_editBytes (Nat.zero_le _) fun edit hedit => hedits edit (Bytes.mem_sort hedit)

/-! ## All together -/

theorem sort_eq_sort_of_perm {edits others : List Edit} (hperm : others.Perm edits)
    (hspans : edits.Pairwise fun a b => a.span ≠ b.span) : sort others = sort edits := by
  have hsort := sort_perm edits
  have hdistinct : (sort edits).Pairwise fun a b => a.span ≠ b.span :=
    hsort.symm.pairwise hspans Ne.symm
  exact sort_eq_of_perm (hperm.trans hsort.symm) (hdistinct.and (pairwise_sort edits))

/-- Splicing by positions is splicing by byte offsets.  It keeps the text but for the edits that are
chosen greedily by start and end, each of which puts its replacement in the place of its span.
Edits that do not overlap are all chosen, and the order of edits with different spans does not
matter. -/
theorem splice_greedy {text : List Char} {edits : List Edit}
    (h : ∀ edit ∈ edits, Bytes.Within text edit.span) :
    Bytes.splice? text (edits.map (Bytes.editBytes text)) = some (splice text edits) ∧
      (∃ patch : Patch, patch.before = text ∧ patch.after = splice text edits ∧
        (Bytes.rewritesAt 0 patch).map Bytes.Rewrite.edit =
          greedy (edits.map (Bytes.editBytes text))) ∧
      (edits.Pairwise Apart →
        (greedy (edits.map (Bytes.editBytes text))).Perm (edits.map (Bytes.editBytes text))) ∧
      ((edits.Pairwise fun a b => a.span ≠ b.span) →
        ∀ others : List Edit, others.Perm edits →
          splice text others = splice text edits ∧
            Bytes.splice? text (others.map (Bytes.editBytes text)) = some (splice text edits)) := by
  have hspans : ∀ edit ∈ edits, edit.span.start ≤ edit.span.stop := fun edit hedit =>
    (h edit hedit).1
  have hfollow : Follow 0 (kept edits) := follow_keptFrom fun edit hedit =>
    hspans edit (Bytes.mem_sort hedit)
  rw [greedy_editBytes h]
  refine ⟨Bytes.splice?_editBytes h,
    ⟨patchFrom 0 text (kept edits), before_patchFrom text hfollow, ?_,
      rewritesAt_patchFrom hfollow⟩,
    fun hapart => ?_, fun hdistinct others hperm => ?_⟩
  · rw [after_patchFrom text hfollow, kept, applyFrom_keptFrom]
    rfl
  · rw [kept_eq_greedy hspans]
    exact (greedy_perm hapart).map _
  · have hsame : splice text others = splice text edits := by
      rw [splice, splice, sort_eq_sort_of_perm hperm hdistinct]
    rw [Bytes.splice?_editBytes fun edit hedit => h edit (hperm.mem_iff.mp hedit), hsame]
    exact ⟨rfl, rfl⟩

/-- Insertions in front of and behind a span that is replaced, given backwards, and one more edit
that overlaps it. -/
theorem splice_greedy_touching :
    let text := "aébcd".toList
    let before : Edit := ⟨⟨1, 1⟩, "<".toList⟩
    let replaced : Edit := ⟨⟨1, 3⟩, "X".toList⟩
    let behind : Edit := ⟨⟨3, 3⟩, ">".toList⟩
    let overlapping : Edit := ⟨⟨2, 4⟩, "Y".toList⟩
    splice text [behind, replaced, before] = "a<X>cd".toList ∧
      ∃ patch : Patch, patch.before = text ∧
        patch.after = splice text [overlapping, before, replaced, behind] ∧
        (Bytes.rewritesAt 0 patch).map Bytes.Rewrite.edit =
          [⟨⟨1, 1⟩, "<".toList⟩, ⟨⟨1, 4⟩, "X".toList⟩, ⟨⟨4, 4⟩, ">".toList⟩] := by
  intro text before replaced behind overlapping
  have hwithin : ∀ edit ∈ [overlapping, before, replaced, behind], Bytes.Within text edit.span := by
    simp [Bytes.Within, text, before, replaced, behind, overlapping]
  obtain ⟨-, -, -, horder⟩ := splice_greedy fun edit hedit =>
    hwithin edit (List.mem_cons_of_mem overlapping hedit)
  obtain ⟨hsame, -⟩ := horder (by decide) [behind, replaced, before]
    (List.reverse_perm [before, replaced, behind])
  obtain ⟨-, ⟨patch, hbefore, hafter, hchanges⟩, -, -⟩ := splice_greedy hwithin
  refine ⟨hsame.trans (by decide), patch, hbefore, hafter, ?_⟩
  rw [hchanges]
  decide

end OpalRepair.Edit
