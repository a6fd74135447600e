import Mathlib
import OpalRepair.Pass.SortCall
import OpalRepair.Proofs.Template.Fragment
import OpalRepair.Proofs.Verdict

/-!
# Stage by stage

Two queries with a pipe between them are mended as if each stood alone.  For the pass that quotes
keys this is so because no attribute reaches a pipe and none is called across it; for the pass that
mends sort stages because a stage is mended by its body only, and the pipe keeps the bodies apart.

Main statement: `mends_stagewise`.
-/

namespace OpalRepair

open Query Text

def Outcome.changes (outcome : Outcome) : List Change :=
  outcome.transformation.elim [] Transformation.changes

@[simp] theorem Outcome.changes_ofChanges (query name : String) (changes : List Change)
    (rationale : String) : (Outcome.ofChanges query name changes rationale).changes = changes := by
  cases changes <;> rfl

namespace Patch

structure Joins (whole front back : Patch) : Prop where
  after : whole.after = front.after ++ back.after
  changes : whole.changes = front.changes ++ back.changes

/-! ## Stages -/

variable {mend? : Stage → Option (List Char)}

def ByBody (mend? : Stage → Option (List Char)) : Prop :=
  ∀ body gap gap', mend? ⟨body, gap⟩ = mend? ⟨body, gap'⟩

theorem joins_widenLast (hmend : ByBody mend?) (gap : List Cell) {stages : List Stage}
    (hne : stages ≠ []) :
    Joins ((Stage.widenLast gap stages).flatMap (Stage.pieces mend?))
      (stages.flatMap (Stage.pieces mend?)) [.keep (text gap)] := by
  induction stages with
  | nil => exact absurd rfl hne
  | cons stage stages ih =>
      obtain ⟨body, behind⟩ := stage
      cases stages with
      | nil =>
          have hsame : mend? ⟨body, behind ++ gap⟩ = mend? ⟨body, behind⟩ := hmend ..
          constructor
          · simp [Stage.widenLast, Stage.pieces, Stage.text, hsame]
          · simp only [Stage.widenLast, List.flatMap_singleton, Stage.pieces, Stage.text, hsame,
              List.isEmpty_nil, if_true]
            cases mend? ⟨body, behind⟩ <;> rfl
      | cons next stages =>
          obtain ⟨hafter, hchanges⟩ := ih (List.cons_ne_nil next stages)
          rw [Stage.widenLast, List.flatMap_cons, List.flatMap_cons]
          constructor
          · rw [after_append, after_append, hafter, List.append_assoc]
            rfl
          · rw [changes_append, changes_append, hchanges, List.append_assoc]
            rfl

theorem joins_ofStages (hmend : ByBody mend?) (front back : Layout) :
    Joins (ofStages mend? (front.append back)) (ofStages mend? front) (ofStages mend? back) := by
  obtain ⟨lead, stages⟩ := front
  cases stages with
  | nil =>
      rw [Layout.append_nil]
      exact ⟨by simp [ofStages], by simp [ofStages]⟩
  | cons stage stages =>
      obtain ⟨hafter, hchanges⟩ := joins_widenLast hmend back.lead (List.cons_ne_nil stage stages)
      rw [Layout.append_cons]
      constructor
      · simp only [ofStages, List.flatMap_append, after_cons, after_append, hafter,
          List.append_assoc]
        rfl
      · simp only [ofStages, List.flatMap_append, changes_keep, changes_append, hchanges]
        rw [List.append_assoc]
        rfl

end Patch

theorem Query.Layout.ofCells_gapRow (a b : List Cell) :
    Layout.ofCells (a ++ gapRow ++ b) =
      (Layout.ofCells a).append ⟨gapRow ++ (Layout.ofCells b).lead, (Layout.ofCells b).stages⟩ := by
  have hback : gapRow.foldr Layout.cons (Layout.ofCells b) =
      ⟨gapRow ++ (Layout.ofCells b).lead, (Layout.ofCells b).stages⟩ := rfl
  rw [Layout.ofCells, List.append_assoc, List.foldr_append, List.foldr_append]
  exact hback ▸ foldr_cons_apart a (.inr rfl)

def Patch.Stagewise (patch : List Char → Patch) : Prop :=
  ∀ a b, (scan a).final.mode = .code → Scanner.Fresh b →
    Joins (patch (a ++ " | ".toList ++ b)) (patch a) (.keep " | ".toList :: patch b)

theorem Patch.Stagewise.apply_join {patch : List Char → Patch} (h : Patch.Stagewise patch)
    (name rationale : String) (context : Context) {a b : String}
    (ha : (scan a.toList).final.mode = .code) (hb : Scanner.Fresh b.toList) :
    let pass := Pass.ofPatch name rationale patch
    (pass.apply context (a ++ " | " ++ b)).query =
        (pass.apply context a).query ++ " | " ++ (pass.apply context b).query ∧
      (pass.apply context (a ++ " | " ++ b)).changes =
        (pass.apply context a).changes ++ (pass.apply context b).changes := by
  obtain ⟨hafter, hchanges⟩ := h a.toList b.toList ha hb
  have htext : (a ++ " | " ++ b).toList = a.toList ++ " | ".toList ++ b.toList := by simp
  simp only [Pass.ofPatch, htext, Outcome.changes_ofChanges]
  refine ⟨?_, hchanges⟩
  rw [Outcome.ofChanges, Outcome.ofChanges, Outcome.ofChanges, hafter]
  apply String.toList_injective
  simp

theorem SortCall.stagewise_patch : Patch.Stagewise SortCall.patch := by
  intro a b ha hb
  have hbody : Patch.ByBody mendStage? := fun _ _ _ => rfl
  obtain ⟨hafter, hchanges⟩ := Patch.joins_ofStages hbody (layout a)
    ⟨gapRow ++ (layout b).lead, (layout b).stages⟩
  rw [patch, layout, (scan_join ha hb).1, Layout.ofCells_gapRow]
  refine ⟨hafter.trans ?_, hchanges⟩
  simp [patch, Patch.ofStages, gapRow]

namespace QuoteKey

open Patch

theorem walk_blank (row : List Cell) :
    walk fragment? 0 (some ' ') row = walk fragment? 0 none row := by
  cases row with
  | nil => rfl
  | cons cell row =>
      have hfragment : fragment? (some ' ') (cell :: row) = fragment? none (cell :: row) := rfl
      rw [walk, walk, hfragment]

theorem stops_gapRow (row : List Cell) : Stops (text (gapRow ++ row)) := by
  refine ⟨?_, ?_⟩
  · simp [gapRow]
    decide
  · rfl

theorem stagewise_patch : Patch.Stagewise QuoteKey.patch := by
  intro a b ha hb
  have hlast (previous : Option Char) : (text gapRow).getLast?.or previous = some ' ' := rfl
  have hwalk : patch (a ++ " | ".toList ++ b) = patch a ++ (keepAll gapRow ++ patch b) := by
    rw [patch, (scan_join ha hb).1, ofFragments, List.append_assoc,
      walk_stop (stops_gapRow _) _ _ (Nat.zero_le _), walk_clear (clear_gapRow _ _), hlast,
      walk_blank]
    rfl
  rw [hwalk]
  refine ⟨?_, ?_⟩
  · rw [after_append, after_append, after_keepAll]
    rfl
  · rw [changes_append, changes_append, changes_keepAll]
    rfl

end QuoteKey

/-- Quoting keys and mending sort stages go stage by stage: around a pipe, behind a query that ends
in code and in front of one that does not start with a slash or a backslash, both queries are mended
as if each stood alone, and the changes of the first are reported before those of the second. -/
theorem mends_stagewise {pass : Pass} (hpass : pass ∈ [quoteKey, sortCall]) (context : Context)
    {a b : String} (heven : (scan a.toList).doubleQuotes % 2 = 0)
    (hclosed : (scan a.toList).openLiteral = none) (hb : Scanner.Fresh b.toList) :
    (pass.apply context (a ++ " | " ++ b)).query =
        (pass.apply context a).query ++ " | " ++ (pass.apply context b).query ∧
      (pass.apply context (a ++ " | " ++ b)).changes =
        (pass.apply context a).changes ++ (pass.apply context b).changes := by
  have hmode : (scan a.toList).final.mode = .code :=
    mode_of_closed ((doubleQuotes_even_iff _).mp heven) ((openLiteral_eq_none_iff _).mp hclosed)
  rw [List.mem_cons, List.mem_singleton] at hpass
  rcases hpass with rfl | rfl
  · exact QuoteKey.stagewise_patch.apply_join _ _ context hmode hb
  · exact SortCall.stagewise_patch.apply_join _ _ context hmode hb

/-- The parenthesis behind the pipe calls nothing in front of it. -/
theorem mends_stagewise_parenthesis :
    let a := "sort -\"x\".y, -fields.db.x"
    let b := " (z) | sort labels.os.a DESC"
    (scan a.toList).doubleQuotes % 2 = 0 ∧ (scan a.toList).openLiteral = none ∧
      Scanner.Fresh b.toList ∧
      ((quoteKey.apply {} (a ++ " | " ++ b)).query =
          (quoteKey.apply {} a).query ++ " | " ++ (quoteKey.apply {} b).query ∧
        (quoteKey.apply {} (a ++ " | " ++ b)).changes =
          (quoteKey.apply {} a).changes ++ (quoteKey.apply {} b).changes) ∧
      ((sortCall.apply {} (a ++ " | " ++ b)).query =
          (sortCall.apply {} a).query ++ " | " ++ (sortCall.apply {} b).query ∧
        (sortCall.apply {} (a ++ " | " ++ b)).changes =
          (sortCall.apply {} a).changes ++ (sortCall.apply {} b).changes) := by
  intro a b
  have heven : (scan a.toList).doubleQuotes % 2 = 0 := by decide
  have hclosed : (scan a.toList).openLiteral = none := by decide
  have hfresh : Scanner.Fresh b.toList := ⟨by decide, by decide⟩
  exact ⟨heven, hclosed, hfresh, mends_stagewise (by simp) {} heven hclosed hfresh,
    mends_stagewise (by simp) {} heven hclosed hfresh⟩

end OpalRepair
