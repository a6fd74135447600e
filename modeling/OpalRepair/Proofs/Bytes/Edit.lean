import Mathlib
import OpalRepair.Pass.Edit
import OpalRepair.Pass.Patch
import OpalRepair.Proofs.Bytes.Bracket

/-!
# Edits by byte offsets

A pass collects rewrites with the byte offsets of what it found and splices them into the query.
For the changes of a patch this gives the text after the patch.
-/

namespace OpalRepair

namespace Patch

@[simp] theorem before_nil : before [] = [] := rfl

@[simp] theorem after_nil : after [] = [] := rfl

@[simp] theorem changes_nil : changes [] = [] := rfl

@[simp] theorem before_cons (piece : Piece) (patch : Patch) :
    before (piece :: patch) = piece.before ++ before patch := rfl

@[simp] theorem after_cons (piece : Piece) (patch : Patch) :
    after (piece :: patch) = piece.after ++ after patch := rfl

@[simp] theorem changes_keep (text : List Char) (patch : Patch) :
    changes (.keep text :: patch) = changes patch := rfl

@[simp] theorem changes_change (found replacement : List Char) (patch : Patch) :
    changes (.change found replacement :: patch) =
      ⟨String.ofList found, String.ofList replacement⟩ :: changes patch := rfl

@[simp] theorem before_append (a b : Patch) : before (a ++ b) = before a ++ before b := by
  simp [before]

@[simp] theorem after_append (a b : Patch) : after (a ++ b) = after a ++ after b := by
  simp [after]

end Patch

@[simp] theorem Piece.before_keep (text : List Char) : (Piece.keep text).before = text := rfl

@[simp] theorem Piece.after_keep (text : List Char) : (Piece.keep text).after = text := rfl

@[simp] theorem Piece.before_change (found replacement : List Char) :
    (Piece.change found replacement).before = found := rfl

@[simp] theorem Piece.after_change (found replacement : List Char) :
    (Piece.change found replacement).after = replacement := rfl

namespace Bytes

open Query Text

/-! ## Splicing -/

def spliceFrom? (text : List Char) : Nat → List Edit → Option (List Char)
  | cursor, [] => sliceFrom? text cursor
  | cursor, edit :: edits =>
    if edit.span.start < cursor then spliceFrom? text cursor edits
    else do
      let kept ← slice? text cursor edit.span.start
      let rest ← spliceFrom? text edit.span.stop edits
      some (kept ++ edit.replacement ++ rest)

def splice? (text : List Char) (edits : List Edit) : Option (List Char) :=
  spliceFrom? text 0 (Edit.sort edits)

structure Rewrite where
  start : Nat
  found : List Char
  replacement : List Char
  deriving DecidableEq, Repr

namespace Rewrite

def edit (rewrite : Rewrite) : Edit :=
  ⟨⟨rewrite.start, rewrite.start + byteSize rewrite.found⟩, rewrite.replacement⟩

def change (rewrite : Rewrite) : Change :=
  ⟨String.ofList rewrite.found, String.ofList rewrite.replacement⟩

end Rewrite

def rewritten? (pass rationale query : String) (rewrites : List Rewrite) : Option Outcome :=
  (splice? query.toList (rewrites.map Rewrite.edit)).map fun text =>
    .ofChanges (String.ofList text) pass (rewrites.map Rewrite.change) rationale

theorem le_iff (a b : Edit) : a.le b = true ↔
    a.span.start < b.span.start ∨ a.span.start = b.span.start ∧ a.span.stop ≤ b.span.stop := by
  simp [Edit.le]

theorem sort_of_pairwise {edits : List Edit} (h : edits.Pairwise fun a b => a.le b = true) :
    Edit.sort edits = edits := by
  induction edits with
  | nil => rfl
  | cons edit edits ih =>
      obtain ⟨hfirst, hrest⟩ := List.pairwise_cons.mp h
      change Edit.insertSorted edit (Edit.sort edits) = _
      rw [ih hrest]
      cases edits with
      | nil => rfl
      | cons next edits => rw [Edit.insertSorted, if_pos (hfirst next (by simp))]

def rewritesAt : Nat → Patch → List Rewrite
  | _, [] => []
  | offset, .keep text :: patch => rewritesAt (offset + byteSize text) patch
  | offset, .change found replacement :: patch =>
    ⟨offset, found, replacement⟩ :: rewritesAt (offset + byteSize found) patch

theorem le_start_of_mem_rewritesAt {offset : Nat} {patch : Patch} {rewrite : Rewrite}
    (h : rewrite ∈ rewritesAt offset patch) : offset ≤ rewrite.start := by
  induction patch generalizing offset with
  | nil => simp [rewritesAt] at h
  | cons piece patch ih =>
      cases piece with
      | keep text =>
          have := ih h
          omega
      | change found replacement =>
          rcases List.mem_cons.mp h with rfl | h
          · exact Nat.le_refl _
          · have := ih h
            omega

theorem pairwise_rewritesAt (offset : Nat) (patch : Patch) :
    ((rewritesAt offset patch).map Rewrite.edit).Pairwise fun a b => a.le b = true := by
  induction patch generalizing offset with
  | nil => exact .nil
  | cons piece patch ih =>
      cases piece with
      | keep text => exact ih _
      | change found replacement =>
          refine List.pairwise_cons.mpr ⟨?_, ih _⟩
          intro edit hedit
          obtain ⟨rewrite, hrewrite, rfl⟩ := List.mem_map.mp hedit
          have hstart := le_start_of_mem_rewritesAt hrewrite
          rw [le_iff]
          change offset < rewrite.start ∨ offset = rewrite.start ∧
            offset + byteSize found ≤ rewrite.start + byteSize rewrite.found
          omega

theorem spliceFrom?_rewritesAt {query : List Char} (before kept : List Char) (patch : Patch)
    (hquery : query = before ++ kept ++ patch.before) :
    spliceFrom? query (byteSize before)
        ((rewritesAt (byteSize before + byteSize kept) patch).map Rewrite.edit) =
      some (kept ++ patch.after) := by
  induction patch generalizing before kept with
  | nil =>
      have hall : query = before ++ kept := by simpa using hquery
      simp [rewritesAt, spliceFrom?, sliceFrom?_eq before kept hall rfl]
  | cons piece patch ih =>
      cases piece with
      | keep text =>
          have hnext := ih before (kept ++ text) (by
            rw [hquery]
            simp)
          rw [rewritesAt]
          simpa [Nat.add_assoc] using hnext
      | change found replacement =>
          have hquery : query = before ++ kept ++ (found ++ Patch.before patch) := by
            simpa using hquery
          have hkept := slice?_eq before kept (found ++ Patch.before patch) hquery rfl rfl
          have hnext := ih (before ++ kept ++ found) [] (by simp [hquery])
          simp only [byteSize_append, byteSize_nil, Nat.add_zero, List.nil_append] at hnext
          rw [rewritesAt, List.map_cons, spliceFrom?]
          refine (if_neg (show ¬ byteSize before + byteSize kept < byteSize before by omega)).trans ?_
          simp only [Rewrite.edit] at hnext ⊢
          rw [hkept, hnext]
          simp

theorem map_change_rewritesAt (offset : Nat) (patch : Patch) :
    (rewritesAt offset patch).map Rewrite.change = patch.changes := by
  induction patch generalizing offset with
  | nil => rfl
  | cons piece patch ih =>
      cases piece with
      | keep text => simpa [rewritesAt] using ih _
      | change found replacement => simpa [rewritesAt, Rewrite.change] using ih _

theorem rewritten?_patch {query : String} {patch : Patch} (hquery : patch.before = query.toList)
    (pass rationale : String) :
    rewritten? pass rationale query (rewritesAt 0 patch) =
      some (.ofChanges (String.ofList patch.after) pass patch.changes rationale) := by
  have hsplice := spliceFrom?_rewritesAt [] [] patch (show query.toList = _ by simp [hquery])
  simp only [byteSize_nil, Nat.add_zero, List.nil_append] at hsplice
  rw [rewritten?, splice?, sort_of_pairwise (pairwise_rewritesAt 0 patch), hsplice,
    map_change_rewritesAt]
  rfl

end Bytes

end OpalRepair
