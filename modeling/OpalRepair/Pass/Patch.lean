import OpalRepair.Pass.Basic
import OpalRepair.Query.Layout

/-!
# Patches

A patch takes a text apart into pieces that stay and pieces that change. Both the text before and
the text after can be read off it, and so can the changes in between.
-/

namespace OpalRepair

open Query

inductive Piece where
  | keep (text : List Char)
  | change (found replacement : List Char)
  deriving DecidableEq, Repr

abbrev Patch := List Piece

namespace Piece

def before : Piece → List Char
  | .keep text => text
  | .change found _ => found

def after : Piece → List Char
  | .keep text => text
  | .change _ replacement => replacement

def change? : Piece → Option Change
  | .keep _ => none
  | .change found replacement => some ⟨String.ofList found, String.ofList replacement⟩

end Piece

namespace Patch

def before (patch : Patch) : List Char := patch.flatMap Piece.before

def after (patch : Patch) : List Char := patch.flatMap Piece.after

def changes (patch : Patch) : List Change := patch.filterMap Piece.change?

end Patch

def Pass.ofPatch (name rationale : String) (patch : List Char → Patch) : Pass where
  name
  apply _ query :=
    let patch := patch query.toList
    .ofChanges (String.ofList patch.after) name patch.changes rationale

/-! ## Patching fragments -/

/-- A fragment found at some place: the number of characters behind its first one, and what is to
replace it, if anything. -/
structure Fragment where
  more : Nat
  replacement : Option (List Char)
  deriving DecidableEq, Repr

def Fragment.piece (fragment : Fragment) (row : List Cell) : Piece :=
  let found := text (row.take (fragment.more + 1))
  match fragment.replacement with
  | none => .keep found
  | some replacement => .change found replacement

namespace Patch

/-- Looks for fragments from left to right behind `previous`; they do not overlap. The first
`skip` cells belong to a fragment already found. -/
def walk (find? : Option Char → List Cell → Option Fragment) :
    Nat → Option Char → List Cell → Patch
  | _, _, [] => []
  | skip + 1, _, cell :: rest => walk find? skip (some cell.char) rest
  | 0, previous, cell :: rest =>
    match find? previous (cell :: rest) with
    | none => .keep [cell.char] :: walk find? 0 (some cell.char) rest
    | some fragment =>
      fragment.piece (cell :: rest) :: walk find? fragment.more (some cell.char) rest

def ofFragments (find? : Option Char → List Cell → Option Fragment) (row : List Cell) : Patch :=
  walk find? 0 none row

theorem before_piece (fragment : Fragment) (row : List Cell) :
    (fragment.piece row).before = text (row.take (fragment.more + 1)) := by
  unfold Fragment.piece
  cases fragment.replacement <;> rfl

theorem before_walk (find? : Option Char → List Cell → Option Fragment) (skip : Nat)
    (previous : Option Char) (row : List Cell) :
    (walk find? skip previous row).before = text (row.drop skip) := by
  induction row generalizing skip previous with
  | nil => simp [walk, before]
  | cons cell rest ih =>
    cases skip with
    | succ skip => exact ih skip _
    | zero =>
      rw [walk]
      split
      · have := ih 0 (some cell.char)
        simp_all [before, Piece.before]
      · rename_i fragment _
        have := ih fragment.more (some cell.char)
        simp only [before] at this
        simp [before, before_piece, this, ← text_append]

@[simp] theorem before_ofFragments (find? : Option Char → List Cell → Option Fragment)
    (row : List Cell) : (ofFragments find? row).before = text row :=
  before_walk find? 0 none row

end Patch

/-! ## Patching stages -/

def Query.Stage.pieces (mend? : Stage → Option (List Char)) (stage : Stage) : Patch :=
  [match mend? stage with
    | none => .keep stage.text
    | some replacement => .change stage.text replacement,
   .keep (Query.text stage.gap)]

def Patch.ofStages (mend? : Stage → Option (List Char)) (layout : Layout) : Patch :=
  .keep (text layout.lead) :: layout.stages.flatMap (Stage.pieces mend?)

theorem Query.Stage.before_pieces (mend? : Stage → Option (List Char)) (stage : Stage) :
    (stage.pieces mend?).flatMap Piece.before = Query.text stage.cells := by
  unfold pieces
  cases mend? stage <;> simp [Piece.before, Stage.text, Stage.cells]

@[simp] theorem Patch.before_ofStages (mend? : Stage → Option (List Char)) (layout : Layout) :
    (Patch.ofStages mend? layout).before = text layout.cells := by
  have h (stages : List Stage) :
      (stages.flatMap (Stage.pieces mend?)).flatMap Piece.before
        = text (stages.flatMap Stage.cells) := by
    induction stages with
    | nil => rfl
    | cons stage rest ih =>
      simp only [List.flatMap_cons, List.flatMap_append, text_append, Stage.before_pieces, ih]
  simp [before, ofStages, Piece.before, Layout.cells, h]

end OpalRepair
