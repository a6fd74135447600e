import OpalRepair.Query.Scanner

/-!
# Layout

A layout cuts a row of cells into stages and the gaps around them without losing a cell. Stages
start and end with a cell that is no gap; two neighbours have a separator between them.
-/

namespace OpalRepair.Query

structure Stage where
  body : List Cell
  gap : List Cell
  deriving DecidableEq, Repr

structure Layout where
  lead : List Cell
  stages : List Stage
  deriving DecidableEq, Repr

namespace Stage

def cells (stage : Stage) : List Cell := stage.body ++ stage.gap

def text (stage : Stage) : List Char := Query.text stage.body

end Stage

namespace Layout

def cells (layout : Layout) : List Cell :=
  layout.lead ++ layout.stages.flatMap Stage.cells

/-- Puts a cell in front. A cell that is no gap joins the first stage unless a separator lies
between them. -/
def cons (cell : Cell) (layout : Layout) : Layout :=
  if cell.isGap then { layout with lead := cell :: layout.lead }
  else match layout.stages with
    | [] => ⟨[], [⟨[cell], layout.lead⟩]⟩
    | stage :: stages =>
      if layout.lead.any Cell.isSeparator then ⟨[], ⟨[cell], layout.lead⟩ :: stage :: stages⟩
      else ⟨[], ⟨cell :: (layout.lead ++ stage.body), stage.gap⟩ :: stages⟩

def ofCells (cells : List Cell) : Layout :=
  cells.foldr cons ⟨[], []⟩

@[simp] theorem cells_cons (cell : Cell) (layout : Layout) :
    (cons cell layout).cells = cell :: layout.cells := by
  unfold cons
  split
  · rfl
  · split <;> rename_i h
    · simp [cells, Stage.cells, h]
    · split <;> simp [cells, Stage.cells, h]

@[simp] theorem cells_ofCells (row : List Cell) : (ofCells row).cells = row := by
  induction row with
  | nil => rfl
  | cons cell rest ih =>
    show (cons cell (ofCells rest)).cells = cell :: rest
    rw [cells_cons, ih]

end Layout

def layout (query : List Char) : Layout :=
  .ofCells (cells query)

theorem cells_eq_layout (query : List Char) :
    cells query = (layout query).lead ++ (layout query).stages.flatMap Stage.cells :=
  (Layout.cells_ofCells (cells query)).symm

def split (query : List Char) : List (List Char) :=
  (layout query).stages.map Stage.text

end OpalRepair.Query
