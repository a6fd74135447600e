import OpalRepair.Text.Blank

/-!
# Cells

A query is read as a row of cells: its characters, each with the role it plays. The roles tell
code from literals and mark the pipes that separate stages.
-/

namespace OpalRepair.Query

/-- The role of one character. Strings and regexes are the literals; a regex may carry flags. -/
inductive Role where
  | code
  | separator
  | opening
  | content
  | closing
  | flag
  deriving DecidableEq, Repr

def Role.isLiteral : Role → Bool
  | .code | .separator => false
  | .opening | .content | .closing | .flag => true

structure Cell where
  char : Char
  role : Role
  deriving DecidableEq, Repr

namespace Cell

def isLiteral (cell : Cell) : Bool := cell.role.isLiteral

def isSeparator (cell : Cell) : Bool := cell.role == .separator

def isGap (cell : Cell) : Bool := cell.isSeparator || Text.isBlank cell.char

def isCode (c : Char) (cell : Cell) : Bool := cell.char == c && !cell.isLiteral

end Cell

def text (cells : List Cell) : List Char := cells.map Cell.char

@[simp] theorem text_nil : text [] = [] := rfl

@[simp] theorem text_cons (cell : Cell) (cells : List Cell) :
    text (cell :: cells) = cell.char :: text cells := rfl

@[simp] theorem text_append (a b : List Cell) : text (a ++ b) = text a ++ text b :=
  List.map_append

end OpalRepair.Query
