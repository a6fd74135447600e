import OpalRepair.Query.Layout

/-!
# Brackets

Parentheses, brackets and braces nest in code; in literals they are plain characters.
-/

namespace OpalRepair.Query

open Text

inductive Pair where
  | parentheses
  | brackets
  | braces
  deriving DecidableEq, Repr

namespace Pair

def all : List Pair := [.parentheses, .brackets, .braces]

def left : Pair → Char
  | .parentheses => '('
  | .brackets => '['
  | .braces => '\x7b'

def right : Pair → Char
  | .parentheses => ')'
  | .brackets => ']'
  | .braces => '\x7d'

end Pair

namespace Cell

def opens (cell : Cell) : Bool := Pair.all.any fun pair => cell.isCode pair.left

def closes (cell : Cell) : Bool := Pair.all.any fun pair => cell.isCode pair.right

end Cell

/-! ## Depth -/

/-- The deepest nesting when `depth` pairs are open before the row. A closing delimiter that
nothing opened is passed over. -/
def nestingFrom (depth : Nat) : List Cell → Nat
  | [] => depth
  | cell :: rest =>
    let next := if cell.opens then depth + 1 else if cell.closes then depth - 1 else depth
    max depth (nestingFrom next rest)

def nestingDepth (row : List Cell) : Nat :=
  nestingFrom 0 row

def parenBalance (row : List Cell) : Int :=
  row.countP (Cell.isCode '(') - row.countP (Cell.isCode ')')

/-! ## Matching -/

/-- The number of cells before the `)` that closes a parenthesis opened before the row, when
`inner` further parentheses are open. -/
def closingParen? (inner : Nat) : List Cell → Option Nat
  | [] => none
  | cell :: rest =>
    if cell.isCode '(' then (closingParen? (inner + 1) rest).map (· + 1)
    else if cell.isCode ')' then
      match inner with
      | 0 => some 0
      | inner + 1 => (closingParen? inner rest).map (· + 1)
    else (closingParen? inner rest).map (· + 1)

def matchingParen? (row : List Cell) (position : Nat) : Option Nat :=
  match row.drop position with
  | [] => none
  | cell :: rest =>
    if cell.isCode '(' then (closingParen? 0 rest).map (position + 1 + ·) else none

/-! ## Lists -/

/-- Cuts a row at the commas outside all pairs; `depth` counts the pairs open before it. -/
def splitCommas (depth : Int) : List Cell → List (List Cell)
  | [] => [[]]
  | cell :: rest =>
    if cell.isCode ',' ∧ depth = 0 then [] :: splitCommas depth rest
    else
      let next := if cell.opens then depth + 1 else if cell.closes then depth - 1 else depth
      match splitCommas next rest with
      | [] => [[cell]]
      | piece :: pieces => (cell :: piece) :: pieces

def trimCells (row : List Cell) : List Cell :=
  dropTrailing (isBlank ·.char) (row.dropWhile (isBlank ·.char))

/-- The items of a list separated by commas; empty ones do not count. -/
def listItems (row : List Cell) : List (List Cell) :=
  (splitCommas 0 row).map trimCells |>.filter (!·.isEmpty)

end OpalRepair.Query
