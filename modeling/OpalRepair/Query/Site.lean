import OpalRepair.Query.Cell
import OpalRepair.Text.Word

/-!
# Sites

A site is a place in a row of cells at which something may start. Whether a word can start there
depends on the character before it.
-/

namespace OpalRepair.Query

open Text

structure Site where
  index : Nat
  previous : Option Char
  rest : List Cell
  deriving DecidableEq, Repr

def sitesFrom (index : Nat) (previous : Option Char) : List Cell → List Site
  | [] => []
  | cell :: rest => ⟨index, previous, cell :: rest⟩ :: sitesFrom (index + 1) (some cell.char) rest

def sites (row : List Cell) : List Site :=
  sitesFrom 0 none row

namespace Site

def inLiteral (site : Site) : Bool :=
  site.rest.head?.any Cell.isLiteral

def startsWord (site : Site) : Bool :=
  !joinsWord site.previous

def continuesPath (site : Site) : Bool :=
  site.previous.any fun c => isNameChar c || c == '.'

end Site

/-! ## Reading text -/

def skipTo? (c : Char) (text : List Char) : Option (List Char) :=
  match trimStart text with
  | [] => none
  | d :: rest => if d = c then some rest else none

def callHead? (text : List Char) : Option (List Char × List Char) :=
  (skipTo? '(' (text.dropWhile isNameChar)).map fun rest => (text.takeWhile isNameChar, rest)

end OpalRepair.Query
