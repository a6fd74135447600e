import OpalRepair.Query.Layout

/-!
# Scans

What the scanner found, counted in bytes of the UTF-8 text: where stages and separators lie, which
bytes belong to literals, and what is left open at the end.
-/

namespace OpalRepair.Query

def byteSize : List Char → Nat
  | [] => 0
  | c :: text => c.utf8Size + byteSize text

structure Scan where
  cells : List Cell
  final : Scanner
  deriving DecidableEq, Repr

def scan (query : List Char) : Scan :=
  ⟨cells query, Scanner.finish {} query⟩

/-- A part of a text from `start` up to `stop`, which does not belong to it. -/
structure Span where
  start : Nat
  stop : Nat
  deriving DecidableEq, Repr

def Span.contains (span : Span) (position : Nat) : Bool :=
  span.start ≤ position && position < span.stop

def Stage.spans (size : List Cell → Nat) : Nat → List Stage → List Span
  | _, [] => []
  | offset, stage :: rest =>
    let stop := offset + size stage.body
    ⟨offset, stop⟩ :: spans size (stop + size stage.gap) rest

def Layout.spans (size : List Cell → Nat) (layout : Layout) : List Span :=
  Stage.spans size (size layout.lead) layout.stages

def offsetsOf (p : Cell → Bool) : Nat → List Cell → List Nat
  | _, [] => []
  | offset, cell :: rest =>
    let next := offsetsOf p (offset + cell.char.utf8Size) rest
    if p cell then offset :: next else next

namespace Scan

def layout (scan : Scan) : Layout := .ofCells scan.cells

def stageSpans (scan : Scan) : List Span :=
  scan.layout.spans fun row => byteSize (text row)

def separators (scan : Scan) : List Nat :=
  offsetsOf Cell.isSeparator 0 scan.cells

def literalMask (scan : Scan) : List Bool :=
  scan.cells.flatMap fun cell => List.replicate cell.char.utf8Size cell.isLiteral

def inLiteral (scan : Scan) (offset : Nat) : Bool :=
  scan.literalMask.getD offset false

def doubleQuotes (scan : Scan) : Nat :=
  scan.cells.countP fun cell =>
    cell.char == '"' && (cell.role == .opening || cell.role == .closing)

/-- The single-quoted string or regex that is never closed, with the byte offset of its start. -/
def openLiteral (scan : Scan) : Option (Literal × Nat) :=
  match scan.final.mode with
  | .inside .double | .code | .flags _ => none
  | .inside literal =>
    (offsetsOf (·.role == .opening) 0 scan.cells).getLast?.map fun start => (literal, start)

end Scan

end OpalRepair.Query
