import OpalRepair.Query.Scan

/-!
# Edits

An edit replaces the characters of a span. Edits are applied from left to right, whatever order
they are given in; one that starts inside a span already replaced is dropped.
-/

namespace OpalRepair

open Query

structure Edit where
  span : Span
  replacement : List Char
  deriving DecidableEq, Repr

namespace Edit

def le (a b : Edit) : Bool :=
  a.span.start < b.span.start || (a.span.start == b.span.start && a.span.stop ≤ b.span.stop)

def insertSorted (edit : Edit) : List Edit → List Edit
  | [] => [edit]
  | other :: rest =>
    if edit.le other then edit :: other :: rest else other :: insertSorted edit rest

def sort (edits : List Edit) : List Edit :=
  edits.foldr insertSorted []

def applyFrom (cursor : Nat) (rest : List Char) : List Edit → List Char
  | [] => rest
  | edit :: edits =>
    if edit.span.start < cursor then applyFrom cursor rest edits
    else
      rest.take (edit.span.start - cursor) ++ edit.replacement
        ++ applyFrom edit.span.stop (rest.drop (edit.span.stop - cursor)) edits

def splice (text : List Char) (edits : List Edit) : List Char :=
  applyFrom 0 text (sort edits)

end Edit

end OpalRepair
