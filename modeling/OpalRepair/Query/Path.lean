import OpalRepair.Text.Word

/-!
# Field paths

A path is a name followed by segments. A segment is a dot with a name or with a key in double
quotes behind it.
-/

namespace OpalRepair.Query

open Text

/-- What the last character read of a path was: part of a name, the dot of a segment, part of a
quoted key or the quote that closes it. -/
inductive PathState where
  | name
  | dot
  | quoted
  | closed
  deriving DecidableEq, Repr

def startsSegment : List Char → Bool
  | [] => false
  | c :: rest => isNameStart c || (c == '"' && rest.contains '"')

def pathTail : PathState → List Char → List Char
  | _, [] => []
  | .name, c :: rest =>
    if isNameChar c then c :: pathTail .name rest
    else if c = '.' ∧ startsSegment rest then c :: pathTail .dot rest
    else []
  | .dot, c :: rest => c :: pathTail (if c = '"' then .quoted else .name) rest
  | .quoted, c :: rest => c :: pathTail (if c = '"' then .closed else .quoted) rest
  | .closed, c :: rest =>
    if c = '.' ∧ startsSegment rest then c :: pathTail .dot rest else []

def path? : List Char → Option (List Char)
  | [] => none
  | c :: rest => if isNameStart c then some (c :: pathTail .name rest) else none

end OpalRepair.Query
