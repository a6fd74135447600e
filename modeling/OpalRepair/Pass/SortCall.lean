import OpalRepair.Pass.Patch
import OpalRepair.Query.Bracket
import OpalRepair.Query.Name
import OpalRepair.Query.Path

/-!
# Sort directions as calls

The direction of a sort key is a call `asc(field)` or `desc(field)`. The pass turns a leading minus
and a trailing keyword into such calls.
-/

namespace OpalRepair.SortCall

open Query Text

/-- Lower case as it is used to compare keywords: the long s is an s. -/
def foldCase (c : Char) : Char := if c = 'ſ' then 's' else c.toLower

def wholePath? (text : List Char) : Option (List Char) :=
  (path? text).filter fun path => path.length == text.length

def directed (direction field : List Char) : List Char :=
  direction ++ ['('] ++ field ++ [')']

/-- A key with a keyword behind it. The keyword is written in lower-case ASCII letters. -/
def keywordKey? (key : List Char) : Option (List Char) :=
  (path? key).bind fun field =>
    let behind := key.drop field.length
    let keyword := trimStart behind
    let folded := String.ofList (keyword.map foldCase)
    if behind.head?.any isBlank && (folded == "asc" || folded == "desc") then
      some (directed (keyword.map Char.toLower) field)
    else none

def normalize? : List Char → Option (List Char)
  | '-' :: field => (wholePath? (trimStart field)).map (directed "desc".toList)
  | key => keywordKey? key

def mendStage? (stage : Stage) : Option (List Char) :=
  if !stage.hasVerb "sort" then none
  else
    let keys := (listItems (stage.body.drop 4)).map text
    if keys.any fun key => (normalize? key).isSome then
      some ("sort ".toList
        ++ List.intercalate ", ".toList (keys.map fun key => (normalize? key).getD key))
    else none

def patch (query : List Char) : Patch :=
  .ofStages mendStage? (layout query)

def rationale : String :=
  "OPAL sorts with asc(field) and desc(field); a leading minus or a trailing ASC/DESC keyword " ++
    "is not sort syntax."

end SortCall

def sortCall : Pass :=
  .ofPatch "sort_syntax" SortCall.rationale SortCall.patch

end OpalRepair
