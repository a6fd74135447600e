import OpalRepair.Query.Layout

/-!
# Names

The name a stage starts with is its verb.
-/

namespace OpalRepair.Query

open Text

def leadingName? (text : List Char) : Option (List Char) :=
  match (trimStart text).takeWhile isNameChar with
  | [] => none
  | c :: name => if c.isDigit then none else some (c :: name)

def Stage.verb? (stage : Stage) : Option String :=
  (leadingName? stage.text).map String.ofList

def Stage.hasVerb (stage : Stage) (verb : String) : Bool :=
  stage.verb? == some verb

end OpalRepair.Query
