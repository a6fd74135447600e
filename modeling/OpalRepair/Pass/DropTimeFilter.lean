import OpalRepair.Pass.Basic
import OpalRepair.Query.Layout
import OpalRepair.Query.Site
import OpalRepair.Text.Number

/-!
# Dropping time filters

A query that runs over a declared time window needs no filter for recent events. The pass drops
such stages, unless nothing would be left.
-/

namespace OpalRepair.DropTimeFilter

open Query Text

def timeColumns : List String :=
  ["timestamp", "time", "_time", "event_time", "start_time", "end_time", "valid_from",
   "BUNDLE_TIMESTAMP", "OBSERVATION_TIMESTAMP"]

def mentions (word : List Char) (previous : Option Char) : List Char → Bool
  | [] => false
  | c :: rest =>
    (!joinsWord previous && (c :: rest).takeWhile isWordChar == word)
      || mentions word (some c) rest

def dropStart? (start text : List Char) : Option (List Char) :=
  if start.isPrefixOf text then some (text.drop start.length) else none

def isTimeAgo : List Char → Bool
  | quote :: rest =>
    let time := rest.takeWhile (· != quote)
    (quote == '"' || quote == '\'') && rest.drop time.length == [quote]
      && mentions "ago".toList none time
  | [] => false

def isDuration (text : List Char) : Bool :=
  let behind := text.dropWhile isDecimalDigit
  let unit := match behind with
    | '.' :: rest => if rest.head?.any isDecimalDigit then rest.dropWhile isDecimalDigit else behind
    | _ => behind
  let unit := trimStart unit
  text.head?.any isDecimalDigit && !unit.isEmpty && unit.all Char.isAlpha

def isTimeBeforeNow (text : List Char) : Bool :=
  let rest := (dropStart? "now()".toList text).or (dropStart? "query_end_time()".toList text)
  (rest.bind (skipTo? '-')).any fun duration => isDuration (trimStart duration)

def isRelativeTime : List Char → Bool
  | '@' :: time => isTimeAgo time
  | text => isTimeBeforeNow text

def isTimeFilter (stage : List Char) : Bool :=
  ((dropStart? "filter".toList stage).bind fun rest =>
    let condition := trimStart rest
    let column := condition.takeWhile isNameChar
    if rest.head?.any isBlank && timeColumns.contains (String.ofList column) then
      (skipTo? '>' (condition.drop column.length)).map fun time =>
        isRelativeTime (trimStart ((dropStart? ['='] time).getD time))
    else none).getD false

def isRedundant (stage : Stage) : Bool := isTimeFilter stage.text

/-- The stages with the gaps between them; `tail` takes the place of the last gap. -/
def join (tail : List Cell) : List Stage → List Cell
  | [] => tail
  | [stage] => stage.body ++ tail
  | stage :: rest => stage.cells ++ join tail rest

/-- The layout without its redundant stages. The gap behind a stage that stays is kept. -/
def remaining (layout : Layout) : List Char :=
  let tail := (layout.stages.getLast?.map Stage.gap).getD []
  text (layout.lead ++ join tail (layout.stages.filter (!isRedundant ·)))

def apply (window : String) (query : String) : Outcome :=
  let layout := layout query.toList
  let redundant := layout.stages.filter isRedundant
  if redundant.isEmpty || redundant.length == layout.stages.length then .unchanged query
  else
    .ofChanges (String.ofList (remaining layout)) "time_filter"
      (redundant.map fun stage => ⟨String.ofList stage.text, ""⟩)
      ("the declared time window (" ++ window ++ ") already bounds the query, so an explicit " ++
        "timestamp filter is redundant.")

end DropTimeFilter

def dropTimeFilter : Pass where
  name := "time_filter"
  apply context query :=
    match context.declaredWindow? with
    | none => .unchanged query
    | some window => DropTimeFilter.apply window query

end OpalRepair
