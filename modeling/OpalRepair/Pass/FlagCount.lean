import OpalRepair.Pass.Basic
import OpalRepair.Pass.Edit
import OpalRepair.Query.Bracket
import OpalRepair.Query.Name
import OpalRepair.Query.Site
import OpalRepair.Vocabulary.Verbs

/-!
# Counting by flags

There is no conditional count. The pass derives a flag column from the condition in a stage before
and sums the flags.
-/

namespace OpalRepair.FlagCount

open Query Text Vocabulary

/-- A conditional count: the stage it stands in, its span, its label and its condition. -/
structure Count where
  stage : Nat
  span : Span
  label : List Char
  condition : List Char
  deriving DecidableEq, Repr

namespace Count

def flag (count : Count) : List Char := count.label ++ "_flag".toList

def derivation (count : Count) : List Char :=
  count.flag ++ ":if(".toList ++ count.condition ++ ", 1, 0)".toList

def sum (count : Count) : List Char :=
  count.label ++ ":sum(".toList ++ count.flag ++ [')']

def edit (count : Count) : Edit := ⟨count.span, count.sum⟩

end Count

def countHead? (text : List Char) : Option (List Char × List Char) :=
  if !text.head?.any isNameStart then none
  else (skipTo? ':' (text.dropWhile isNameChar)).bind fun rest =>
    (callHead? (trimStart rest)).bind fun (name, arguments) =>
      if String.ofList name = "count_if" then some (text.takeWhile isNameChar, arguments) else none

def aggregation? (layout : Layout) (position : Nat) : Option Nat :=
  ((layout.spans List.length).findIdx? (·.contains position)).filter fun number =>
    ((layout.stages[number]?).bind Stage.verb?).any aggregationVerbs.contains

def countAt? (layout : Layout) (site : Site) : Option Count :=
  if site.inLiteral || !site.startsWord || site.continuesPath then none
  else
    (countHead? (text site.rest)).bind fun (label, arguments) =>
      (aggregation? layout site.index).bind fun stage =>
        let size := site.rest.length - arguments.length
        let inside := site.rest.drop size
        (closingParen? 0 inside).bind fun length =>
          let condition := trim (text (inside.take length))
          if condition.isEmpty then none
          else some ⟨stage, ⟨site.index, site.index + size + length + 1⟩, label, condition⟩

def counts (row : List Cell) (layout : Layout) : List Count :=
  (sites row).filterMap (countAt? layout)

def derive? (layout : Layout) (counts : List Count) (number : Nat) : Option Edit :=
  let own := counts.filter (·.stage == number)
  let derivations := List.intercalate ", ".toList (own.map Count.derivation)
  let spans := layout.spans List.length
  if own.isEmpty then none
  else if number != 0 && (layout.stages[number - 1]?).any (·.hasVerb "make_col") then
    (spans[number - 1]?).map fun span => ⟨⟨span.stop, span.stop⟩, ", ".toList ++ derivations⟩
  else
    (spans[number]?).map fun span =>
      ⟨⟨span.start, span.start⟩, "make_col ".toList ++ derivations ++ " | ".toList⟩

def edits (layout : Layout) (counts : List Count) : List Edit :=
  counts.map Count.edit
    ++ (List.range layout.stages.length).filterMap (derive? layout counts)

def change (query : List Char) (count : Count) : Change where
  found :=
    String.ofList ((query.drop count.span.start).take (count.span.stop - count.span.start))
  replacement := String.ofList ("make_col ".toList ++ count.derivation ++ " | ".toList ++ count.sum)

def rationale : String :=
  "OPAL has no count_if; the condition is materialized as a 0/1 flag column and summed instead."

def apply (query : String) : Outcome :=
  let text := query.toList
  let row := cells text
  let layout := Layout.ofCells row
  let counts := counts row layout
  .ofChanges (String.ofList (Edit.splice text (edits layout counts))) "count_if"
    (counts.map (change text)) rationale

end FlagCount

def flagCount : Pass where
  name := "count_if"
  apply _ query := FlagCount.apply query

end OpalRepair
