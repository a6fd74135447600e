import OpalRepair.Pass.Patch
import OpalRepair.Query.Bracket
import OpalRepair.Query.Name
import OpalRepair.Query.Site
import OpalRepair.Text.Number
import OpalRepair.Vocabulary.Functions
import OpalRepair.Vocabulary.Verbs

/-!
# Aligning metrics

A metric can only be selected in an `align` stage. If a query has no such stage and selects one
metric in a filter or as the only argument of an aggregate, the pass puts an `align` stage in
front and uses the aligned column instead.
-/

namespace OpalRepair.AlignMetric

open Query Text Vocabulary

/-- A metric selector in a stage: where it starts and how many characters it has up to and with its
parenthesis. -/
structure Selection where
  selector : String
  start : Nat
  size : Nat
  deriving DecidableEq, Repr

def selectionAt? (site : Site) : Option Selection :=
  if site.inLiteral || !site.startsWord || site.continuesPath then none
  else
    (callHead? (text site.rest)).bind fun (name, rest) =>
      let selector := String.ofList name
      if metricSelectors.contains selector then
        some ⟨selector, site.index, site.rest.length - rest.length⟩
      else none

def selections (stage : Stage) : List Selection :=
  (sites stage.body).filterMap selectionAt?

def quotedName? (arguments : List Char) : Option (List Char) :=
  match trimStart arguments with
  | [] => none
  | quote :: rest =>
    let name := rest.takeWhile (· != quote)
    if (quote == '"' || quote == '\'') && !name.isEmpty
        && trimEnd (rest.drop name.length) == [quote] then some name
    else none

/-- The column an aligned metric is put into. Column names hold ASCII letters, digits and `_` and
do not start with a digit. -/
def column (metric : List Char) : List Char :=
  let name := metric.map fun c => if c.isAlphanum then c else '_'
  let name := dropTrailing (· == '_') (name.dropWhile (· == '_'))
  if name.head?.all Char.isDigit then "metric_".toList ++ name else name

/-- The name called by the parenthesis at the end of a text, and what precedes the name. A name
behind a letter or number of another script is only part of a word. -/
def enclosingCall? (text : List Char) : Option (List Char × List Char) :=
  match text.reverse.dropWhile isBlank with
  | '(' :: rest =>
    let rest := rest.dropWhile isBlank
    let name := rest.takeWhile isNameChar
    let front := rest.dropWhile isNameChar
    if name.isEmpty || front.head?.any isAlphanumeric then none
    else some (front.reverse, name.reverse)
  | _ => none

structure Call where
  before : List Cell
  call : List Char
  column : List Char
  after : List Char
  deriving DecidableEq, Repr

def callOf? (stage : Stage) (selection : Selection) : Option Call :=
  let arguments := stage.body.drop (selection.start + selection.size)
  (closingParen? 0 arguments).bind fun length =>
    (quotedName? (text (arguments.take length))).map fun name =>
      { before := stage.body.take selection.start
        call := text ((stage.body.drop selection.start).take (selection.size + length + 1))
        column := column name
        after := text (arguments.drop (length + 1)) }

def alignStage (function : List Char) (call : Call) : List Char :=
  "align ".toList ++ call.column ++ [':'] ++ function ++ ['('] ++ call.call ++ ") | ".toList

/-- A filter compares the average. The selector has to stand outside all parentheses. -/
def alignFilter? (selection : Selection) (call : Call) : Option (List Char) :=
  if selection.selector = "m" ∧ parenBalance call.before = 0 then
    some (alignStage "avg".toList call ++ text call.before ++ call.column ++ call.after)
  else none

def alignAggregate? (verb : String) (call : Call) : Option (List Char) :=
  match enclosingCall? (text call.before), trimStart call.after with
  | some (front, name), ')' :: rest =>
    let function := String.ofList name
    if functions.contains function && !metricSelectors.contains function then
      let newVerb := if verb = "statsby" then "aggregate" else verb
      some (alignStage name call ++ newVerb.toList ++ front.drop verb.length ++ name ++ ['(']
        ++ call.column ++ [')'] ++ rest)
    else none
  | _, _ => none

def mendStage? (stage : Stage) : Option (List Char) :=
  (selections stage).head?.bind fun selection =>
    (callOf? stage selection).bind fun call =>
      stage.verb?.bind fun verb =>
        if verb = "filter" then alignFilter? selection call
        else if aggregationVerbs.contains verb then alignAggregate? verb call
        else none

def patch (query : List Char) : Patch :=
  let layout := layout query
  if layout.stages.any (·.hasVerb "align") || (layout.stages.flatMap selections).length != 1 then
    [.keep query]
  else .ofStages mendStage? layout

def rationale : String :=
  "metric selection with m() only yields values inside an align stage, " ++
    "so the metric is aligned first and later stages use the aligned column."

end AlignMetric

def alignMetric : Pass :=
  .ofPatch "metric_pipeline" AlignMetric.rationale AlignMetric.patch

end OpalRepair
