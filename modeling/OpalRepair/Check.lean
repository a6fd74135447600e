import OpalRepair.Error
import OpalRepair.Query.Name
import OpalRepair.Query.Scan
import OpalRepair.Query.Site
import OpalRepair.Settings.Basic
import OpalRepair.Vocabulary.Functions
import OpalRepair.Vocabulary.Hints
import OpalRepair.Vocabulary.Suggest
import OpalRepair.Vocabulary.Verbs

/-!
# Checks

A query is accepted if it passes six checks. They run in a fixed order and the first fault is the
verdict. None of them looks into literals.
-/

namespace OpalRepair

open Query Text Vocabulary

abbrev Verdict := Except Error Unit

def require (holds : Bool) (otherwise : Error) : Verdict :=
  if holds then .ok () else .error otherwise

def refuseFirst {α : Type} (find? : α → Option Error) (items : List α) : Verdict :=
  match items.findSome? find? with
  | some error => .error error
  | none => .ok ()

/-! ## Delimiters -/

def Query.Pair.imbalance? (row : List Cell) (pair : Pair) : Option Error :=
  let opened := row.countP (Cell.isCode pair.left)
  let closed := row.countP (Cell.isCode pair.right)
  if opened = closed then none else some (.structural (.unpaired pair opened closed))

def balancedDelimiters (scan : Scan) : Verdict :=
  match scan.openLiteral with
  | some (literal, offset) => .error (.structural (.openLiteral literal offset))
  | none => refuseFirst (Pair.imbalance? scan.cells) Pair.all

def quoteParity (scan : Scan) : Verdict :=
  require (scan.doubleQuotes % 2 == 0) (.structural (.oddQuotes scan.doubleQuotes))

/-! ## Size -/

def stageCount (settings : Settings) (scan : Scan) : Verdict :=
  let count := scan.layout.stages.length
  require (count ≤ settings.maxStages) (.complexity (.stages count settings.maxStages))

def nestingBound (settings : Settings) (scan : Scan) : Verdict :=
  let depth := nestingDepth scan.cells
  require (depth ≤ settings.maxNestingDepth)
    (.complexity (.nesting depth settings.maxNestingDepth))

/-! ## Names -/

/-- What is wrong with the verb of the stage that `number` stages precede. Without a name at its
start the stage is blamed on its first word. -/
def verbError? (settings : Settings) (stage : Stage) (number : Nat) : Option Error :=
  match stage.verb? with
  | some verb =>
    if verbs.contains verb then none
    else some (.unknownVerb verb (number + 1) (suggest verbs verb settings.maxSuggestions))
  | none =>
    let word := stage.text.takeWhile (!isBlank ·)
    some (.unknownVerb (String.ofList word) (number + 1) [])

def knownVerbs (settings : Settings) (scan : Scan) : Verdict :=
  refuseFirst (fun (stage, number) => verbError? settings stage number) scan.layout.stages.zipIdx

/-- The word that is called at a site. What follows a dot is part of a path and not called. -/
def calledWord? (site : Site) : Option (List Char) :=
  match site.rest with
  | [] => none
  | cell :: _ =>
    if site.startsWord && (isAlphabetic cell.char || cell.char == '_') && !cell.isLiteral
        && site.previous != some '.' then
      let rest := text site.rest
      (skipTo? '(' (rest.dropWhile isWordChar)).map fun _ => rest.takeWhile isWordChar
    else none

def isCallable (name : String) : Bool :=
  functions.contains name || verbs.contains name
    || connectives.contains (String.ofList (name.toList.map Char.toLower))

def functionError? (settings : Settings) (name : String) : Option Error :=
  if isCallable name then none
  else some <| match hint? name with
    | some hint => .unknownFunction name (some hint) []
    | none => .unknownFunction name none (suggest functions name settings.maxSuggestions)

def knownFunctions (settings : Settings) (scan : Scan) : Verdict :=
  refuseFirst (functionError? settings)
    (((sites scan.cells).filterMap calledWord?).map String.ofList)

/-! ## All checks -/

structure Check where
  name : String
  run : Settings → Scan → Verdict

def checks : List Check :=
  [⟨"balanced_delimiters", fun _ => balancedDelimiters⟩,
   ⟨"quote_parity", fun _ => quoteParity⟩,
   ⟨"stage_count", stageCount⟩,
   ⟨"nesting_depth", nestingBound⟩,
   ⟨"known_verbs", knownVerbs⟩,
   ⟨"known_functions", knownFunctions⟩]

/-- The verdict on the structure of a query. -/
def checkStructure (settings : Settings) (query : String) : Verdict :=
  let scan := scan query.toList
  checks.forM fun check => check.run settings scan

end OpalRepair
