import OpalRepair.Settings.Check
import OpalRepair.Settings.Field
import OpalRepair.Yaml.Scalar

/-!
# Settings in YAML

Settings are a mapping of the fields, as a block or in braces. Numbers are plain scalars; the
disabled passes are a list of scalars, as a block or in brackets. An empty document describes the
standard settings.
-/

namespace OpalRepair.Settings

open Yaml

/-! ## Values -/

inductive Value where
  | scalar (scalar : Scalar)
  | list (items : List (List Char))
  deriving DecidableEq, Repr

def Value.empty : Value := .scalar ⟨[], true⟩

/-- A number of 64 bits without sign. A plus and the usual marks for other bases may precede its
digits; a decimal number does not start with a zero. -/
def unsigned? (text : List Char) : Option Nat :=
  let text := if text.head? == some '+' then text.tail else text
  let value := match text with
    | '0' :: 'x' :: digits => valueIn 16 digits
    | '0' :: 'o' :: digits => valueIn 8 digits
    | '0' :: 'b' :: digits => valueIn 2 digits
    | '0' :: _ :: _ => none
    | digits => valueIn 10 digits
  value.filter (· < UInt64.size)
where
  valueIn (base : Nat) (digits : List Char) : Option Nat := Text.valueInBase? base digits

def Value.number? : Value → Option Nat
  | .scalar ⟨text, true⟩ => unsigned? text
  | .scalar ⟨_, false⟩ | .list _ => none

def Value.list? : Value → Option (List String)
  | .list items => some (items.map String.ofList)
  | .scalar ⟨[], true⟩ => some []
  | .scalar _ => none

def assign? (draft : Draft) (name : List Char) (value : Value) : Option Draft :=
  (Field.ofName? (String.ofList name)).bind fun field =>
    if draft.has field then none
    else match field with
      | .maxStages => value.number?.map fun n => { draft with maxStages := n }
      | .maxNestingDepth => value.number?.map fun n => { draft with maxNestingDepth := n }
      | .maxSuggestions => value.number?.map fun n => { draft with maxSuggestions := n }
      | .passRounds => value.number?.map fun n => { draft with passRounds := n }
      | .disabledPasses => value.list?.map fun items => { draft with disabledPasses := items }

/-! ## Brackets and braces -/

/-- Reads at most `limit` items of a list in brackets, and what follows the closing one. A line may
not start with a tab left of `indent`. -/
def flowItems? (indent : Nat) : Nat → List Place → Option (List (List Char) × List Place)
  | 0, _ => none
  | limit + 1, text =>
    let start := (gapInFlow text).rest
    if startsDocumentMarker start then none
    else if startsWith ']' start then some ([], start.tail)
    else (scalar? true indent start).bind fun (scalar, gap) =>
      if startsDocumentMarker gap.rest then none
      else if startsWith ',' gap.rest then
        (flowItems? indent limit gap.rest.tail).map fun (items, rest) =>
          (scalar.text :: items, rest)
      else if startsWith ']' gap.rest then some ([scalar.text], gap.rest.tail)
      else none

def flowList? (indent : Nat) (text : List Place) : Option (Value × List Place) :=
  (flowItems? indent text.length text.tail).map fun (items, rest) => (.list items, rest)

def flowValue? (text : List Place) : Option (Value × List Place) :=
  let start := (gapInFlow text).rest
  if startsDocumentMarker start then none
  else if startsWith ',' start || startsWith '\x7d' start then some (.empty, start)
  else if startsWith '[' start then
    (flowList? 0 start).map fun (value, rest) => (value, (gapInFlow rest).rest)
  else (scalar? true 0 start).map fun (scalar, gap) => (.scalar scalar, gap.rest)

/-- Whether a scalar that starts `text` is a key: a colon follows on the same line, at most 1024
characters beyond the start of the key. -/
def isKey (text : List Place) (gap : Gap) : Bool :=
  let size := text.length - gap.rest.length
  startsWith ':' gap.rest && size ≤ 1024 && !(text.take size).any Place.isBreak

def flowMembers? : Nat → Draft → List Place → Option (Draft × List Place)
  | 0, _, _ => none
  | limit + 1, draft, text =>
    let start := (gapInFlow text).rest
    if startsDocumentMarker start then none
    else if startsWith '\x7d' start then some (draft, start.tail)
    else (scalar? true 0 start).bind fun (key, gap) =>
      let value := if isKey start gap then flowValue? gap.rest.tail else some (.empty, gap.rest)
      value.bind fun (value, rest) =>
        (assign? draft key.text value).bind fun draft =>
          if startsDocumentMarker rest then none
          else if startsWith ',' rest then flowMembers? limit draft rest.tail
          else if startsWith '\x7d' rest then some (draft, rest.tail)
          else none

/-! ## Blocks -/

def onNewLine? (gap : Gap) : Option (List Place) :=
  if gap.newLine || gap.rest.isEmpty then some gap.rest else none

def columnAtMost (column : Nat) (text : List Place) : Bool :=
  text.head?.all (·.column ≤ column)

/-- Reads the item behind a dash in `column`. It is empty if nothing is indented further. -/
def blockItem? (column : Nat) (text : List Place) : Option (List Char × List Place) :=
  let gap := gapBeforeKey text
  if gap.rest.isEmpty || (gap.newLine && columnAtMost column gap.rest) then some ([], gap.rest)
  else (scalar? false (column + 1) gap.rest).bind fun (scalar, gap) =>
    (onNewLine? gap).map fun rest => (scalar.text, rest)

/-- Reads the items of a list whose dashes stand in `column`. There may be `limit` of them. -/
def blockItems? (column limit : Nat) (text : List Place) :
    Option (List (List Char) × List Place) :=
  if !startsIndicator '-' text || !text.head?.any (·.column == column) then some ([], text)
  else match limit with
    | 0 => none
    | limit + 1 =>
      (blockItem? column text.tail).bind fun (item, rest) =>
        (blockItems? column limit rest).map fun (items, rest) => (item :: items, rest)

def blockList? (text : List Place) : Option (Value × List Place) :=
  (blockItems? ((text.head?.map Place.column).getD 0) text.length text).map fun (items, rest) =>
    (.list items, rest)

/-- Reads the value behind a key that stands in `column`. A list may stand in the same column. -/
def blockValue? (column : Nat) (text : List Place) : Option (Value × List Place) :=
  let gap := gapAfterToken text
  if gap.rest.isEmpty then some (.empty, [])
  else if gap.newLine && startsIndicator '-' gap.rest
      && gap.rest.head?.any (column ≤ ·.column) then blockList? gap.rest
  else if gap.newLine && columnAtMost column gap.rest then some (.empty, gap.rest)
  else if startsWith '[' gap.rest then
    (flowList? (column + 1) gap.rest).bind fun (value, rest) =>
      (onNewLine? (gapAfterToken rest)).map fun rest => (value, rest)
  else (scalar? false (column + 1) gap.rest).bind fun (scalar, gap) =>
    (onNewLine? gap).map fun rest => (.scalar scalar, rest)

/-- Reads the members of a mapping whose keys stand in `column`. There may be `limit` of them. -/
def blockMembers? (column limit : Nat) (draft : Draft) (text : List Place) :
    Option (Draft × List Place) :=
  if startsDocumentMarker text || !text.head?.any (·.column == column) then some (draft, text)
  else match limit with
    | 0 => none
    | limit + 1 =>
      (scalar? false 0 text).bind fun (key, gap) =>
        if isKey text gap && startsIndicator ':' gap.rest then
          (blockValue? column gap.rest.tail).bind fun (value, rest) =>
            (assign? draft key.text value).bind fun draft => blockMembers? column limit draft rest
        else none

/-! ## Documents -/

def isEnd : Nat → List Place → Bool
  | _, [] => true
  | limit + 1, text => startsMarker "..." text && isEnd limit (gapAfterToken (text.drop 3)).rest
  | 0, _ => false

/-- Reads the settings at the start of a text. A block can only start where a key may stand. -/
def root? (keyAllowed : Bool) (text : List Place) : Option (Draft × List Place) :=
  if text.isEmpty || startsMarker "..." text then some ({}, text)
  else if startsWith '\x7b' text then
    (flowMembers? text.length {} text.tail).map fun (draft, rest) =>
      (draft, (gapAfterToken rest).rest)
  else if keyAllowed then
    blockMembers? ((text.head?.map Place.column).getD 0) text.length {} text
  else none

def decodeYaml? (source : String) : Option Settings :=
  let chars := source.toList
  let text := (gapBeforeKey (places chars)).rest
  if !chars.all isAllowed || startsMarker "..." text then none
  else
    let result :=
      if startsMarker "---" text then
        let gap := gapAfterToken (text.drop 3)
        root? gap.newLine gap.rest
      else root? true text
    (result.filter fun (_, rest) => isEnd rest.length rest).map fun (draft, _) => draft.settings

def ofYaml (source : String) : Except Error Settings :=
  match decodeYaml? source with
  | none => .error (.decoding .malformed)
  | some settings => settings.check.map fun _ => settings

end OpalRepair.Settings
