import OpalRepair.Json.Token
import OpalRepair.Settings.Check
import OpalRepair.Settings.Field

/-!
# Settings in JSON

Settings are an object with any of the fields, or an array of the fields in order of which the last
may be missing. The text is read from left to right and the first fault is reported.
-/

namespace OpalRepair.Settings

open Json

abbrev Reading (α : Type) := Except Undecodable (α × List Token)

def unexpected (token : Token) (expected : String) : Undecodable :=
  match token.description? with
  | some what => .mismatch s!"invalid type: {what}, expected {expected}"
  | none => .malformed

/-! ## Values -/

def readNumber : List Token → Reading Nat
  | .number (.integer value) :: rest =>
    if 0 ≤ value then .ok (value.toNat, rest)
    else
      let what := (Number.integer value).description
      .error (.mismatch s!"invalid value: {what}, expected usize")
  | token :: _ => .error (unexpected token "usize")
  | [] => .error .malformed

def readMoreItems : List Token → Reading (List String)
  | .closeBracket :: rest => .ok ([], rest)
  | .comma :: .string item :: rest =>
    (readMoreItems rest).map fun (items, rest) => (String.ofList item :: items, rest)
  | .comma :: token :: _ => .error (unexpected token "a string")
  | _ => .error .malformed

def readItems : List Token → Reading (List String)
  | .closeBracket :: rest => .ok ([], rest)
  | .string item :: rest =>
    (readMoreItems rest).map fun (items, rest) => (String.ofList item :: items, rest)
  | token :: _ => .error (unexpected token "a string")
  | [] => .error .malformed

def readList : List Token → Reading (List String)
  | .openBracket :: rest => readItems rest
  | token :: _ => .error (unexpected token "a sequence")
  | [] => .error .malformed

def readField (draft : Draft) (field : Field) (tokens : List Token) : Reading Draft :=
  match field with
  | .maxStages => (readNumber tokens).map fun (n, rest) => ({ draft with maxStages := n }, rest)
  | .maxNestingDepth =>
    (readNumber tokens).map fun (n, rest) => ({ draft with maxNestingDepth := n }, rest)
  | .maxSuggestions =>
    (readNumber tokens).map fun (n, rest) => ({ draft with maxSuggestions := n }, rest)
  | .passRounds => (readNumber tokens).map fun (n, rest) => ({ draft with passRounds := n }, rest)
  | .disabledPasses =>
    (readList tokens).map fun (items, rest) => ({ draft with disabledPasses := items }, rest)

/-! ## Objects -/

def unknownField (name : String) : Undecodable :=
  let names := String.intercalate ", " (Field.all.map fun field => "`" ++ field.name ++ "`")
  .mismatch s!"unknown field `{name}`, expected one of {names}"

/-- Reads a member whose name is `name` from the colon on. A name that is unknown or used before is
reported before the colon is looked at. -/
def readMember (draft : Draft) (name : String) (tokens : List Token) : Reading Draft :=
  match Field.ofName? name with
  | none => .error (unknownField name)
  | some field =>
    if draft.has field then .error (.mismatch s!"duplicate field `{name}`")
    else match tokens with
      | .colon :: rest => readField draft field rest
      | _ => .error .malformed

def readMoreMembers : Nat → Draft → List Token → Reading Draft
  | _, draft, .closeBrace :: rest => .ok (draft, rest)
  | limit + 1, draft, .comma :: .string name :: rest =>
    (readMember draft (String.ofList name) rest).bind fun (draft, rest) =>
      readMoreMembers limit draft rest
  | _, _, _ => .error .malformed

/-- Reads an object behind its brace. A field can be given once, so there is no sixth member
without a fault. -/
def readMembers (tokens : List Token) : Reading Draft :=
  match tokens with
  | .closeBrace :: rest => .ok ({}, rest)
  | .string name :: rest =>
    (readMember {} (String.ofList name) rest).bind fun (draft, rest) =>
      readMoreMembers Field.all.length draft rest
  | _ => .error .malformed

/-! ## Arrays -/

def readMoreElements (draft : Draft) : List Field → List Token → Reading Draft
  | _, .closeBracket :: rest => .ok (draft, rest)
  | field :: fields, .comma :: rest =>
    (readField draft field rest).bind fun (draft, rest) => readMoreElements draft fields rest
  | _, _ => .error .malformed

def readElements (tokens : List Token) : Reading Draft :=
  match Field.all, tokens with
  | _, .closeBracket :: rest => .ok ({}, rest)
  | field :: fields, tokens =>
    (readField {} field tokens).bind fun (draft, rest) => readMoreElements draft fields rest
  | [], _ => .error .malformed

/-! ## Settings -/

def readSettings : List Token → Reading Draft
  | .openBrace :: rest => readMembers rest
  | .openBracket :: rest => readElements rest
  | token :: _ => .error (unexpected token "struct OpalValidatorConfig")
  | [] => .error .malformed

def decodeJson (source : String) : Except Undecodable Settings :=
  match readSettings (tokens source.toList) with
  | .ok (draft, []) => .ok draft.settings
  | .ok _ => .error .malformed
  | .error fault => .error fault

/-- The settings that a JSON text describes, if they are usable. -/
def ofJson (source : String) : Except Error Settings := do
  let settings ← (decodeJson source).mapError .decoding
  settings.check
  return settings

end OpalRepair.Settings
