import OpalRepair.Pass.Patch
import OpalRepair.Query.Site

/-!
# Quoting attribute keys

Attribute keys contain dots, and a dot selects a field. The pass quotes the keys of well-known
attributes behind the columns that hold attributes.
-/

namespace OpalRepair.QuoteKey

open Query Text

def parents : List String :=
  ["resource_attributes", "span_attributes", "attributes", "fields", "labels"]

def families : List String :=
  ["k8s", "service", "host", "cloud", "container", "deployment", "process", "os", "telemetry",
   "http", "net", "network", "db", "rpc", "messaging", "faas", "aws", "gcp", "azure", "url",
   "server", "client", "user_agent", "exception", "code", "thread", "otel", "log", "peer",
   "enduser", "device", "session"]

/-- Names and the dots between them: the longest run in which each dot has a name behind it. -/
def dotted : List Char → List Char
  | [] => []
  | c :: rest =>
    if isNameChar c || (c == '.' && rest.head?.any isNameChar) then c :: dotted rest else []

/-- The column and the key of an attribute at the start of a text. The key has at least two
segments. -/
def attribute? (text : List Char) : Option (List Char × List Char) :=
  let parent := text.takeWhile isNameChar
  if !parents.contains (String.ofList parent) then none
  else match text.drop parent.length with
    | '.' :: rest =>
      let family := rest.takeWhile isNameChar
      let segments := dotted (rest.drop family.length)
      if families.contains (String.ofList family) && !segments.isEmpty then
        some (parent, family ++ segments)
      else none
    | _ => none

def fragment? (previous : Option Char) (row : List Cell) : Option Fragment :=
  let site : Site := ⟨0, previous, row⟩
  if !site.startsWord then none
  else (attribute? (text row)).map fun (parent, key) =>
    let more := parent.length + key.length
    let called := (skipTo? '(' (text (row.drop (more + 1)))).isSome
    { more
      replacement :=
        if site.inLiteral || site.continuesPath || called then none
        else some (parent ++ ".\"".toList ++ key ++ ['"']) }

def patch (query : List Char) : Patch :=
  .ofFragments fragment? (cells query)

def rationale : String :=
  "OPAL reads every dot as a nested field access, so attribute keys that contain dots must be " ++
    "quoted."

end QuoteKey

def quoteKey : Pass :=
  .ofPatch "nested_field" QuoteKey.rationale QuoteKey.patch

end OpalRepair
