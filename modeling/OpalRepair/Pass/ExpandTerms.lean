import OpalRepair.Pass.Patch
import OpalRepair.Query.Path
import OpalRepair.Query.Site

/-!
# Expanding term searches

A search `field ~ <a b>` for several terms does not say whether all or any of them have to occur.
The pass asks for any of them, one call a term.
-/

namespace OpalRepair.ExpandTerms

open Query Text

structure Search where
  field : List Char
  terms : List Char
  size : Nat
  deriving DecidableEq, Repr

def search? (text : List Char) : Option Search :=
  (path? text).bind fun field =>
    (skipTo? '~' (text.drop field.length)).bind fun rest =>
      (skipTo? '<' rest).bind fun rest =>
        let terms := rest.takeWhile fun c => c != '<' && c != '>'
        match rest.drop terms.length with
        | '>' :: after => some ⟨field, terms, text.length - after.length⟩
        | _ => none

/-- The terms of a text of which `current` has been read, inside double quotes or outside. Blanks
separate terms outside double quotes, and so does a closing quote; some terms may be empty. -/
def termsFrom (current : List Char) (quoted : Bool) : List Char → List (List Char)
  | [] => [current]
  | c :: rest =>
    if c = '"' then
      if quoted then current :: termsFrom [] false rest else termsFrom current true rest
    else if isBlank c && !quoted then current :: termsFrom [] false rest
    else termsFrom (current ++ [c]) quoted rest

def terms (text : List Char) : List (List Char) :=
  (termsFrom [] false text).filter (!·.isEmpty)

def quote (term : List Char) : List Char :=
  let escape (c : Char) := if c = '\\' ∨ c = '"' then ['\\', c] else [c]
  ['"'] ++ term.flatMap escape ++ ['"']

def containsCall (field term : List Char) : List Char :=
  "contains(".toList ++ field ++ ", ".toList ++ quote term ++ [')']

def expand? (field : List Char) (terms : List (List Char)) : Option (List Char) :=
  if terms.length < 2 then none
  else some (['('] ++ List.intercalate " or ".toList (terms.map (containsCall field)) ++ [')'])

def fragment? (previous : Option Char) (row : List Cell) : Option Fragment :=
  if !(row.head?.any fun cell => isNameStart cell.char) then none
  else
    let site : Site := ⟨0, previous, row⟩
    (search? (text row)).map fun search =>
      { more := search.size - 1
        replacement :=
          if site.inLiteral || site.continuesPath then none
          else expand? search.field (terms search.terms) }

def patch (query : List Char) : Patch :=
  .ofFragments fragment? (cells query)

def rationale : String :=
  "a multi-term <...> search is ambiguous between AND and OR; each term " ++
    "is now an explicit contains() joined with or."

end ExpandTerms

def expandTerms : Pass :=
  .ofPatch "bracket_terms" ExpandTerms.rationale ExpandTerms.patch

end OpalRepair
