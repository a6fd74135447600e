/-!
# Places

Indentation matters in YAML, so every character is read together with the column it stands in.
-/

namespace OpalRepair.Yaml

structure Place where
  char : Char
  column : Nat
  deriving DecidableEq, Repr

def isBreakChar (c : Char) : Bool :=
  c == '\n' || c == '\u0085' || c == '\u2028' || c == '\u2029'

/-- The places of a text that starts in `column`. Any of the usual line ends becomes a line feed. -/
def placesFrom (column : Nat) : List Char → List Place
  | [] => []
  | '\r' :: '\n' :: rest => ⟨'\n', column⟩ :: placesFrom 0 rest
  | c :: rest =>
    if c = '\r' ∨ c = '\u0085' then ⟨'\n', column⟩ :: placesFrom 0 rest
    else ⟨c, column⟩ :: placesFrom (if isBreakChar c then 0 else column + 1) rest

def places (text : List Char) : List Place := placesFrom 0 text

def isAllowed (c : Char) : Bool :=
  c == '\t' || c == '\n' || c == '\r' || c == '\u0085' || (' ' ≤ c && c ≤ '~')
    || ('\u00a0' ≤ c && c != '\ufffe' && c != '\uffff')

namespace Place

def isBreak (place : Place) : Bool := isBreakChar place.char

def isBlank (place : Place) : Bool := place.char == ' ' || place.char == '\t'

def isSpace (place : Place) : Bool := place.isBlank || place.isBreak

/-- Whether a byte order mark starts a line. It takes up a column there like any character. -/
def isMark (place : Place) : Bool := place.char == '\ufeff' && place.column == 0

end Place

def startsBlank (text : List Place) : Bool :=
  text.head?.all Place.isSpace

def startsWith (c : Char) (text : List Place) : Bool :=
  text.head?.any (·.char == c)

/-- Whether a text starts with an indicator: `c` with a blank behind it. -/
def startsIndicator (c : Char) (text : List Place) : Bool :=
  startsWith c text && startsBlank text.tail

def startsMarker (mark : String) (text : List Place) : Bool :=
  text.head?.any (·.column == 0) && mark.toList.isPrefixOf (text.map Place.char)
    && startsBlank (text.drop mark.length)

def startsDocumentMarker (text : List Place) : Bool :=
  startsMarker "---" text || startsMarker "..." text

/-! ## Gaps -/

structure Gap where
  newLine : Bool
  rest : List Place
  deriving DecidableEq, Repr

/-- Skips blanks, line breaks, comments and byte order marks. Tabs are skipped where `tabs` is set;
behind a line break only inside brackets. -/
def skipGap (inFlow : Bool) : (tabs newLine comment : Bool) → List Place → Gap
  | _, newLine, _, [] => ⟨newLine, []⟩
  | tabs, newLine, comment, place :: rest =>
    if place.isBreak then skipGap inFlow inFlow true false rest
    else if comment then skipGap inFlow tabs newLine true rest
    else if place.isMark || place.char == ' ' || (place.char == '\t' && tabs) then
      skipGap inFlow tabs newLine false rest
    else if place.char = '#' then skipGap inFlow tabs newLine true rest
    else ⟨newLine, place :: rest⟩

def gapAfterToken (text : List Place) : Gap := skipGap false true false false text

def gapBeforeKey (text : List Place) : Gap := skipGap false false false false text

def gapInFlow (text : List Place) : Gap := skipGap true true false false text

end OpalRepair.Yaml
