import OpalRepair.Query.Cell
import OpalRepair.Text.Word

/-!
# The scanner

One pass over the characters of a query assigns their roles. A backslash takes away the meaning
of the character behind it, inside literals and outside. A `/` opens a regex where an operand
may stand and divides everywhere else; what stands there is judged by the last character that is
neither blank nor a backslash.
-/

namespace OpalRepair.Query

open Text

inductive Literal where
  | double
  | single
  | regex
  deriving DecidableEq, Repr

def Literal.delimiter : Literal → Char
  | .double => '"'
  | .single => '\''
  | .regex => '/'

/-- What the scanner is in the middle of. In `flags more` the next character is a regex flag and
`more` flags follow it. -/
inductive Mode where
  | code
  | inside (literal : Literal)
  | flags (more : Nat)
  deriving DecidableEq, Repr

/-- The scanner between two characters. `last` is the last significant character. -/
structure Scanner where
  mode : Mode := .code
  escaped : Bool := false
  last : Option Char := none
  deriving DecidableEq, Repr

/-- A regex may stand at the start and behind an operator, a parenthesis or a comma. -/
def opensRegex (last : Option Char) : Bool :=
  last.all fun c => c == '~' || c == '=' || c == '(' || c == ','

def Literal.openedBy? (last : Option Char) (c : Char) : Option Literal :=
  if c = '"' then some .double
  else if c = '\'' then some .single
  else if c = '/' ∧ opensRegex last then some .regex
  else none

def isRegexFlag (c : Char) : Bool :=
  c == 'i' || c == 'm' || c == 's' || c == 'U'

/-- The number of flags behind a regex: the name that follows it, if that is made of flags only. -/
def regexFlagCount (rest : List Char) : Nat :=
  let name := rest.takeWhile isNameChar
  if name.all isRegexFlag then name.length else 0

def Mode.beforeFlags : Nat → Mode
  | 0 => .code
  | more + 1 => .flags more

def Literal.modeAfter (literal : Literal) (rest : List Char) : Mode :=
  match literal with
  | .regex => .beforeFlags (regexFlagCount rest)
  | .double | .single => .code

def significant (last : Option Char) (c : Char) : Option Char :=
  if isBlank c then last else some c

namespace Scanner

def step (s : Scanner) (c : Char) (rest : List Char) : Role × Scanner :=
  match s.mode with
  | .flags more => (.flag, { s with mode := .beforeFlags more })
  | .code =>
    if s.escaped then (.code, { s with escaped := false, last := significant s.last c })
    else if c = '\\' then (.code, { s with escaped := true })
    else match Literal.openedBy? s.last c with
      | some literal => (.opening, { s with mode := .inside literal, last := some c })
      | none =>
        (if c = '|' then .separator else .code, { s with last := significant s.last c })
  | .inside literal =>
    if s.escaped then (.content, { s with escaped := false, last := significant s.last c })
    else if c = '\\' then (.content, { s with escaped := true })
    else if c = literal.delimiter then
      (.closing, { s with mode := literal.modeAfter rest, last := some c })
    else (.content, { s with last := significant s.last c })

def paint (s : Scanner) : List Char → List Cell
  | [] => []
  | c :: rest => ⟨c, (s.step c rest).1⟩ :: (s.step c rest).2.paint rest

def finish (s : Scanner) : List Char → Scanner
  | [] => s
  | c :: rest => (s.step c rest).2.finish rest

@[simp] theorem text_paint (s : Scanner) (query : List Char) : text (s.paint query) = query := by
  induction query generalizing s with
  | nil => rfl
  | cons c rest ih => simp [paint, ih]

end Scanner

def cells (query : List Char) : List Cell :=
  Scanner.paint {} query

@[simp] theorem text_cells (query : List Char) : text (cells query) = query :=
  Scanner.text_paint _ _

end OpalRepair.Query
