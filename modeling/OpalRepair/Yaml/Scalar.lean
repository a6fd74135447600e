import OpalRepair.Text.Hex
import OpalRepair.Yaml.Place

/-!
# Scalars of YAML

Scalars are plain or stand in single or double quotes. A scalar may go over several lines; a line
break in it counts as a space and each empty line as a line feed.
-/

namespace OpalRepair.Yaml

open Text

structure Scalar where
  text : List Char
  plain : Bool
  deriving DecidableEq, Repr

inductive Pending where
  | nothing
  | blanks (text : List Char)
  | breaks (first : Option Char) (more : List Char)
  deriving DecidableEq, Repr

namespace Pending

def addBlank (c : Char) : Pending → Pending
  | .nothing => .blanks [c]
  | .blanks text => .blanks (text ++ [c])
  | .breaks first more => .breaks first more

def addBreak (c : Char) : Pending → Pending
  | .breaks first more => .breaks first (more ++ [c])
  | .nothing | .blanks _ => .breaks (some c) []

def isBreaks : Pending → Bool
  | .breaks _ _ => true
  | .nothing | .blanks _ => false

def folded : Pending → List Char
  | .nothing => []
  | .blanks text => text
  | .breaks (some '\n') [] => [' ']
  | .breaks (some '\n') more => more
  | .breaks first more => first.toList ++ more

end Pending

/-! ## Plain scalars -/

def isFlowIndicator (c : Char) : Bool :=
  c == ',' || c == '[' || c == ']' || c == '\x7b' || c == '\x7d'

def isIndicator (c : Char) : Bool :=
  "-?:#&*!|>'\"%@`".toList.contains c || isFlowIndicator c

def startsPlain (inFlow : Bool) : List Place → Bool
  | [] => false
  | place :: rest =>
    !place.isSpace && (!isIndicator place.char
      || (!startsBlank rest
        && (place.char == '-' || (!inFlow && (place.char == '?' || place.char == ':')))))

/-- Whether a plain scalar ends before `place`. Behind a line break it also ends at a line that is
not indented enough. -/
def endsPlain (inFlow : Bool) (indent : Nat) (pending : Pending) (place : Place)
    (rest : List Place) : Bool :=
  (place.char == ':' && startsBlank rest)
    || (inFlow && isFlowIndicator place.char)
    || (pending != .nothing && place.char == '#')
    || (pending.isBreaks && ((!inFlow && place.column < indent)
      || startsDocumentMarker (place :: rest)))

/-- Reads a plain scalar: its text, whether line breaks were passed at its end, and what follows. -/
def readPlain? (inFlow : Bool) (indent : Nat) :
    Pending → List Place → Option (List Char × Gap)
  | pending, [] => some ([], ⟨pending.isBreaks, []⟩)
  | pending, place :: rest =>
    if place.isBreak then readPlain? inFlow indent (pending.addBreak place.char) rest
    else if place.isBlank then
      if place.char = '\t' ∧ pending.isBreaks ∧ place.column < indent then none
      else readPlain? inFlow indent (pending.addBlank place.char) rest
    else if endsPlain inFlow indent pending place rest then
      some ([], ⟨pending.isBreaks, place :: rest⟩)
    else if inFlow && place.char == ':' && rest.head?.any (fun next =>
        isFlowIndicator next.char || next.char == '?') then none
    else (readPlain? inFlow indent .nothing rest).map fun (text, gap) =>
      (pending.folded ++ place.char :: text, gap)

/-! ## Quoted scalars -/

def letterEscape? (c : Char) : Option Char :=
  [('0', '\x00'), ('a', '\x07'), ('b', '\x08'), ('t', '\t'), ('\t', '\t'), ('n', '\n'),
    ('v', '\x0b'), ('f', '\x0c'), ('r', '\r'), ('e', '\x1b'), (' ', ' '), ('"', '"'), ('/', '/'),
    ('\\', '\\'), ('N', '\u0085'), ('_', '\u00a0'), ('L', '\u2028'), ('P', '\u2029')].lookup c

def codeEscape? (c : Char) : Option Nat :=
  [('x', 2), ('u', 4), ('U', 8)].lookup c

def escapedCode? (digits : Nat) (text : List Place) : Option Char :=
  let code := (text.take digits).map Place.char
  if code.length = digits then (valueInBase? 16 code).bind charOfCode? else none

def readQuoted? (quote : Char) : Nat → Pending → List Place → Option (List Char × List Place)
  | _, _, [] => none
  | skip + 1, pending, _ :: rest => readQuoted? quote skip pending rest
  | 0, pending, place :: rest =>
    let emit (c : Char) (tail : Option (List Char × List Place)) :=
      tail.map fun (text, rest) => (pending.folded ++ c :: text, rest)
    if startsDocumentMarker (place :: rest) then none
    else if place.isBreak then readQuoted? quote 0 (pending.addBreak place.char) rest
    else if place.isBlank then readQuoted? quote 0 (pending.addBlank place.char) rest
    else if place.char = quote then
      if quote = '\'' ∧ startsWith quote rest then
        emit quote (readQuoted? quote 1 .nothing rest)
      else some (pending.folded, rest)
    else if quote = '"' ∧ place.char = '\\' then
      match rest with
      | [] => none
      | letter :: rest' =>
        if letter.isBreak then
          (readQuoted? quote 1 (.breaks none []) rest).map fun (text, rest) =>
            (pending.folded ++ text, rest)
        else match letterEscape? letter.char, codeEscape? letter.char with
          | some c, _ => emit c (readQuoted? quote 1 .nothing rest)
          | none, some digits =>
            (escapedCode? digits rest').bind fun c =>
              emit c (readQuoted? quote (digits + 1) .nothing rest)
          | none, none => none
    else emit place.char (readQuoted? quote 0 .nothing rest)

/-! ## Scalars -/

/-- Reads a scalar and the gap behind it. A plain scalar of a block ends at a line that is not
indented by `indent`. -/
def scalar? (inFlow : Bool) (indent : Nat) (text : List Place) : Option (Scalar × Gap) :=
  match text with
  | [] => none
  | place :: rest =>
    if place.char = '"' ∨ place.char = '\'' then
      (readQuoted? place.char 0 .nothing rest).map fun (content, rest) =>
        (⟨content, false⟩, skipGap inFlow true false false rest)
    else if startsPlain inFlow text then
      (readPlain? inFlow indent .nothing text).map fun (content, gap) =>
        (⟨content, true⟩,
          skipGap inFlow (inFlow || !gap.newLine) gap.newLine false gap.rest)
    else none

end OpalRepair.Yaml
