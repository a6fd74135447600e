import OpalRepair.Query.Bracket

/-!
# Errors

Why a query is refused, and why settings are. Each cause has its own constructor; the wording is
in the `message` functions. Every kind also takes a cause that is only known by its text.

How a format words its syntax errors is left to its parser: `Undecodable.malformed` has one text for
all of them, and a mismatch is told without the line and column it was found at.
-/

namespace OpalRepair

open Query

inductive Imbalance where
  | openLiteral (literal : Literal) (offset : Nat)
  | unpaired (pair : Pair) (opened closed : Nat)
  | oddQuotes (count : Nat)
  | stated (text : String)
  deriving DecidableEq, Repr

inductive Excess where
  | stages (count limit : Nat)
  | nesting (depth limit : Nat)
  | stated (text : String)
  deriving DecidableEq, Repr

inductive Unusable where
  | zero (field : String)
  | unknownPass (name : String) (known : List String)
  | noRounds
  | repeatedPass (name : String)
  | unknownFormat (extension file : String)
  | stated (text : String)
  deriving DecidableEq, Repr

inductive Unreadable where
  | missing
  | notUtf8
  | stated (text : String)
  deriving DecidableEq, Repr

/-- A text that does not describe settings: it breaks the rules of its format, or it holds
something else. -/
inductive Undecodable where
  | malformed
  | mismatch (text : String)
  | stated (text : String)
  deriving DecidableEq, Repr

inductive Error where
  | structural (cause : Imbalance)
  | complexity (cause : Excess)
  | unknownVerb (verb : String) (stage : Nat) (suggestions : List String)
  | unknownFunction (function : String) (hint : Option String) (suggestions : List String)
  | settings (cause : Unusable)
  | file (cause : Unreadable)
  | decoding (cause : Undecodable)
  | internal (text : String)
  deriving DecidableEq, Repr

/-! ## Wording -/

def Query.Literal.description : Literal → String
  | .double => "double-quoted string"
  | .single => "single-quoted string"
  | .regex => "regex literal"

def Query.Pair.description : Pair → String
  | .parentheses => "parentheses"
  | .brackets => "brackets"
  | .braces => "braces"

def Imbalance.message : Imbalance → String
  | .openLiteral literal offset =>
    s!"Unterminated {literal.description}: '{literal.delimiter}' at offset {offset} is never closed"
  | .unpaired pair opened closed =>
    s!"Unbalanced {pair.description}: {opened} opening '{pair.left}' vs " ++
      s!"{closed} closing '{pair.right}'"
  | .oddQuotes count => s!"Unbalanced double quotes: found {count} unescaped '\"' characters"
  | .stated text => text

def Excess.message : Excess → String
  | .stages count limit =>
    s!"Query has {count} pipeline stages, exceeding the maximum of {limit}"
  | .nesting depth limit => s!"Query nesting depth {depth} exceeds the maximum of {limit}"
  | .stated text => text

def Unusable.message : Unusable → String
  | .zero field => s!"{field} must be at least 1"
  | .unknownPass name known =>
    let names := String.intercalate ", " known
    s!"unknown pass '{name}' in disabled_passes (known: {names})"
  | .noRounds => "pass pipeline needs at least one round"
  | .repeatedPass name => s!"pass '{name}' registered twice"
  | .unknownFormat extension file => s!"unsupported config extension '{extension}' for {file}"
  | .stated text => text

def Unreadable.message : Unreadable → String
  | .missing => "No such file or directory (os error 2)"
  | .notUtf8 => "stream did not contain valid UTF-8"
  | .stated text => text

def Undecodable.message : Undecodable → String
  | .malformed => "malformed text"
  | .mismatch text => text
  | .stated text => text

/-- The question behind an unknown name; nothing if there is nothing to suggest. -/
def didYouMean : List String → String
  | [] => ""
  | suggestions => " Did you mean: " ++ String.intercalate ", " suggestions ++ "?"

namespace Error

def message : Error → String
  | .structural cause => cause.message
  | .complexity cause => cause.message
  | .unknownVerb verb stage suggestions =>
    s!"Unknown verb '{verb}' at stage {stage}.{didYouMean suggestions}"
  | .unknownFunction function hint suggestions =>
    let advice := match hint with
      | some hint => " " ++ hint
      | none => didYouMean suggestions
    s!"Unknown function '{function}'.{advice}"
  | .settings cause => "config error: " ++ cause.message
  | .file cause => "io error: " ++ cause.message
  | .decoding cause => "serialization error: " ++ cause.message
  | .internal text => "internal error: " ++ text

def isVerdict : Error → Bool
  | .structural _ | .complexity _ | .unknownVerb .. | .unknownFunction .. => true
  | .settings _ | .file _ | .decoding _ | .internal _ => false

end Error

end OpalRepair
