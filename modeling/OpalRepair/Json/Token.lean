import OpalRepair.Decimal.Text
import OpalRepair.Json.Number
import OpalRepair.Text.Quoted

/-!
# Tokens of JSON

A text is cut into tokens from left to right. Where that fails a last token marks the place, so
that what stands before it can still be judged.
-/

namespace OpalRepair.Json

open Text

inductive Token where
  | null
  | bool (value : Bool)
  | number (value : Number)
  | string (value : List Char)
  | openBracket
  | closeBracket
  | openBrace
  | closeBrace
  | comma
  | colon
  | malformed

/-! ## Strings -/

def shortEscape? (c : Char) : Option Char :=
  [('"', '"'), ('\\', '\\'), ('/', '/'), ('b', '\x08'), ('f', '\x0c'), ('n', '\n'), ('r', '\r'),
    ('t', '\t')].lookup c

def isHighSurrogate (code : Nat) : Bool := 0xD800 ≤ code && code < 0xDC00

def isLowSurrogate (code : Nat) : Bool := 0xDC00 ≤ code && code < 0xE000

/-- Reads a string behind its opening quote. Characters beyond the first plane are escaped as pairs
of surrogates. -/
def stringBody? : List Char → Option (List Char × List Char)
  | [] => none
  | '"' :: rest => some ([], rest)
  | '\\' :: 'u' :: a :: b :: c :: d :: rest =>
    (valueInBase? 16 [a, b, c, d]).bind fun code =>
      if isHighSurrogate code then
        match rest with
        | '\\' :: 'u' :: e :: f :: g :: h :: rest =>
          ((valueInBase? 16 [e, f, g, h]).filter isLowSurrogate).bind fun low =>
            (charOfCode? (0x10000 + (code - 0xD800) * 0x400 + (low - 0xDC00))).bind fun char =>
              (stringBody? rest).map fun (text, rest) => (char :: text, rest)
        | _ => none
      else
        (charOfCode? code).bind fun char =>
          (stringBody? rest).map fun (text, rest) => (char :: text, rest)
  | '\\' :: c :: rest =>
    (shortEscape? c).bind fun char =>
      (stringBody? rest).map fun (text, rest) => (char :: text, rest)
  | c :: rest =>
    if c < ' ' ∨ c = '\\' then none
    else (stringBody? rest).map fun (text, rest) => (c :: text, rest)

/-! ## Tokens -/

def isBlank (c : Char) : Bool := c == ' ' || c == '\n' || c == '\t' || c == '\r'

def dropWord? (word : String) (text : List Char) : Option (List Char) :=
  if word.toList.isPrefixOf text then some (text.drop word.length) else none

def punctuation? (c : Char) : Option Token :=
  match c with
  | '[' => some .openBracket
  | ']' => some .closeBracket
  | '\x7b' => some .openBrace
  | '\x7d' => some .closeBrace
  | ',' => some .comma
  | ':' => some .colon
  | _ => none

def tokenAt? (c : Char) (rest : List Char) : Option (Token × List Char) :=
  match punctuation? c with
  | some token => some (token, rest)
  | none =>
    if c = '"' then (stringBody? rest).map fun (value, rest) => (.string value, rest)
    else if c = '-' ∨ c.isDigit then
      (numeral? (c :: rest)).bind fun (numeral, rest) =>
        numeral.value?.map fun value => (.number value, rest)
    else ((dropWord? "null" (c :: rest)).map (Token.null, ·))
      <|> ((dropWord? "true" (c :: rest)).map (Token.bool true, ·))
      <|> ((dropWord? "false" (c :: rest)).map (Token.bool false, ·))

def tokensFrom : Nat → List Char → List Token
  | _, [] => []
  | skip + 1, _ :: rest => tokensFrom skip rest
  | 0, c :: rest =>
    if isBlank c then tokensFrom 0 rest
    else match tokenAt? c rest with
      | none => [.malformed]
      | some (token, rest') => token :: tokensFrom (rest.length - rest'.length) rest

def tokens (text : List Char) : List Token := tokensFrom 0 text

/-! ## Descriptions -/

def Number.description : Number → String
  | .integer value => "integer `" ++ toString value ++ "`"
  | .float value => "floating point `" ++ Decimal.floatText value ++ "`"

def Token.description? : Token → Option String
  | .null => some "null"
  | .bool value => some ("boolean `" ++ toString value ++ "`")
  | .number value => some value.description
  | .string value => some ("string " ++ quoted value)
  | .openBracket => some "sequence"
  | .openBrace => some "map"
  | .closeBracket | .closeBrace | .comma | .colon | .malformed => none

end OpalRepair.Json
