import OpalRepair.Text.Printable

/-!
# Quoted text

Text between double quotes as it is shown in messages. Quotes and backslashes get a backslash, and
what cannot be shown is written by its code point.
-/

namespace OpalRepair.Text

def escaped (c : Char) : List Char :=
  if c = '\x00' then ['\\', '0']
  else if c = '\t' then ['\\', 't']
  else if c = '\r' then ['\\', 'r']
  else if c = '\n' then ['\\', 'n']
  else if c = '"' ∨ c = '\\' then ['\\', c]
  else if standsAlone c then [c]
  else ['\\', 'u', '\x7b'] ++ Nat.toDigits 16 c.toNat ++ ['\x7d']

def quoted (text : List Char) : String :=
  String.ofList (['"'] ++ text.flatMap escaped ++ ['"'])

end OpalRepair.Text
