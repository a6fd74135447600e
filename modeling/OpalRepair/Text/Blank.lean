import OpalRepair.Text.Ranges

/-!
# Blank characters

The characters of the Unicode property `White_Space`, and trimming by them.
-/

namespace OpalRepair.Text

def blanks : Ranges :=
  [(0x85, 0x85), (0xA0, 0xA0), (0x1680, 0x1680), (0x2000, 0x200A), (0x2028, 0x2029),
   (0x202F, 0x202F), (0x205F, 0x205F), (0x3000, 0x3000)]

def isBlank (c : Char) : Bool :=
  if c.toNat < 0x80 then c == ' ' || (0x9 ≤ c.toNat && c.toNat ≤ 0xD) else blanks.contains c

/-! ## Trimming -/

def dropTrailing {α : Type} (p : α → Bool) (xs : List α) : List α :=
  xs.foldr (fun x rest => if rest.isEmpty && p x then [] else x :: rest) []

def trimStart (text : List Char) : List Char :=
  text.dropWhile isBlank

def trimEnd (text : List Char) : List Char :=
  dropTrailing isBlank text

def trim (text : List Char) : List Char :=
  trimEnd (trimStart text)

end OpalRepair.Text
