import OpalRepair.Text.Hex

/-!
# Numbers in JSON

A number without fraction and exponent is an integer if it fits into 64 bits; any other number is
of double precision. Such a number is made of the leading digits that fit into 64 bits, which are
then scaled by a power of ten, so its last digits can be off.
-/

namespace OpalRepair.Json

open Text

inductive Number where
  | integer (value : Int)
  | float (value : Float)

structure Numeral where
  negative : Bool
  whole : List Char
  fraction : List Char
  exponent : Option (Bool × List Char)
  deriving DecidableEq, Repr

/-! ## Reading -/

def digits? (text : List Char) : Option (List Char × List Char) :=
  match text.takeWhile Char.isDigit with
  | [] => none
  | digits => some (digits, text.dropWhile Char.isDigit)

/-- The digits before the point; a zero stands alone. -/
def whole? (text : List Char) : Option (List Char × List Char) :=
  (digits? text).filter fun (digits, _) => digits.length == 1 || digits.head? != some '0'

def fraction? : List Char → Option (List Char × List Char)
  | '.' :: rest => digits? rest
  | text => some ([], text)

/-- The exponent, if there is one: whether it is negative, and its digits. -/
def exponent? : List Char → Option (Option (Bool × List Char) × List Char)
  | c :: rest =>
    if c = 'e' ∨ c = 'E' then
      let unsigned := if rest.head? == some '-' || rest.head? == some '+' then rest.tail else rest
      (digits? unsigned).map fun (digits, rest') =>
        (some (rest.head? == some '-', digits), rest')
    else some (none, c :: rest)
  | [] => some (none, [])

def numeral? (text : List Char) : Option (Numeral × List Char) :=
  let negative := text.head? == some '-'
  (whole? (if negative then text.tail else text)).bind fun (whole, rest) =>
    (fraction? rest).bind fun (fraction, rest) =>
      (exponent? rest).map fun (exponent, rest) => (⟨negative, whole, fraction, exponent⟩, rest)

/-! ## Value -/

/-- Appends digits to a number as long as the result stays below `2 ^ 64`. Gives the number and
the digits left over. -/
def absorb (number : Nat) : List Char → Nat × List Char
  | [] => (number, [])
  | c :: rest =>
    let next := number * 10 + (c.toNat - '0'.toNat)
    if next < 2 ^ 64 then absorb next rest else (number, c :: rest)

def tenTo (exponent : Nat) : Float := Float.ofScientific 1 false exponent

def scaled? (significand : Nat) (exponent : Int) : Option Float :=
  let number := Float.ofNat significand
  if significand = 0 then some number
  else if 0 ≤ exponent then
    if exponent ≤ 308 then
      let product := number * tenTo exponent.toNat
      if product.isInf then none else some product
    else none
  else if -308 ≤ exponent then some (number / tenTo exponent.natAbs)
  else if -616 ≤ exponent then some (number / tenTo 308 / tenTo (exponent.natAbs - 308))
  else some (Float.ofNat 0)

namespace Numeral

def magnitude? (numeral : Numeral) : Option Float :=
  let (leading, excess) := absorb 0 numeral.whole
  let (significand, ignored) := absorb leading numeral.fraction
  let places : Int := excess.length - (numeral.fraction.length - ignored.length : Nat)
  match numeral.exponent with
  | none => scaled? significand places
  | some (negative, digits) =>
    let exponent : Int := (absorb 0 digits).1
    scaled? significand (if negative then places - exponent else places + exponent)

def value? (numeral : Numeral) : Option Number :=
  let (whole, excess) := absorb 0 numeral.whole
  let isWhole := numeral.fraction.isEmpty && numeral.exponent.isNone && excess.isEmpty
  if isWhole && !numeral.negative then some (.integer whole)
  else if isWhole && whole != 0 && whole ≤ Nat.pow 2 63 then some (.integer (-whole))
  else numeral.magnitude?.map fun magnitude =>
    .float (if numeral.negative then -magnitude else magnitude)

end Numeral

end OpalRepair.Json
