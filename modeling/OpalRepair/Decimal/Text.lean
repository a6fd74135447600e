import OpalRepair.Decimal.Shortest

/-!
# Decimals as text

Numbers between a hundred-thousandth and ten to the sixteenth are written positionally and always
with a fraction; all others with a signed exponent.
-/

namespace OpalRepair.Decimal

def zeros (count : Nat) : List Char := List.replicate count '0'

/-- Writes the decimal point behind the digit of `10 ^ 0`; `leading` is the exponent of the first
digit. -/
def positional (digits : List Char) (leading : Int) : List Char :=
  if leading < 0 then "0.".toList ++ zeros (-leading - 1).toNat ++ digits
  else
    let whole := leading.toNat + 1
    let fraction := digits.drop whole
    digits.take whole ++ zeros (whole - digits.length) ++ ['.']
      ++ if fraction.isEmpty then ['0'] else fraction

def scientific (digits : List Char) (leading : Int) : List Char :=
  let fraction := digits.drop 1
  digits.take 1 ++ (if fraction.isEmpty then [] else '.' :: fraction)
    ++ [ 'e', if leading < 0 then '-' else '+'] ++ Nat.toDigits 10 leading.natAbs

def text (decimal : Decimal) : List Char :=
  let written := Nat.toDigits 10 decimal.digits
  let leading := decimal.exponent + (written.length - 1 : Nat)
  let digits := (written.reverse.dropWhile (· == '0')).reverse
  if -5 ≤ leading ∧ leading ≤ 15 then positional digits leading else scientific digits leading

/-- The text of a finite number. Zero has a sign, too. -/
def floatText (x : Float) : String :=
  let sign := if Nat.pow 2 63 ≤ x.toBits.toNat then ['-'] else []
  let dyadic := Dyadic.ofFloat x
  String.ofList (sign ++ if dyadic.significand = 0 then "0.0".toList else dyadic.shortest.text)

end OpalRepair.Decimal
