/-!
# Shortest decimals

The decimal with the fewest digits that a double-precision number is read back from. Among those
with as few digits the nearest is taken, and the even one if two are equally near.
-/

namespace OpalRepair

structure Decimal where
  digits : Nat
  exponent : Int
  deriving DecidableEq, Repr

namespace Decimal

/-- `significand * 2 ^ exponent`. Below a power of two the next number is only half as far away as
above it. -/
structure Dyadic where
  significand : Nat
  exponent : Int
  narrowBelow : Bool
  deriving DecidableEq, Repr

def Dyadic.ofFloat (x : Float) : Dyadic :=
  let bits := x.toBits.toNat
  let fraction : Nat := bits % Nat.pow 2 52
  let biased : Nat := bits / Nat.pow 2 52 % Nat.pow 2 11
  if biased = 0 then ⟨fraction, -1074, false⟩
  else ⟨Nat.pow 2 52 + fraction, (biased : Int) - 1075, fraction == 0 && biased != 1⟩

def digitCount (n : Nat) : Nat := (Nat.toDigits 10 n).length

def magnitude (numerator denominator : Nat) : Int :=
  if denominator ≤ numerator then digitCount (numerator / denominator) - 1
  else -(digitCount ((denominator - 1) / numerator) : Int)

namespace Dyadic

def quarters (x : Dyadic) (gridExponent : Int) (count : Nat) : Nat :=
  count * Nat.pow 2 (x.exponent - 2).toNat * Nat.pow 10 (-gridExponent).toNat

def gridStep (x : Dyadic) (gridExponent : Int) : Nat :=
  Nat.pow 10 gridExponent.toNat * Nat.pow 2 (2 - x.exponent).toNat

/-- Whether the grid point `point` is read back as `x`. Ends of the interval go to even. -/
def reads (x : Dyadic) (gridExponent : Int) (point : Nat) : Bool :=
  let low := x.quarters gridExponent (4 * x.significand - if x.narrowBelow then 1 else 2)
  let high := x.quarters gridExponent (4 * x.significand + 2)
  let value := point * x.gridStep gridExponent
  if x.significand % 2 = 0 then low ≤ value && value ≤ high else low < value && value < high

def onGrid? (x : Dyadic) (gridExponent : Int) : Option Decimal :=
  let value := x.quarters gridExponent (4 * x.significand)
  let step := x.gridStep gridExponent
  let below := value / step
  let fromBelow := value - below * step
  let fromAbove := (below + 1) * step - value
  let belowIsBetter := fromBelow < fromAbove || (fromBelow == fromAbove && below % 2 == 0)
  match x.reads gridExponent below, x.reads gridExponent (below + 1) with
  | true, true => some ⟨if belowIsBetter then below else below + 1, gridExponent⟩
  | true, false => some ⟨below, gridExponent⟩
  | false, true => some ⟨below + 1, gridExponent⟩
  | false, false => none

/-- The shortest decimal of a positive number. Seventeen digits always suffice. -/
def shortest (x : Dyadic) : Decimal :=
  let magnitude :=
    magnitude (x.significand * Nat.pow 2 x.exponent.toNat) (Nat.pow 2 (-x.exponent).toNat)
  ((List.range 17).findSome? fun (more : Nat) => x.onGrid? (magnitude - more)).getD ⟨0, 0⟩

end Dyadic

end Decimal

end OpalRepair
