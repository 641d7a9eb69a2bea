/-!
The fewest decimal digits that read back as a given binary floating-point number. A finite number
is `mantissa * 2 ^ exponent`; the reals that round to it form an interval, closed when the mantissa
is even. The grids of multiples of a power of ten are tried from coarse to fine, and the first with
a point in that interval gives the digits.
-/
namespace EventSchema.Decimal

structure Binary where
  mantissa : Nat
  exponent : Int
  /-- The number below is half as far away as the number above. -/
  narrowBelow : Bool
  deriving DecidableEq, Repr

def Binary.ofBits (bits : UInt64) : Binary :=
  let fraction : Nat := bits.toNat % Nat.pow 2 52
  let field : Nat := bits.toNat / Nat.pow 2 52 % Nat.pow 2 11
  if field = 0 then ⟨fraction, -1074, false⟩
  else ⟨Nat.pow 2 52 + fraction, (field : Int) - 1075, fraction = 0 && field > 1⟩

structure Ratio where
  numerator : Nat
  denominator : Nat
  deriving DecidableEq, Repr

def Ratio.below (left right : Ratio) : Bool :=
  left.numerator * right.denominator < right.numerator * left.denominator

def Ratio.scaled (value base : Nat) : Int → Ratio
  | .ofNat exponent => ⟨value * Nat.pow base exponent, 1⟩
  | .negSucc exponent => ⟨value, Nat.pow base (exponent + 1)⟩

structure Interval where
  low : Ratio
  high : Ratio
  closed : Bool

def Binary.value (number : Binary) : Ratio := .scaled number.mantissa 2 number.exponent

def Binary.interval (number : Binary) : Interval where
  low := .scaled (4 * number.mantissa - if number.narrowBelow then 1 else 2) 2 (number.exponent - 2)
  high := .scaled (4 * number.mantissa + 2) 2 (number.exponent - 2)
  closed := number.mantissa % 2 = 0

def Interval.holds (interval : Interval) (point : Ratio) : Bool :=
  if interval.closed then !point.below interval.low && !interval.high.below point
  else interval.low.below point && point.below interval.high

structure Digits where
  digits : Nat
  exponent : Int
  deriving DecidableEq, Repr

/-- The point of the grid of `10 ^ exponent` that lies in the interval and nearest to the value; of
two equally near the even one. -/
def Binary.onGrid (number : Binary) (exponent : Int) : Option Digits :=
  let value := number.value
  let unit := Ratio.scaled 1 10 exponent
  let down := value.numerator * unit.denominator / (value.denominator * unit.numerator)
  let point (digits : Nat) : Ratio := .scaled digits 10 exponent
  let middle : Ratio := ⟨(2 * down + 1) * unit.numerator, 2 * unit.denominator⟩
  let hits (digits : Nat) : Bool := number.interval.holds (point digits)
  let upward := middle.below value || (!value.below middle && down % 2 = 1)
  match hits down, hits (down + 1) with
  | true, true => some ⟨if upward then down + 1 else down, exponent⟩
  | true, false => some ⟨down, exponent⟩
  | false, true => some ⟨down + 1, exponent⟩
  | false, false => none

def digitCount (value : Nat) : Nat :=
  if value < 10 then 1 else digitCount (value / 10) + 1

/-- Tries `attempts` grids, each ten times finer than the one before. -/
def Binary.search (number : Binary) : (attempts : Nat) → (exponent : Int) → Digits
  | 0, exponent => ⟨number.mantissa, exponent⟩
  | attempts + 1, exponent =>
    (number.onGrid exponent).getD (number.search attempts (exponent - 1))

/-- Seventeen digits always suffice; the first grid tried has at most one digit left of the value's
first. -/
def Binary.shortest (number : Binary) : Digits :=
  let value := number.value
  number.search 21 ((digitCount value.numerator : Int) - digitCount value.denominator + 1)

end EventSchema.Decimal
