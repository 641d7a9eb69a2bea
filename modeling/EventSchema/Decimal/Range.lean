import EventSchema.Decimal.Shortest

namespace EventSchema.Decimal

/-- Half a step above the largest float. From here on numbers round to infinity. -/
def overflow : Ratio := ⟨Nat.pow 2 1024 - Nat.pow 2 970, 1⟩

/-- Whether `digits * 10 ^ exponent` is in range. The power is taken only when it is small. -/
def inRange (digits : Nat) (exponent : Int) : Bool :=
  let places := exponent + digitCount digits
  digits = 0 || places < 0 || (places ≤ 309 && (Ratio.scaled digits 10 exponent).below overflow)

end EventSchema.Decimal
