import EventSchema.Decimal.Shortest
import EventSchema.Json.Value
import EventSchema.Text.Digit
/-!
Epochs: instants counted from 1970. A number counts as one from the year 2000 in seconds up to the
last representable instant in milliseconds.
-/
namespace EventSchema.Format

/-- The year 2000 in seconds. -/
def epochLowerBound : Int := 946684800

/-- The last millisecond of the last representable year. -/
def epochUpperBound : Int := 8210266876799999

def isEpoch (value : Int) : Bool := epochLowerBound ≤ value && value ≤ epochUpperBound

/-- A string of ASCII digits, white space not included. -/
def isEpochText (text : List Char) : Bool :=
  !text.isEmpty && text.all Text.isDigit && isEpoch (Text.toNat text)

/-- A fraction is cut off. -/
def isEpochReal (value : Float) : Bool :=
  let magnitude := (Decimal.Binary.ofBits value.toBits).value
  value.toBits < 0x8000000000000000 && isEpoch (magnitude.numerator / magnitude.denominator : Nat)

def isEpochNumber : Json.Number → Bool
  | .whole value => isEpoch value
  | .real value => isEpochReal value

end EventSchema.Format
