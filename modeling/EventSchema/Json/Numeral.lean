import EventSchema.Json.Value
import EventSchema.Text.Digit
/-!
Numerals of JSON. Whole numbers that fit in 64 bits are exact. Any other numeral keeps its leading
digits as far as they fit in 64 bits and is scaled by a power of ten in floating point; a numeral
beyond the largest float is refused.
-/
namespace EventSchema.Json

structure Numeral where
  negative : Bool
  whole : List Char
  fraction : Option (List Char)
  /-- Sign and digits of the exponent. -/
  exponent : Option (Bool × List Char)

def digitsThen (chars : List Char) : List Char × List Char :=
  (chars.takeWhile Text.isDigit, chars.dropWhile Text.isDigit)

def exponent? : List Char → Option (Option (Bool × List Char))
  | [] => some none
  | mark :: rest =>
    if mark = 'e' || mark = 'E' then
      let (negative, digits) :=
        match rest with
        | '+' :: digits => (false, digits)
        | '-' :: digits => (true, digits)
        | digits => (false, digits)
      if !digits.isEmpty && digits.all Text.isDigit then some (some (negative, digits)) else none
    else none

/-- Splits a numeral into its parts. The whole part has no leading zero unless it is zero. -/
def Numeral.ofChars? (chars : List Char) : Option Numeral := do
  let (negative, unsigned) :=
    match chars with
    | '-' :: rest => (true, rest)
    | rest => (false, rest)
  let (whole, afterWhole) := digitsThen unsigned
  guard (!whole.isEmpty && !(whole.length > 1 && whole.head? = some '0'))
  match afterWhole with
  | '.' :: rest =>
    let (fraction, afterFraction) := digitsThen rest
    guard !fraction.isEmpty
    return ⟨negative, whole, some fraction, ← exponent? afterFraction⟩
  | rest => return ⟨negative, whole, none, ← exponent? rest⟩

/-- Digits appended to `significand` while it stays below `2 ^ 64`, and how many were left over. -/
def accumulate (significand : Nat) : List Char → Nat × List Char
  | [] => (significand, [])
  | char :: rest =>
    let next := significand * 10 + (Text.digit? char).getD 0
    if next < Nat.pow 2 64 then accumulate next rest else (significand, char :: rest)

/-- Multiplies by ten to the power given, in steps of at most `10 ^ 308`. Too large a product has
no value, and zero divides away. -/
def scale (value : Float) (exponent : Int) : Option Float :=
  match exponent with
  | .ofNat power =>
    if power ≤ 308 then
      let product := value * Float.ofScientific 1 false power
      if product.isInf then none else some product
    else if value == 0.0 then some value else none
  | .negSucc below =>
    let power := below + 1
    if power ≤ 308 then some (value / Float.ofScientific 1 false power)
    else
      let once := value / Float.ofScientific 1 false 308
      if power ≤ 616 then some (once / Float.ofScientific 1 false (power - 308))
      else some (once / Float.ofScientific 1 false 308)

def signed (negative : Bool) (value : Float) : Float := if negative then -value else value

def Numeral.real? (numeral : Numeral) : Option Float := do
  let (whole, wholeLeft) := accumulate 0 numeral.whole
  let (significand, point) :=
    match numeral.fraction with
    | none => (whole, (wholeLeft.length : Int))
    | some fraction =>
      let (significand, fractionLeft) := accumulate whole fraction
      (significand, (wholeLeft.length : Int) - (fraction.length - fractionLeft.length : Nat))
  let value := significand.toFloat
  match numeral.exponent with
  | none => signed numeral.negative <$> scale value point
  | some (negative, digits) =>
    let exponent := Text.toNat digits
    if exponent ≤ Nat.pow 2 31 - 1 then
      let power : Int := if negative then -exponent else exponent
      signed numeral.negative <$> scale value (point + power)
    else if significand ≠ 0 && !negative then none
    else some (signed numeral.negative 0.0)

def Numeral.number? (numeral : Numeral) : Option Number :=
  match numeral.fraction, numeral.exponent with
  | none, none =>
    let value := Text.toNat numeral.whole
    if !numeral.negative && value < Nat.pow 2 64 then some (.whole value)
    else if numeral.negative && value ≠ 0 && value ≤ Nat.pow 2 63 then some (.whole (-value))
    else .real <$> numeral.real?
  | _, _ => .real <$> numeral.real?

end EventSchema.Json
