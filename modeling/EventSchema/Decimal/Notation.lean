import EventSchema.Decimal.Shortest
import EventSchema.Text.Digit
/-!
How floating-point numbers are written: the shortest digits, positional from `1e-5` up to `1e16`
and with an exponent outside, and always with a mark that tells them from whole numbers.
-/
namespace EventSchema.Decimal

/-- Writes `digits` with the point after the first `point` of them. -/
def positional (digits : List Char) (point : Int) : List Char :=
  if point ≤ 0 then '0' :: '.' :: (List.replicate point.natAbs '0' ++ digits)
  else if digits.length ≤ point.toNat then
    digits ++ List.replicate (point.toNat - digits.length) '0' ++ ['.', '0']
  else digits.take point.toNat ++ '.' :: digits.drop point.toNat

/-- Writes `digits` with the point after the first, and an exponent with its sign. -/
def scientific (digits : List Char) (point : Int) : List Char :=
  let sign := if point < 1 then '-' else '+'
  let mark := 'e' :: sign :: Text.ofNat (point - 1).natAbs
  match digits with
  | first :: second :: rest => first :: '.' :: second :: rest ++ mark
  | _ => digits ++ mark

def Digits.text (number : Digits) : List Char :=
  let digits := Text.ofNat number.digits
  let point := (digits.length : Int) + number.exponent
  if -5 < point ∧ point ≤ 16 then positional digits point else scientific digits point

def isNegative (value : Float) : Bool := value.toBits ≥ 0x8000000000000000

def finiteText (value : Float) : String :=
  let sign := if isNegative value then ['-'] else []
  let magnitude := Binary.ofBits value.toBits
  let text := if magnitude.mantissa = 0 then ['0', '.', '0'] else magnitude.shortest.text
  String.ofList (sign ++ text)

/-- Two places after the point, the nearest hundredth, a tie to the even one. -/
def hundredths (value : Float) : String :=
  let sign := if isNegative value then ['-'] else []
  let magnitude := (Binary.ofBits value.toBits).value
  let down := magnitude.numerator * 100 / magnitude.denominator
  let twiceRest := magnitude.numerator * 100 % magnitude.denominator * 2
  let up := magnitude.denominator < twiceRest || (twiceRest = magnitude.denominator && down % 2 = 1)
  let count := if up then down + 1 else down
  String.ofList (sign ++ Text.ofNat (count / 100) ++
    ['.', Text.digitChar (count / 10 % 10), Text.digitChar (count % 10)])

/-- A place in the order of floats that puts `-0.0` before `0.0`. -/
def orderKey (value : Float) : Int :=
  let bits := value.toBits.toNat
  if bits < Nat.pow 2 63 then bits else -((bits - Nat.pow 2 63 : Nat) : Int) - 1

end EventSchema.Decimal
