/-!
Decimal digits: the ten of ASCII, and all of the Unicode category Nd. The digits of a script are
ten code points in a row, so the category is a list of zeros.
-/
namespace EventSchema.Text

def zeros : List Nat :=
  [0x30, 0x660, 0x6F0, 0x7C0, 0x966, 0x9E6, 0xA66, 0xAE6, 0xB66, 0xBE6, 0xC66, 0xCE6, 0xD66, 0xDE6,
    0xE50, 0xED0, 0xF20, 0x1040, 0x1090, 0x17E0, 0x1810, 0x1946, 0x19D0, 0x1A80, 0x1A90, 0x1B50,
    0x1BB0, 0x1C40, 0x1C50, 0xA620, 0xA8D0, 0xA900, 0xA9D0, 0xA9F0, 0xAA50, 0xABF0, 0xFF10, 0x104A0,
    0x10D30, 0x10D40, 0x11066, 0x110F0, 0x11136, 0x111D0, 0x112F0, 0x11450, 0x114D0, 0x11650,
    0x116C0, 0x116D0, 0x116DA, 0x11730, 0x118E0, 0x11950, 0x11BF0, 0x11C50, 0x11D50, 0x11DA0,
    0x11F50, 0x16130, 0x16A60, 0x16AC0, 0x16B50, 0x16D70, 0x1CCF0, 0x1D7CE, 0x1D7D8, 0x1D7E2,
    0x1D7EC, 0x1D7F6, 0x1E140, 0x1E2F0, 0x1E4F0, 0x1E5F1, 0x1E950, 0x1FBF0]

/-- A decimal digit of any script. -/
def isDecimal (char : Char) : Bool :=
  zeros.any fun first => first ≤ char.toNat && char.toNat < first + 10

/-- The value of an ASCII digit; digits of other scripts have none. -/
def digit? (char : Char) : Option Nat :=
  if '0' ≤ char ∧ char ≤ '9' then some (char.toNat - '0'.toNat) else none

def isDigit (char : Char) : Bool := (digit? char).isSome

def hexDigit? (char : Char) : Option Nat :=
  if '0' ≤ char ∧ char ≤ '9' then some (char.toNat - '0'.toNat)
  else if 'a' ≤ char ∧ char ≤ 'f' then some (char.toNat - 'a'.toNat + 10)
  else if 'A' ≤ char ∧ char ≤ 'F' then some (char.toNat - 'A'.toNat + 10)
  else none

def isHexDigit (char : Char) : Bool := (hexDigit? char).isSome

def digitChar (value : Nat) : Char := Char.ofNat ('0'.toNat + value)

def reversedDigits (value : Nat) : List Char :=
  if value < 10 then [digitChar value] else digitChar (value % 10) :: reversedDigits (value / 10)

def ofNat (value : Nat) : List Char := (reversedDigits value).reverse

def ofInt : Int → List Char
  | .ofNat value => ofNat value
  | .negSucc value => '-' :: ofNat (value + 1)

/-- The number written by ASCII digits; other characters count as zero. -/
def toNat (digits : List Char) : Nat :=
  digits.foldl (fun value char => value * 10 + (digit? char).getD 0) 0

end EventSchema.Text
