import EventSchema.Text.Scan

namespace EventSchema.Format

/-- A digit of weight two counts its double, less nine when that has two digits. -/
def doubled (digit : Nat) : Nat := if digit * 2 > 9 then digit * 2 - 9 else digit * 2

def luhnSum (double : Bool) : List Nat → Nat
  | [] => 0
  | digit :: rest => (if double then doubled digit else digit) + luhnSum (!double) rest

/-- The last digit has weight one. At least thirteen digits are wanted; other characters do not
count. -/
def isLuhnValid (text : List Char) : Bool :=
  let digits := text.filterMap Text.digit?
  13 ≤ digits.length && luhnSum false digits.reverse % 10 = 0

def lastGroup (text : List Char) : Bool :=
  1 ≤ text.length && text.length ≤ 7 && text.all Text.isDecimal

def isCardShape (text : List Char) : Bool :=
  (do
    let first ← Text.dropCount? Text.isDecimal 4 text
    let second ← Text.dropCount? Text.isDecimal 4 (← Text.dropOneOf? [' ', '-'] first)
    let third ← Text.dropCount? Text.isDecimal 4 (← Text.dropOneOf? [' ', '-'] second)
    Text.dropOneOf? [' ', '-'] third).any lastGroup

def isCard (text : List Char) : Bool := isCardShape text && isLuhnValid text

end EventSchema.Format
