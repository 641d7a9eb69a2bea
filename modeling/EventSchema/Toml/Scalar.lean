import EventSchema.Calendar.Date
import EventSchema.Decimal.Shortest
import EventSchema.Text.Scan
import EventSchema.Toml.Value

namespace EventSchema.Toml

/-- Digits of a base, with single underscores between them; the digits alone are the result. -/
def separated? (isDigit : Char → Bool) : List Char → Option (List Char)
  | [] => none
  | [last] => if isDigit last then some [last] else none
  | '_' :: _ => none
  | first :: '_' :: rest =>
    if isDigit first then (separated? isDigit rest).map (first :: ·) else none
  | first :: rest => if isDigit first then (separated? isDigit rest).map (first :: ·) else none

def fromBase (base : Nat) (digits : List Char) : Nat :=
  digits.foldl (fun value char => value * base + (Text.hexDigit? char).getD 0) 0

def inBase? (base : Nat) (text : List Char) : Option Nat :=
  (separated? (fun char => (Text.hexDigit? char).any (· < base)) text).map (fromBase base)

def signed : List Char → Bool × List Char
  | '+' :: rest => (false, rest)
  | '-' :: rest => (true, rest)
  | text => (false, text)

def decimal? (text : List Char) : Option (List Char) :=
  (separated? Text.isDigit text).filter fun digits => digits.length = 1 || digits.head? ≠ some '0'

def withSign (negative : Bool) (value : Nat) : Int := if negative then -(value : Int) else value

/-- Whole numbers have 64 bits. -/
def integer? (word : List Char) : Option Int := do
  let value : Int ←
    match word with
    | '0' :: 'x' :: digits => (inBase? 16 digits).map Int.ofNat
    | '0' :: 'o' :: digits => (inBase? 8 digits).map Int.ofNat
    | '0' :: 'b' :: digits => (inBase? 2 digits).map Int.ofNat
    | _ =>
      let (negative, text) := signed word
      (decimal? text).map fun digits => withSign negative (Text.toNat digits)
  let bound : Int := Nat.pow 2 63
  if -bound ≤ value && value < bound then some value else none

/-- The float nearest to `digits * 10 ^ exponent`. Of a number that is far out of range the power is
not taken. -/
def nearest (digits : Nat) (exponent : Int) : Float :=
  let places := exponent + Decimal.digitCount digits
  if digits = 0 || places < -400 then 0.0
  else if places > 400 then 1.0 / 0.0
  else Float.ofScientific digits (exponent < 0) exponent.natAbs

def infinity? : List Char → Option Float
  | ['i', 'n', 'f'] => some (1.0 / 0.0)
  | ['n', 'a', 'n'] => some (0.0 / 0.0)
  | _ => none

/-- A number with a fraction, an exponent or both. Too large a positive number is refused. -/
def float? (word : List Char) : Option Float := do
  let (negative, text) := signed word
  match infinity? text with
  | some value => return if negative then -value else value
  | none =>
    let mark (char : Char) : Bool := char = 'e' || char = 'E'
    let mantissa := text.takeWhile (!mark ·)
    let exponent ←
      match text.dropWhile (!mark ·) with
      | [] => some 0
      | _ :: power =>
        let (below, digits) := signed power
        (separated? Text.isDigit digits).map fun digits => withSign below (Text.toNat digits)
    let whole ← decimal? (mantissa.takeWhile (· ≠ '.'))
    let fraction ←
      match mantissa.dropWhile (· ≠ '.') with
      | [] => if mantissa.length = text.length then none else some []
      | _ :: digits => separated? Text.isDigit digits
    let value := nearest (Text.toNat (whole ++ fraction)) (exponent - fraction.length)
    if !negative && value.isInf then none else some (if negative then -value else value)

def afterDate? (text : List Char) : Option (List Char) := do
  let (year, text) ← Text.digits? 4 4 text
  let (month, text) ← Text.digits? 2 2 (← Text.dropChar? '-' text)
  let (day, text) ← Text.digits? 2 2 (← Text.dropChar? '-' text)
  guard (1 ≤ month && month ≤ 12 && 1 ≤ day && day ≤ Calendar.daysInMonth year month)
  return text

def afterTime? (text : List Char) : Option (List Char) := do
  let (hour, text) ← Text.digits? 2 2 text
  let (minute, text) ← Text.digits? 2 2 (← Text.dropChar? ':' text)
  let (second, text) ← Text.digits? 2 2 (← Text.dropChar? ':' text)
  guard (Calendar.Time.isValid ⟨hour, minute, second⟩)
  match text with
  | '.' :: rest =>
    if (rest.takeWhile Text.isDigit).isEmpty then none else return rest.dropWhile Text.isDigit
  | _ => return text

def isOffset (text : List Char) : Bool :=
  match text with
  | [] | ['Z'] | ['z'] => true
  | _ =>
    (do
      let (hour, text) ← Text.digits? 2 2 (← Text.dropOneOf? ['+', '-'] text)
      let (minute, text) ← Text.digits? 2 2 (← Text.dropChar? ':' text)
      return hour ≤ 23 && minute ≤ 59 && text.isEmpty).getD false

def isDay (word : List Char) : Bool := afterDate? word = some []

def isMoment (word : List Char) : Bool :=
  isDay word || afterTime? word = some [] ||
    (do afterTime? (← Text.dropOneOf? ['T', 't', ' '] (← afterDate? word))).any isOffset

def word? (word : List Char) : Option Toml :=
  if word = "true".toList then some (.boolean true)
  else if word = "false".toList then some (.boolean false)
  else if isMoment word then some .moment
  else
    match integer? word with
    | some value => some (.integer value)
    | none => (float? word).map .float

def isWordChar (char : Char) : Bool := char.isAlphanum || char ∈ ['_', '+', '-', '.', ':']

/-- A value in one word. A date takes a time after a single space along. -/
def scalar? (text : List Char) : Option (Toml × List Char) :=
  let word := text.takeWhile isWordChar
  let rest := text.dropWhile isWordChar
  match rest with
  | ' ' :: digit :: after =>
    if isDay word && Text.isDigit digit then
      let whole := word ++ ' ' :: (digit :: after).takeWhile isWordChar
      (word? whole).map (·, (digit :: after).dropWhile isWordChar)
    else (word? word).map (·, rest)
  | _ => (word? word).map (·, rest)

end EventSchema.Toml
