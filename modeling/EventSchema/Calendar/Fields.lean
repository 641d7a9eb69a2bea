import EventSchema.Calendar.Date
import EventSchema.Text.Blank
import EventSchema.Text.Scan
import EventSchema.Text.Words

namespace EventSchema.Calendar

structure Fields where
  year : Option Int := none
  month : Option Nat := none
  day : Option Nat := none
  weekday : Option Int := none
  hour : Option Nat := none
  minute : Option Nat := none
  second : Option Nat := none
  /-- Seconds east of universal time. -/
  offset : Option Int := none
  deriving DecidableEq, Repr

namespace Fields

def date? (fields : Fields) : Option Date := do
  let date : Date := ⟨← fields.year, ← fields.month, ← fields.day⟩
  if date.isValid && fields.weekday.all (· = date.weekday) then some date else none

/-- Seconds may be left out. -/
def time? (fields : Fields) : Option Time := do
  let time : Time := ⟨← fields.hour, ← fields.minute, fields.second.getD 0⟩
  if time.isValid then some time else none

def isDate (fields : Fields) : Bool := fields.date?.isSome

def isTime (fields : Fields) : Bool := fields.time?.isSome

def isDateTime (fields : Fields) : Bool := fields.isDate && fields.isTime

def isZoned (fields : Fields) : Bool :=
  match fields.date?, fields.time?, fields.offset with
  | some date, some time, some offset => isInstant date time offset
  | _, _, _ => false

end Fields

/-- The names of months; a short name is the first three letters. -/
def monthNames : List String :=
  ["january", "february", "march", "april", "may", "june", "july", "august", "september",
    "october", "november", "december"]

def weekdayNames : List String := ["mon", "tue", "wed", "thu", "fri", "sat", "sun"]

def dropWord? : (word text : List Char) → Option (List Char)
  | [], text => some text
  | _ :: _, [] => none
  | letter :: word, char :: rest =>
    if Text.lowerAscii char = letter then dropWord? word rest else none

/-- The position of the first name in the list that starts the text. -/
def name? (names : List (List Char)) (text : List Char) : Option (Nat × List Char) :=
  (names.zipIdx.filterMap fun (name, index) => (dropWord? name text).map (index, ·)).head?

def shortMonth? (text : List Char) : Option (Nat × List Char) :=
  (name? (monthNames.map (·.toList.take 3)) text).map fun (index, rest) => (index + 1, rest)

/-- The letters after the first three are taken along only if all of them are there. -/
def anyMonth? (text : List Char) : Option (Nat × List Char) :=
  match name? (monthNames.map String.toList) text with
  | some (index, rest) => some (index + 1, rest)
  | none => shortMonth? text

def weekday? (text : List Char) : Option (Nat × List Char) :=
  name? (weekdayNames.map String.toList) text

/-- A fraction of a second: any digits, at least one. -/
def fraction? (text : List Char) : Option (List Char) :=
  if (text.takeWhile Text.isDigit).isEmpty then none else some (text.dropWhile Text.isDigit)

def sign? : List Char → Option (Bool × List Char)
  | '+' :: rest => some (false, rest)
  | '-' :: rest => some (true, rest)
  | '−' :: rest => some (true, rest)
  | _ => none

def offset? (separator : List Char → Option (List Char)) (text : List Char) :
    Option (Int × List Char) := do
  let (negative, afterSign) ← sign? text
  let (hours, afterHours) ← Text.digits? 2 2 afterSign
  let (minutes, rest) ← Text.digits? 2 2 (← separator afterHours)
  guard (minutes < 60)
  let seconds : Int := hours * 3600 + minutes * 60
  return (if negative then -seconds else seconds, rest)

/-- A number of at most four digits, or of any length after a sign. -/
def year? : List Char → Option (Int × List Char)
  | '-' :: rest => (Text.digits? 1 rest.length rest).map fun (year, left) => (-(year : Int), left)
  | '+' :: rest => (Text.digits? 1 rest.length rest).map fun (year, left) => ((year : Int), left)
  | text => (Text.digits? 1 4 text).map fun (year, left) => ((year : Int), left)

end EventSchema.Calendar
