/-!
Dates of the Gregorian calendar, extended to all years, and times of day. Years and instants are
limited to a range of some 262 thousand years around the year zero.
-/
namespace EventSchema.Calendar

structure Date where
  year : Int
  month : Nat
  day : Nat
  deriving DecidableEq, Repr

structure Time where
  hour : Nat
  minute : Nat
  /-- A sixtieth second is a leap second. -/
  second : Nat
  deriving DecidableEq, Repr

def isLeapYear (year : Int) : Bool := year % 4 = 0 && (year % 100 ≠ 0 || year % 400 = 0)

def daysInMonth (year : Int) : Nat → Nat
  | 2 => if isLeapYear year then 29 else 28
  | 4 | 6 | 9 | 11 => 30
  | _ => 31

def firstYear : Int := -262143

def lastYear : Int := 262142

def Date.isValid (date : Date) : Bool :=
  firstYear ≤ date.year && date.year ≤ lastYear && 1 ≤ date.month && date.month ≤ 12 &&
    1 ≤ date.day && date.day ≤ daysInMonth date.year date.month

def Time.isValid (time : Time) : Bool := time.hour ≤ 23 && time.minute ≤ 59 && time.second ≤ 60

/-- Days since the first of March of the year zero. Years are counted from March, so that the day
that leap years add is the last of its year. -/
def Date.dayNumber (date : Date) : Int :=
  let year := if date.month ≤ 2 then date.year - 1 else date.year
  let month := (date.month + 9) % 12
  365 * year + year / 4 - year / 100 + year / 400 + ((153 * month + 2) / 5 + date.day - 1 : Nat)

/-- Monday is zero. The first of March of the year zero was a Wednesday. -/
def Date.weekday (date : Date) : Int := (date.dayNumber + 2) % 7

def Time.secondOfDay (time : Time) : Int := time.hour * 3600 + time.minute * 60 + min time.second 59

def secondsBefore (date : Date) (time : Time) : Int := date.dayNumber * 86400 + time.secondOfDay

/-- An offset from universal time is less than a day, and the instant in universal time lies in the
range of years too. -/
def isInstant (date : Date) (time : Time) (offset : Int) : Bool :=
  let instant := secondsBefore date time - offset
  offset.natAbs < 86400 && secondsBefore ⟨firstYear, 1, 1⟩ ⟨0, 0, 0⟩ ≤ instant &&
    instant ≤ secondsBefore ⟨lastYear, 12, 31⟩ ⟨23, 59, 59⟩

end EventSchema.Calendar
