import EventSchema.Calendar.Fields
/-!
Layouts of dates and times. A layout is a list of items, each of which takes its part off the text.
White space is optional where a layout has it, and in front of numbers and offsets.
-/
namespace EventSchema.Calendar

inductive Item where
  | year
  | month
  | day
  | hour
  | minute
  | second
  /-- Nothing, or a point and digits. -/
  | fraction
  | shortMonth
  | anyMonth
  | weekday
  /-- Colons and white space may separate the minutes. -/
  | offset
  | blank
  | char (expected : Char)
  deriving DecidableEq, Repr

abbrev Layout := List Item

def twoDigits? (text : List Char) : Option (Nat × List Char) :=
  Text.digits? 1 2 (Text.trimStart text)

/-- Any colons and white space separate the hours of an offset from its minutes. -/
def afterSeparator? (text : List Char) : Option (List Char) :=
  some (text.dropWhile fun char => char = ':' || Text.isBlank char)

def Item.read (fields : Fields) (text : List Char) : Item → Option (Fields × List Char)
  | .year => (year? (Text.trimStart text)).map fun (value, rest) =>
    ({ fields with year := some value }, rest)
  | .month => (twoDigits? text).map fun (value, rest) => ({ fields with month := some value }, rest)
  | .day => (twoDigits? text).map fun (value, rest) => ({ fields with day := some value }, rest)
  | .hour => (twoDigits? text).map fun (value, rest) => ({ fields with hour := some value }, rest)
  | .minute => (twoDigits? text).map fun (value, rest) =>
    ({ fields with minute := some value }, rest)
  | .second => (twoDigits? text).map fun (value, rest) =>
    ({ fields with second := some value }, rest)
  | .fraction =>
    match text with
    | '.' :: rest => (fraction? rest).map (fields, ·)
    | _ => some (fields, text)
  | .shortMonth => (shortMonth? text).map fun (value, rest) =>
    ({ fields with month := some value }, rest)
  | .anyMonth => (anyMonth? text).map fun (value, rest) =>
    ({ fields with month := some value }, rest)
  | .weekday => (weekday? text).map fun (value, rest) =>
    ({ fields with weekday := some value }, rest)
  | .offset => (offset? afterSeparator? (Text.trimStart text)).map fun (value, rest) =>
    ({ fields with offset := some value }, rest)
  | .blank => some (fields, Text.trimStart text)
  | .char expected => (Text.dropChar? expected text).map (fields, ·)

def Layout.readFrom (fields : Fields) (text : List Char) : Layout → Option Fields
  | [] => if text.isEmpty then some fields else none
  | item :: rest => do
    let (next, left) ← item.read fields text
    readFrom next left rest

def Layout.read? (layout : Layout) (text : List Char) : Option Fields := layout.readFrom {} text

inductive LayoutKind where
  | zoned
  | dateTime
  | date
  | time
  deriving DecidableEq, Repr

def LayoutKind.accepts (fields : Fields) : LayoutKind → Bool
  | .zoned => fields.isZoned
  | .dateTime => fields.isDateTime
  | .date => fields.isDate
  | .time => fields.isTime

def yearFirst (separator : Char) : Layout :=
  [.year, .char separator, .month, .char separator, .day]

def dayFirst (separator : Char) : Layout :=
  [.day, .char separator, .month, .char separator, .year]

def monthFirst (separator : Char) : Layout :=
  [.month, .char separator, .day, .char separator, .year]

def numericDates : List Layout :=
  [yearFirst '-', yearFirst '/', yearFirst '.', dayFirst '-', dayFirst '/', dayFirst '.',
    monthFirst '-', monthFirst '/']

def namedDates : List Layout :=
  [[.day, .blank, .shortMonth, .blank, .year],
    [.day, .blank, .anyMonth, .blank, .year],
    [.shortMonth, .blank, .day, .blank, .year],
    [.shortMonth, .blank, .day, .char ',', .blank, .year],
    [.anyMonth, .blank, .day, .char ',', .blank, .year],
    [.weekday, .char ',', .blank, .day, .blank, .shortMonth, .blank, .year]]

def toSecond : Layout := [.hour, .char ':', .minute, .char ':', .second]

def times : List Layout := [toSecond, toSecond ++ [.fraction], [.hour, .char ':', .minute]]

/-- What may stand between date and time. -/
def separators : List Item := [.char 'T', .blank]

def layouts : List (LayoutKind × Layout) :=
  (numericDates.flatMap fun date => separators.flatMap fun separator => times.map fun time =>
    (.dateTime, date ++ separator :: time)) ++
  (separators.flatMap fun separator =>
    (times.flatMap fun time =>
      let stamp := yearFirst '-' ++ separator :: time
      [(.dateTime, stamp ++ [.char 'Z']), (.zoned, stamp ++ [.offset]),
        (.zoned, stamp ++ [.offset])]) ++
    [(.zoned, yearFirst '/' ++ separator :: toSecond ++ [.offset])]) ++
  (numericDates ++ namedDates).map (.date, ·) ++
  [(.dateTime, [.day, .blank, .shortMonth, .blank, .year, .blank] ++ toSecond),
    (.zoned, [.day, .char '/', .shortMonth, .char '/', .year, .char ':'] ++ toSecond ++
      [.blank, .offset])] ++
  times.map (.time, ·)

def matchesLayout (text : List Char) : Bool :=
  layouts.any fun (kind, layout) => (layout.read? text).any fun fields => kind.accepts fields

end EventSchema.Calendar
