import EventSchema.Text.Scan

namespace EventSchema.Format

def twoDecimals? (text : List Char) : Option (List Char) := Text.dropCount? Text.isDecimal 2 text

def afterDate? (text : List Char) : Option (List Char) := do
  let month ← Text.dropChar? '-' (← Text.dropCount? Text.isDecimal 4 text)
  twoDecimals? (← Text.dropChar? '-' (← twoDecimals? month))

def afterSeconds (text : List Char) : List Char :=
  ((Text.dropChar? ':' text).bind twoDecimals?).getD text

def afterFraction (text : List Char) : List Char :=
  match text with
  | '.' :: first :: rest => if Text.isDecimal first then rest.dropWhile Text.isDecimal else text
  | _ => text

def afterTime? (text : List Char) : Option (List Char) := do
  let minutes ← twoDecimals? (← Text.dropChar? ':' (← twoDecimals? text))
  return afterFraction (afterSeconds minutes)

/-- Nothing, `Z`, or a sign and four digits with or without a colon. -/
def isZone (text : List Char) : Bool :=
  text = [] || text = ['Z'] ||
    (do
      let minutes ← twoDecimals? (← Text.dropOneOf? ['+', '-'] text)
      twoDecimals? ((Text.dropChar? ':' minutes).getD minutes)) = some []

def isDateShape (text : List Char) : Bool := afterDate? text = some []

def isTimeShape (text : List Char) : Bool := afterTime? text = some []

def isDateTimeShape (text : List Char) : Bool :=
  (do afterTime? (← Text.dropOneOf? ['T', ' '] (← afterDate? text))).any isZone

end EventSchema.Format
