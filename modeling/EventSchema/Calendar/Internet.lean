import EventSchema.Calendar.Fields
/-!
Timestamps of the Internet: the profile of RFC 3339, and the dates of RFC 2822 as mail writes them.
-/
namespace EventSchema.Calendar

def zulu? : List Char → Option (Int × List Char)
  | 'Z' :: rest | 'z' :: rest => some (0, rest)
  | text => offset? (Text.dropChar? ':') text

def profile? (text : List Char) : Option Fields := do
  let (year, text) ← Text.digits? 4 4 text
  let (month, text) ← Text.digits? 2 2 (← Text.dropChar? '-' text)
  let (day, text) ← Text.digits? 2 2 (← Text.dropChar? '-' text)
  let (hour, text) ← Text.digits? 2 2 (← Text.dropOneOf? ['t', 'T', ' '] text)
  let (minute, text) ← Text.digits? 2 2 (← Text.dropChar? ':' text)
  let (second, text) ← Text.digits? 2 2 (← Text.dropChar? ':' text)
  let text ←
    match text with
    | '.' :: rest => fraction? rest
    | _ => some text
  let (offset, text) ← zulu? text
  guard text.isEmpty
  return { year := some year, month := some month, day := some day, hour := some hour
           minute := some minute, second := some second, offset := some offset }

def space? (text : List Char) : Option (List Char) :=
  let rest := Text.trimStart text
  if rest.length < text.length then some rest else none

/-- Zones with names, in hours. -/
def zones : List (String × Int) :=
  [("gmt", 0), ("ut", 0), ("z", 0), ("edt", -4), ("est", -5), ("cdt", -5), ("cst", -6), ("mdt", -6),
    ("mst", -7), ("pdt", -7), ("pst", -8)]

/-- A single letter other than `J` counts as universal time. -/
def namedZone? (name : List Char) : Option Int :=
  match zones.find? fun (zone, _) => name.map Text.lowerAscii = zone.toList with
  | some (_, hours) => some (hours * 3600)
  | none =>
    match name with
    | [letter] => if letter = 'j' || letter = 'J' then none else some 0
    | _ => none

def mailSign : List Char → Bool
  | '+' :: _ | '-' :: _ => true
  | _ => false

def mailZone? (text : List Char) : Option (Int × List Char) :=
  let name := text.takeWhile Char.isAlpha
  if name.isEmpty then if mailSign text then offset? some text else none
  else (namedZone? name).map (·, text.dropWhile Char.isAlpha)

/-- What follows the comment that the text is in, `depth` comments deep. A backslash takes the next
character along, and an unclosed comment is none. -/
def afterComment (depth : Nat) : List Char → Option (List Char)
  | [] => none
  | '\\' :: _ :: rest => afterComment depth rest
  | '(' :: rest => afterComment (depth + 1) rest
  | ')' :: rest => if depth ≤ 1 then some rest else afterComment (depth - 1) rest
  | _ :: rest => afterComment depth rest

/-- Whether only comments follow. Each takes at least its parentheses off the text. -/
def onlyComments : (bound : Nat) → List Char → Bool
  | _, [] => true
  | 0, _ => false
  | bound + 1, text =>
    match Text.trimStart text with
    | '(' :: rest => (afterComment 1 rest).any (onlyComments bound)
    | _ => false

/-- Years of two digits are of the years 1950 to 2049; of three digits, counted from 1900. -/
def fullYear (digitCount year : Nat) : Nat :=
  if digitCount = 2 then if year < 50 then year + 2000 else year + 1900
  else if digitCount = 3 then year + 1900
  else year

def mailDate? (text : List Char) : Option Fields := do
  let text := Text.trimStart text
  let (weekday, text) ←
    match weekday? text with
    | some (weekday, rest) => do pure (some (weekday : Int), ← Text.dropChar? ',' rest)
    | none => pure (none, text)
  let (day, text) ← Text.digits? 1 2 (Text.trimStart text)
  let (month, text) ← shortMonth? (← space? text)
  let text ← space? text
  let (year, afterYear) ← Text.digits? 2 text.length text
  let (hour, text') ← Text.digits? 2 2 (← space? afterYear)
  let (minute, text') ←
    Text.digits? 2 2 (Text.trimStart (← Text.dropChar? ':' (Text.trimStart text')))
  let (second, text') ←
    match Text.dropChar? ':' (Text.trimStart text') with
    | some rest => do
      let (second, rest) ← Text.digits? 2 2 rest
      pure (some second, rest)
    | none => pure (none, text')
  let (offset, text') ← mailZone? (← space? text')
  guard (onlyComments text'.length text')
  return { year := some (fullYear (text.length - afterYear.length) year), month := some month
           day := some day, weekday, hour := some hour, minute := some minute, second
           offset := some offset }

def isInternetTimestamp (text : List Char) : Bool :=
  (profile? text).any Fields.isZoned || (mailDate? text).any Fields.isZoned

end EventSchema.Calendar
