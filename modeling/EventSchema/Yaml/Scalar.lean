import EventSchema.Decimal.Range
import EventSchema.Text.Scan
/-!
How YAML writes a text: plain where it reads back as the same text, else between quotes, and over
several lines when it holds line feeds. A text that a reader would take for another value (nothing,
a truth value, a number) is quoted.
-/
namespace EventSchema.Yaml

def isBreak (char : Char) : Bool :=
  char = '\n' || char = '\r' || char.toNat ∈ [0x85, 0x2028, 0x2029]

/-- White space next to which `:` and `#` have a meaning. -/
def isSeparator (char : Char) : Bool := char = ' ' || char = '\t' || char = '\x00' || isBreak char

/-- Characters that may stand outside double quotes: all but control characters, the byte order mark
and the last two of the first plane. -/
def isPrintable (char : Char) : Bool :=
  let code := char.toNat
  char = '\n' || (0x20 ≤ code && code ≤ 0x7E) ||
    (0xA0 ≤ code && code ∉ [0xFEFF, 0xFFFE, 0xFFFF])

/-! Texts that look like other values -/

def isNothing (text : String) : Bool := text ∈ ["", "~", "null", "Null", "NULL"]

def isTruthValue (text : String) : Bool :=
  text ∈ ["true", "True", "TRUE", "false", "False", "FALSE"]

def dropSign (signs text : List Char) : List Char := (Text.dropOneOf? signs text).getD text

def isBelow (bound base : Nat) (digits : List Char) : Bool :=
  !digits.isEmpty && digits.all (fun char => (Text.hexDigit? char).any (· < base)) &&
    digits.foldl (fun value char => value * base + (Text.hexDigit? char).getD 0) 0 < bound

/-- A whole number in base 16, 8 or 2, of at most 128 bits. -/
def isMarkedNumber (text : List Char) : Bool :=
  let bound := if text.head? = some '-' then Nat.pow 2 127 + 1 else Nat.pow 2 128
  match dropSign ['+', '-'] text with
  | '0' :: 'x' :: digits => isBelow bound 16 digits
  | '0' :: 'o' :: digits => isBelow bound 8 digits
  | '0' :: 'b' :: digits => isBelow bound 2 digits
  | _ => false

/-- A decimal number that a float can hold. Digits are needed on one side of the point only. -/
def isDecimal (text : List Char) : Bool :=
  let unsigned := dropSign ['+', '-'] text
  let whole := unsigned.takeWhile Text.isDigit
  let afterWhole := unsigned.dropWhile Text.isDigit
  let fraction :=
    match afterWhole with
    | '.' :: rest => rest.takeWhile Text.isDigit
    | _ => []
  let afterFraction :=
    match afterWhole with
    | '.' :: rest => rest.dropWhile Text.isDigit
    | rest => rest
  let digits := Text.toNat (whole ++ fraction)
  let inRange (exponent : Int) : Bool := Decimal.inRange digits (exponent - fraction.length)
  !(whole ++ fraction).isEmpty &&
    match afterFraction with
    | [] => inRange 0
    | mark :: power =>
      let magnitude := dropSign ['+', '-'] power
      let exponent : Int := Text.toNat magnitude
      (mark = 'e' || mark = 'E') && !magnitude.isEmpty && magnitude.all Text.isDigit &&
        inRange (if power.head? = some '-' then -exponent else exponent)

def isNotFinite (text : String) : Bool :=
  text ∈ [".inf", ".Inf", ".INF", "+.inf", "+.Inf", "+.INF", "-.inf", "-.Inf", "-.INF", ".nan",
    ".NaN", ".NAN"]

/-- Digits after a leading zero, which some readers take for a number. -/
def isPadded (text : List Char) : Bool :=
  match dropSign ['+', '-'] text with
  | '0' :: digits => !digits.isEmpty && digits.all Text.isDigit
  | _ => false

def looksTyped (text : String) : Bool :=
  isNothing text || isTruthValue text || isNotFinite text || isMarkedNumber text.toList ||
    isDecimal text.toList || isPadded text.toList

/-! Style -/

inductive Style where
  | plain
  | singleQuoted
  | doubleQuoted
  /-- The lines of the text as they are, indented. -/
  | literal
  deriving DecidableEq, Repr

/-- Characters with a meaning at the start of a text. -/
def isIndicator (char : Char) : Bool := char ∈ "#,[]\x7b\x7d&*!|>'\"%@\x60".toList

def separates (rest : List Char) : Bool := rest.head?.all isSeparator

/-- A colon before white space or a number sign after it. -/
def hasMark : (previous : Char) → List Char → Bool
  | _, [] => false
  | previous, char :: rest =>
    (char = ':' && separates rest) || (char = '#' && isSeparator previous) || hasMark char rest

/-- Whether a text would be taken for something else than text where it stands without quotes. -/
def needsQuotes (text : List Char) : Bool :=
  match text with
  | [] => true
  | first :: rest =>
    isIndicator first || (first ∈ ['?', ':', '-'] && separates rest) || hasMark first rest ||
      first = ' ' || text.getLast? = some ' ' || text.any isBreak ||
      text.take 3 = ['-', '-', '-'] || text.take 3 = ['.', '.', '.']

/-- Somewhere in the text a character of the one class is followed by one of the other. -/
def hasPair (isFirst isSecond : Char → Bool) : List Char → Bool
  | first :: second :: rest =>
    (isFirst first && isSecond second) || hasPair isFirst isSecond (second :: rest)
  | _ => false

/-- Whether only escapes keep the text: control characters, or spaces that end a line. -/
def needsEscapes (text : List Char) : Bool :=
  !text.all isPrintable || hasPair (· = ' ') isBreak text

def Style.ofText (text : String) : Style :=
  let chars := text.toList
  if '\n' ∈ chars then
    if needsEscapes chars || chars.getLast? = some ' ' then doubleQuoted else literal
  else if !needsQuotes chars && !needsEscapes chars && !looksTyped text then plain
  else if needsEscapes chars || hasPair isBreak (· = ' ') chars then doubleQuoted
  else singleQuoted

/-! Writing -/

def hexDigits (code digits : Nat) : List Char :=
  (List.range digits).map fun place =>
    let value := code / Nat.pow 16 (digits - 1 - place) % 16
    if value < 10 then Text.digitChar value else Char.ofNat ('A'.toNat + value - 10)

def escapeChar (char : Char) : List Char :=
  let code := char.toNat
  match code with
  | 0x00 => ['\\', '0']
  | 0x07 => ['\\', 'a']
  | 0x08 => ['\\', 'b']
  | 0x09 => ['\\', 't']
  | 0x0A => ['\\', 'n']
  | 0x0B => ['\\', 'v']
  | 0x0C => ['\\', 'f']
  | 0x0D => ['\\', 'r']
  | 0x1B => ['\\', 'e']
  | 0x22 => ['\\', '"']
  | 0x5C => ['\\', '\\']
  | 0x85 => ['\\', 'N']
  | 0x2028 => ['\\', 'L']
  | 0x2029 => ['\\', 'P']
  | _ =>
    if isPrintable char then [char]
    else if code ≤ 0xFF then '\\' :: 'x' :: hexDigits code 2
    else '\\' :: 'u' :: hexDigits code 4

/-- Puts a margin in front of each line that is not empty; `fresh` tells whether a line starts. -/
def indentLines (margin : List Char) : (fresh : Bool) → List Char → List Char
  | _, [] => []
  | fresh, char :: rest =>
    if isBreak char then char :: indentLines margin true rest
    else (if fresh then margin else []) ++ char :: indentLines margin false rest

def endsInBreak (text : List Char) : Bool := text.getLast?.any isBreak

def doubleApostrophe (char : Char) : List Char := if char = '\'' then ['\'', '\''] else [char]

/-- What a reader does with the line breaks that end a text: drop them, keep one, or keep all. -/
def chomping (text : List Char) : List Char :=
  if !endsInBreak text then ['-']
  else if endsInBreak text.dropLast || text.length = 1 then ['+']
  else []

/-- The header of a literal text; it gives the indentation where the first line does not show it. -/
def literalHeader (text : List Char) : List Char :=
  let indentation := if text.head?.any fun char => char = ' ' || isBreak char then ['2'] else []
  '|' :: (indentation ++ chomping text ++ ['\n'])

def Style.write (margin : List Char) (text : List Char) : Style → List Char
  | plain => text
  | singleQuoted =>
    '\'' :: (indentLines margin false (text.flatMap doubleApostrophe) ++
      (if endsInBreak text then margin else []) ++ ['\''])
  | doubleQuoted => '"' :: (text.flatMap escapeChar ++ ['"'])
  | literal => literalHeader text ++ indentLines margin true text

def scalar (margin : List Char) (text : String) : List Char :=
  (Style.ofText text).write margin text.toList

end EventSchema.Yaml
