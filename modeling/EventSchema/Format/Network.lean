import EventSchema.Text.Digit
import EventSchema.Text.Pattern
import EventSchema.Text.Words

namespace EventSchema.Format

/-- The digits of a number up to 255. Below 200 zeros may fill it up to three digits. -/
def octet : Text.Pattern :=
  .either (.sequence [.exactly '2', .exactly '5', .between '0' '5'])
    (.either (.sequence [.exactly '2', .between '0' '4', .between '0' '9'])
      (.sequence [.optional (.between '0' '1'), .between '0' '9', .optional (.between '0' '9')]))

def dottedQuad : Text.Pattern := .followed (.times 3 (.followed octet (.exactly '.'))) octet

def isIpv4 (text : List Char) : Bool := dottedQuad.describes text

def isOctet (text : List Char) : Bool :=
  1 ≤ text.length && text.length ≤ 3 && text.all Text.isDigit && Text.toNat text ≤ 255

/-- An octet inside an address of groups has no leading zero. -/
def isStrictOctet (text : List Char) : Bool :=
  isOctet text && (text.length = 1 || text.head? ≠ some '0')

def isGroup (text : List Char) : Bool :=
  1 ≤ text.length && text.length ≤ 4 && text.all Text.isHexDigit

/-- Four octets take the place of two groups. -/
def isQuad (text : List Char) : Bool :=
  let octets := Text.splitOn '.' text
  octets.length = 4 && octets.all isStrictOctet

def groupCount? : List (List Char) → Option Nat
  | [] => some 0
  | [last] => if isGroup last then some 1 else if isQuad last then some 2 else none
  | group :: rest => if isGroup group then (groupCount? rest).map (· + 1) else none

def partCount? (text : List Char) : Option Nat :=
  if text.isEmpty then some 0 else groupCount? (Text.splitOn ':' text)

def splitGap : List Char → Option (List Char × List Char)
  | [] => none
  | ':' :: ':' :: rest => some ([], rest)
  | char :: rest => (splitGap rest).map fun (before, after) => (char :: before, after)

/-- Eight groups, or fewer around one gap, with octets only at the end of the whole. -/
def isIpv6 (text : List Char) : Bool :=
  match splitGap text with
  | none => partCount? text = some 8
  | some (before, after) =>
    match partCount? before, partCount? after with
    | some left, some right => left + right ≤ 7 && !before.contains '.'
    | _, _ => false

end EventSchema.Format
