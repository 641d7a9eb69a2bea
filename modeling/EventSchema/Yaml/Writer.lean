import EventSchema.Json.Writer
import EventSchema.Yaml.Scalar
/-!
JSON values as a YAML document in block style: a member or an element a line, two spaces a level.
The elements of an array under a key stand at the column of the key.
-/
namespace EventSchema.Yaml

def margin (column : Nat) : List Char := List.replicate column ' '

def endLine (text : List Char) : List Char := if endsInBreak text then text else text ++ ['\n']

def onLine (column : Nat) : Json → List Char
  | .string text => scalar (margin (column + 2)) text
  | .array _ => ['[', ']']
  | .object _ => ['\x7b', '\x7d']
  | value => Json.compactChars value

/-- A key that is long or has several lines gets a mark and a line of its own. -/
def isSimpleKey (key : String) : Bool := key.utf8ByteSize ≤ 128 && !key.toList.any isBreak

mutual

def afterKey (column : Nat) : Json → List Char
  | .array (first :: rest) => '\n' :: elements column (first :: rest)
  | .object (first :: rest) => '\n' :: members (column + 2) (first :: rest)
  | value => ' ' :: endLine (onLine column value)

/-- What follows a mark at the given column: the first line of a collection goes on behind it. -/
def afterMark (column : Nat) : Json → List Char
  | .array (first :: rest) => (elements (column + 2) (first :: rest)).drop (column + 1)
  | .object (first :: rest) => (members (column + 2) (first :: rest)).drop (column + 1)
  | value => ' ' :: endLine (onLine column value)

def elements (column : Nat) : List Json → List Char
  | [] => []
  | element :: rest => margin column ++ '-' :: afterMark column element ++ elements column rest

def members (column : Nat) : List (String × Json) → List Char
  | [] => []
  | (key, value) :: rest =>
    (if isSimpleKey key then
      margin column ++ scalar (margin (column + 2)) key ++ ':' :: afterKey column value
    else
      margin column ++ '?' :: ' ' :: endLine (scalar (margin (column + 2)) key) ++
        margin column ++ ':' :: afterMark column value) ++
      members column rest

end

def document : Json → List Char
  | .array (first :: rest) => elements 0 (first :: rest)
  | .object (first :: rest) => members 0 (first :: rest)
  | value => endLine (onLine 0 value)

end EventSchema.Yaml

namespace EventSchema.Json

def yaml (value : Json) : String := String.ofList (Yaml.document value)

end EventSchema.Json
