import EventSchema.Decimal.Notation
import EventSchema.Json.Quoted
import EventSchema.Json.Value

namespace EventSchema.Json

def Number.text : Number → String
  | .whole value => String.ofList (Text.ofInt value)
  | .real value => Decimal.finiteText value

mutual

def compactChars : Json → List Char
  | .null => "null".toList
  | .bool value => (if value then "true" else "false").toList
  | .number value => value.text.toList
  | .string text => quote text
  | .array elements => '[' :: (compactElements elements ++ [']'])
  | .object members => '{' :: (compactMembers members ++ ['}'])

def compactElements : List Json → List Char
  | [] => []
  | [last] => compactChars last
  | element :: rest => compactChars element ++ ',' :: compactElements rest

def compactMembers : List (String × Json) → List Char
  | [] => []
  | [(key, value)] => quote key ++ ':' :: compactChars value
  | (key, value) :: rest => quote key ++ ':' :: compactChars value ++ ',' :: compactMembers rest

end

def compact (value : Json) : String := String.ofList (compactChars value)

def indentation (level : Nat) : List Char := '\n' :: List.replicate (2 * level) ' '

mutual

def prettyChars (level : Nat) : Json → List Char
  | .array [] => "[]".toList
  | .object [] => "{}".toList
  | .array elements =>
    '[' :: (prettyElements (level + 1) elements ++ indentation level ++ [']'])
  | .object members =>
    '{' :: (prettyMembers (level + 1) members ++ indentation level ++ ['}'])
  | value => compactChars value

def prettyElements (level : Nat) : List Json → List Char
  | [] => []
  | [last] => indentation level ++ prettyChars level last
  | element :: rest =>
    indentation level ++ prettyChars level element ++ ',' :: prettyElements level rest

def prettyMembers (level : Nat) : List (String × Json) → List Char
  | [] => []
  | [(key, value)] => indentation level ++ quote key ++ ':' :: ' ' :: prettyChars level value
  | (key, value) :: rest =>
    indentation level ++ quote key ++ ':' :: ' ' :: prettyChars level value ++
      ',' :: prettyMembers level rest

end

/-- Two spaces a level; an empty array or object stays on one line. -/
def pretty (value : Json) : String := String.ofList (prettyChars 0 value)

end EventSchema.Json
