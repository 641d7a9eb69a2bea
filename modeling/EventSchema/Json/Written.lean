import EventSchema.Json.Numeral
import EventSchema.Json.Quoted
/-!
JSON values as written: they meet the grammar, and their numerals and quoted strings have not been
made numbers and texts. A numeral may be beyond the range of floats, half of a surrogate pair may
stand alone, and nesting has no bound; all of these are refused once the value is asked for.
-/
namespace EventSchema.Json

inductive Written where
  | null
  | bool (value : Bool)
  | number (numeral : Numeral)
  | string (pieces : List Piece)
  | array (elements : List Written)
  | object (members : List (List Piece × Written))

namespace Written

instance : Inhabited Written := ⟨null⟩

/-- How many arrays and objects may be open at once in a text of which the value is asked for. -/
def depthLimit : Nat := 127

mutual

/-- The value written, its objects listing every member in the order written, repeated keys
included. At most `depth` arrays and objects are open at once. -/
def value? (depth : Nat) : Written → Option Json
  | .null => some .null
  | .bool value => some (.bool value)
  | .number numeral => .number <$> numeral.number?
  | .string pieces => .string <$> textOf? pieces
  | .array elements =>
    match depth with
    | 0 => none
    | depth + 1 => .array <$> values? depth elements
  | .object members =>
    match depth with
    | 0 => none
    | depth + 1 => .object <$> memberValues? depth members

def values? (depth : Nat) : List Written → Option (List Json)
  | [] => some []
  | element :: rest => do return (← value? depth element) :: (← values? depth rest)

def memberValues? (depth : Nat) :
    List (List Piece × Written) → Option (List (String × Json))
  | [] => some []
  | (key, value) :: rest => do
    return (← textOf? key, ← value? depth value) :: (← memberValues? depth rest)

end

end Written

end EventSchema.Json
