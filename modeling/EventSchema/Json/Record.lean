import EventSchema.Json.Written
/-!
Reading records from JSON. A record is an object, or a list of its values in a fixed order. Members
with names that are not known are ignored: what is written there only has to meet the grammar.
-/
namespace EventSchema.Json

def float? : Json → Option Float
  | .number (.whole value) => some (Float.ofInt value)
  | .number (.real value) => some value
  | _ => none

def nat? : Json → Option Nat
  | .number (.whole (.ofNat value)) => some value
  | _ => none

def fields? (names : List String) : Json → Option (List (Option Json))
  | .object members => some (names.map fun name => Keyed.lookup name members)
  | .array elements =>
    if elements.length ≤ names.length then
      some (elements.map some ++ List.replicate (names.length - elements.length) none)
    else none
  | _ => none

/-- A missing value takes the default; a present one has to be readable. -/
def readOr {α : Type} (default : α) (read : Json → Option α) : Option Json → Option α
  | none => some default
  | some value => read value

/-- Null stands for no value. -/
def nullable {α : Type} (read : Json → Option α) : Json → Option (Option α)
  | .null => some none
  | value => (read value).map some

/-- No object member with one of the names comes twice. -/
def namesOnce (names : List String) : Json → Bool
  | .object members => names.all fun name => (members.filter (·.1 = name)).length ≤ 1
  | _ => true

namespace Written

/-- The members with the names given. Every key has to be a text. -/
def membersNamed? (names : List String) (depth : Nat) :
    List (List Piece × Written) → Option (List (String × Json))
  | [] => some []
  | (key, value) :: rest => do
    let key ← textOf? key
    let known ← membersNamed? names depth rest
    if key ∈ names then return (key, ← value? depth value) :: known else return known

/-- A record of these fields. In each of its values `depth` arrays and objects may be open. -/
def record? (names : List String) (depth : Nat) : Written → Option Json
  | .object members => .object <$> membersNamed? names depth members
  | value => value.value? (depth + 1)

def records? (names : List String) : Written → Option (List Json)
  | .array elements => elements.mapM (record? names (depthLimit - 2))
  | _ => none

end Written

end EventSchema.Json
