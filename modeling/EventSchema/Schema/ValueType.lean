import EventSchema.Json.Value

namespace EventSchema

inductive ValueType where
  | string
  | number
  | integer
  | boolean
  | object
  | array
  | null
  deriving DecidableEq, Repr

inductive ScalarType where
  | string
  | number
  | integer
  | boolean
  | null
  deriving DecidableEq, Repr

namespace ValueType

def all : List ValueType := [string, number, integer, boolean, object, array, null]

def name : ValueType → String
  | string => "string"
  | number => "number"
  | integer => "integer"
  | boolean => "boolean"
  | object => "object"
  | array => "array"
  | null => "null"

def ofName? (text : String) : Option ValueType := all.find? (·.name = text)

def rank : ValueType → Nat
  | string => 0
  | number => 1
  | integer => 2
  | boolean => 3
  | object => 4
  | array => 5
  | null => 6

instance : LT ValueType := ⟨fun left right => left.rank < right.rank⟩

instance : DecidableLT ValueType := fun left right =>
  inferInstanceAs (Decidable (left.rank < right.rank))

/-- Integers are numbers; every other type is a family of its own. -/
def family : ValueType → ValueType
  | integer => number
  | other => other

def isStructural : ValueType → Bool
  | object | array => true
  | _ => false

def ofValue : Json → ValueType
  | .null => null
  | .bool _ => boolean
  | .number (.whole _) => integer
  | .number (.real _) => number
  | .string _ => string
  | .array _ => array
  | .object _ => object

def familiesByName (types : List ValueType) : List ValueType :=
  [array, boolean, null, number, object, string].filter fun family =>
    family ∈ types.map ValueType.family

end ValueType

namespace ScalarType

def toValueType : ScalarType → ValueType
  | string => .string
  | number => .number
  | integer => .integer
  | boolean => .boolean
  | null => .null

instance : Coe ScalarType ValueType := ⟨toValueType⟩

end ScalarType

end EventSchema
