import EventSchema.Keyed
/-!
JSON values. An object is a list of members; a value read from text or built here for reading has
its keys in strictly increasing order, and documents meant only for printing list their members in
the order in which they are printed.
-/
namespace EventSchema

/-- A number written without fraction and exponent is whole, as long as it fits in 64 bits. -/
inductive Json.Number where
  | whole (value : Int)
  | real (value : Float)

inductive Json where
  | null
  | bool (value : Bool)
  | number (value : Json.Number)
  | string (text : String)
  | array (elements : List Json)
  | object (members : List (String × Json))

namespace Json

instance : Inhabited Json := ⟨null⟩

def ofNat (value : Nat) : Json := .number (.whole value)

def strings (texts : List String) : Json := .array (texts.map .string)

def member? (name : String) : Json → Option Json
  | .object members => Keyed.lookup name members
  | _ => none

def text? : Json → Option String
  | .string text => some text
  | _ => none

def bool? : Json → Option Bool
  | .bool value => some value
  | _ => none

def elements? : Json → Option (List Json)
  | .array elements => some elements
  | _ => none

def members? : Json → Option (List (String × Json))
  | .object members => some members
  | _ => none

def isObject : Json → Bool
  | .object _ => true
  | _ => false

end Json

end EventSchema
