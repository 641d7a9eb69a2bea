import EventSchema.Schema.ValueType
import EventSchema.Text.Words

namespace EventSchema

inductive Arrival where
  | text
  | number
  | boolean
  | object
  | array
  deriving DecidableEq, Repr

namespace Arrival

def all : List Arrival := [text, number, boolean, object, array]

def name : Arrival → String
  | text => "text"
  | number => "number"
  | boolean => "boolean"
  | object => "object"
  | array => "array"

/-- Names are read in any case. -/
def ofName? (name : String) : Option Arrival :=
  all.find? fun arrival => Text.isWord arrival.name name

def ofValueType? : ValueType → Option Arrival
  | .string => some text
  | .number | .integer => some number
  | .boolean => some boolean
  | .object => some object
  | .array => some array
  | .null => none

structure Entry where
  arrival : Arrival
  valueTypes : List ValueType
  storeFormats : List String
  deriving DecidableEq, Repr

def table : List Entry :=
  [⟨text, [.string], ["string", "date-time", "date", "time", "epoch"]⟩,
    ⟨number, [.integer, .number], ["integer", "number", "epoch"]⟩,
    ⟨boolean, [.boolean], ["boolean"]⟩,
    ⟨object, [.object], ["object"]⟩,
    ⟨array, [.array], ["array"]⟩]

def entry? (arrival : Arrival) : Option Entry := table.find? (·.arrival = arrival)

def accepting? (type : ValueType) : Option Arrival :=
  (table.find? fun entry => type ∈ entry.valueTypes).map Entry.arrival

def families : List ValueType := ValueType.familiesByName (table.flatMap Entry.valueTypes)

def distinct (arrivals : List Arrival) : List Arrival := all.filter (· ∈ arrivals)

end Arrival

end EventSchema
