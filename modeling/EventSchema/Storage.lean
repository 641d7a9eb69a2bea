import EventSchema.Schema.Node

namespace EventSchema

/-- The arrival format and the stored data type; null is not stored. -/
def storage? (type : ValueType) (format : Option Format) : Option (Arrival × String) :=
  match type with
  | .string =>
    match format with
    | some .dateTime => some (.text, "date-time")
    | some .date => some (.text, "date")
    | some .time => some (.text, "time")
    | some .epoch => some (.text, "epoch")
    | _ => some (.text, "string")
  | .integer => some (.number, if format = some .epoch then "epoch" else "integer")
  | .number => some (.number, if format = some .epoch then "epoch" else "number")
  | .boolean => some (.boolean, "boolean")
  | .object => some (.object, "object")
  | .array => some (.array, "array")
  | .null => none

namespace Node

/-- A node's label once its storage is noted; the format is spent on it. -/
def storedLabel (type : ValueType) (label : Label) : Label where
  format := none
  notes :=
    match storage? type label.format with
    | some (arrival, dataType) =>
      { label.notes with arrival := some arrival, dataType := some dataType }
    | none => label.notes

mutual

def store : Node → Node
  | scalar label type => scalar (storedLabel type label) type
  | object label properties required =>
    object (storedLabel .object label) (storeProperties properties) required
  | emptyArray label => emptyArray (storedLabel .array label)
  | arrayOf label items => arrayOf (storedLabel .array label) (store items)
  | mixedArray label => mixedArray (storedLabel .array label)
  | union label branches =>
    union (storedLabel (union label branches).type label) (storeBranches branches)

def storeProperties : List (String × Node) → List (String × Node)
  | [] => []
  | (name, child) :: rest => (name, store child) :: storeProperties rest

def storeBranches : List Node → List Node
  | [] => []
  | branch :: rest => store branch :: storeBranches rest

end

/-- The root itself is not stored, and admits further properties. -/
def mapTypes (root : Node) : Node :=
  root.store.relabel
    { format := none, notes := { root.notes with additionalProperties := some true } }

end Node

end EventSchema
