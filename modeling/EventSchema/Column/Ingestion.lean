import EventSchema.Column.Expression
import EventSchema.Column.Naming
import EventSchema.Schema.DocumentReader
import EventSchema.Storage
/-!
The columns that a store is to fill from a schema: one for each leaf, further ones joined in from
other data sets, and those that a transformation computes. Columns are listed by name.
-/
namespace EventSchema

structure Column where
  /-- Selects the value in an event. -/
  expression : String
  name : String
  dataType : Option String
  arrival : Option String
  /-- Whether a transformation computes the column. -/
  computed : Bool
  deriving DecidableEq, Repr

structure Transformation where
  key : String
  function : String
  dataType : Option String := none
  arrival : Option String := none
  isDeleted : Bool := false
  deriving DecidableEq, Repr

/-- The columns of another data set, nested under a name of their own. -/
structure Denorm where
  name : String
  document : Json
  isDeleted : Bool := false

namespace Column

/-- The column of a leaf; what the schema does not note follows from type and format. -/
def ofLeaf (naming : Naming) (segments : List String) (leaf : Node) : Column :=
  let stored := storage? leaf.type leaf.format?
  { expression := Expression.select segments
    name := naming.join segments
    dataType := leaf.notes.dataType.or (stored.map (·.2))
    arrival := (leaf.notes.arrival.or (stored.map (·.1))).map (·.name)
    computed := false }

mutual

/-- The leaves of a node and the property names that lead to them. -/
def leaves (segments : List String) : Node → List (List String × Node)
  | .object _ properties _ => propertyLeaves segments properties
  | leaf => [(segments, leaf)]

def propertyLeaves (segments : List String) : List (String × Node) → List (List String × Node)
  | [] => []
  | (name, child) :: rest => leaves (segments ++ [name]) child ++ propertyLeaves segments rest

end

/-- Leaves below an object; any other root has none. -/
def leavesBelow (segments : List String) : Node → List (List String × Node)
  | .object _ properties _ => propertyLeaves segments properties
  | _ => []

def addLeaves (naming : Naming) (columns : List (String × Column))
    (leaves : List (List String × Node)) : List (String × Column) :=
  leaves.foldl
    (fun columns (segments, leaf) =>
      let column := ofLeaf naming segments leaf
      Keyed.insert column.name column columns)
    columns

/-- The parts of a dotted key, empty ones dropped. -/
def keySegments (key : String) : List String := (Text.split '.' key).filter (· ≠ "")

/-- A computed column takes the types it does not set from the column it replaces. -/
def ofTransformation (naming : Naming) (transformation : Transformation)
    (replaced : Option Column) : Column :=
  let segments := keySegments transformation.key
  { expression := Expression.select segments
    name := naming.join segments
    dataType := transformation.dataType.or (replaced.bind (·.dataType))
    arrival := transformation.arrival.or (replaced.bind (·.arrival))
    computed := true }

def addTransformation (naming : Naming) (columns : List (String × Column))
    (transformation : Transformation) : List (String × Column) :=
  let name := naming.join (keySegments transformation.key)
  Keyed.alter name (ofTransformation naming transformation) columns

def addDenorm (naming : Naming) (columns : List (String × Column)) (denorm : Denorm) :
    Except DocumentError (List (String × Column)) := do
  let tree ← Node.ofDocument denorm.document
  return addLeaves naming columns (leavesBelow [denorm.name] tree)

/-- Later columns replace earlier ones of the same name. -/
def ofSchema (document : Json) (transformations : List Transformation) (denorms : List Denorm)
    (naming : Naming) : Except DocumentError (List Column) := do
  let tree ← Node.ofDocument document
  let own := addLeaves naming [] (leavesBelow [] tree)
  let joined ← (denorms.filter (!·.isDeleted)).foldlM (addDenorm naming) own
  let all := (transformations.filter (!·.isDeleted)).foldl (addTransformation naming) joined
  return Keyed.values all

end Column

end EventSchema
