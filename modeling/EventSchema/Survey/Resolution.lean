import EventSchema.Survey.Conflict

namespace EventSchema.Conflict

/-- The first sample's node of a type at a path, to borrow its shape. -/
def template? (perSample : List Node) (path : Path) (type : ValueType) : Option Node :=
  (perSample.filterMap (Node.get? path)).find? (·.type = type)

/-- Strings have any format, numbers only epochs, and other values none. -/
def formatFits : ValueType → Format → Bool
  | .string, _ => true
  | .integer, format | .number, format => format = .epoch
  | _, _ => false

def retypeNode (perSample : List Node) (conflict : Conflict) (type : ValueType) (node : Node) :
    Node :=
  let retyped := node.retype type (template? perSample conflict.path type)
  let fitting := retyped.withFormat (retyped.format?.filter (formatFits type))
  fitting.withNotes
    { fitting.notes with oneOf := ValueType.familiesByName conflict.candidateTypes }

def nullNode (node : Node) : Node :=
  let null := (node.retype .null none).withFormat none
  null.withNotes
    { null.notes with oneOf := Arrival.families, arrivalOneOf := Arrival.table.map (·.arrival) }

def requireProperty (name : String) (isRequired : Bool) : Node → Node
  | .object label properties required =>
    .object label properties
      (if isRequired then Ordered.insert name required else Ordered.erase name required)
  | other => other

/-- Applies one resolution; nothing happens when its path is not in the tree. -/
def resolve (perSample : List Node) (tree : Node) (conflict : Conflict) : Node :=
  match conflict.resolution with
  | .dataType type => tree.update (retypeNode perSample conflict type) conflict.path
  | .nullField => tree.update nullNode conflict.path
  | .optional isRequired =>
    match conflict.path.parent?, conflict.path.lastName? with
    | some parent, some name => tree.update (requireProperty name isRequired) parent
    | _, _ => tree
  | .format _ _ => tree

/-- Applies the resolutions in the order of conflicts. The trees of the samples lend their shape to
nodes that become objects or arrays. -/
def resolveAll (perSample : List Node) (conflicts : List Conflict) (tree : Node) : Node :=
  conflicts.foldl (resolve perSample) tree

end EventSchema.Conflict
