import EventSchema.Schema.Node

namespace EventSchema

structure Field where
  property : String
  type : ValueType
  /-- Whether the object around it requires the property. -/
  isRequired : Bool
  /-- The path for display. -/
  display : String
  path : Path
  format : Option Format
  deriving DecidableEq, Repr

namespace Node

mutual

/-- The records of a property. A union of two alternatives has one for each; other unions have
none. Arrays are followed into items that are objects. -/
def fieldsOf (name : String) (isRequired : Bool) (path : Path) : Node → List Field
  | scalar label type => [⟨name, type, isRequired, path.display, path, label.format⟩]
  | object _ properties required =>
    ⟨name, .object, isRequired, path.display, path, none⟩ ::
      fieldsOfProperties path required properties
  | emptyArray _ | mixedArray _ => [⟨name, .array, isRequired, path.display, path, none⟩]
  | arrayOf _ (object _ properties required) =>
    ⟨name, .array, isRequired, path.display, path, none⟩ ::
      fieldsOfProperties path.items required properties
  | arrayOf _ _ => [⟨name, .array, isRequired, path.display, path, none⟩]
  | union _ [first, second] =>
    [⟨name, first.type, isRequired, path.display, path, first.format?⟩,
      ⟨name, second.type, isRequired, path.display, path, second.format?⟩]
  | union _ _ => []

def fieldsOfProperties (path : Path) (required : List String) : List (String × Node) → List Field
  | [] => []
  | (name, child) :: rest =>
    fieldsOf name (name ∈ required) (path.child name) child ++ fieldsOfProperties path required rest

end

/-- Starts from the properties of the root; a root that is no object has no fields. -/
def fields : Node → List Field
  | object _ properties required => fieldsOfProperties Path.root required properties
  | _ => []

end Node

end EventSchema
