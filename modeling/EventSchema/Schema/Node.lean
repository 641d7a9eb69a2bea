import EventSchema.Keyed
import EventSchema.Schema.Arrival
import EventSchema.Schema.Format
import EventSchema.Schema.Path
import EventSchema.Schema.Suggestion
/-!
Schema trees. A node describes the values at one place: scalars of one type, objects by their
properties, arrays by their items, or a union of alternatives. Properties and required names are in
strictly increasing order.
-/
namespace EventSchema

structure Notes where
  arrival : Option Arrival := none
  dataType : Option String := none
  /-- Families of the types found in conflict. -/
  oneOf : List ValueType := []
  /-- Arrival formats of the types found in conflict. -/
  arrivalOneOf : List Arrival := []
  suggestions : List Suggestion := []
  additionalProperties : Option Bool := none
  deriving DecidableEq, Repr

structure Label where
  format : Option Format := none
  notes : Notes := {}
  deriving DecidableEq, Repr

inductive Node where
  | scalar (label : Label) (type : ScalarType)
  | object (label : Label) (properties : List (String × Node)) (required : List String)
  /-- An array of which no element has been seen. -/
  | emptyArray (label : Label)
  | arrayOf (label : Label) (items : Node)
  /-- An array whose elements are left undescribed because samples disagree on them. -/
  | mixedArray (label : Label)
  | union (label : Label) (branches : List Node)
  deriving Repr

namespace Node

def label : Node → Label
  | scalar label _ | object label _ _ | emptyArray label | arrayOf label _ | mixedArray label
  | union label _ => label

def relabel (label : Label) : Node → Node
  | scalar _ type => scalar label type
  | object _ properties required => object label properties required
  | emptyArray _ => emptyArray label
  | arrayOf _ items => arrayOf label items
  | mixedArray _ => mixedArray label
  | union _ branches => union label branches

def format? (node : Node) : Option Format := node.label.format

def notes (node : Node) : Notes := node.label.notes

def withFormat (format : Option Format) (node : Node) : Node :=
  node.relabel { node.label with format }

def withNotes (notes : Notes) (node : Node) : Node :=
  node.relabel { node.label with notes }

/-- The type of the values described. A union reports its first branch. -/
def type : Node → ValueType
  | scalar _ type => type
  | object _ _ _ => .object
  | emptyArray _ | arrayOf _ _ | mixedArray _ => .array
  | union _ [] => .null
  | union _ (branch :: _) => branch.type

def family (node : Node) : ValueType := node.type.family

def ofType : ValueType → Node
  | .string => scalar {} .string
  | .number => scalar {} .number
  | .integer => scalar {} .integer
  | .boolean => scalar {} .boolean
  | .object => object {} [] []
  | .array => emptyArray {}
  | .null => scalar {} .null

def isObject : Node → Bool
  | object _ _ _ => true
  | _ => false

def isMixedArray : Node → Bool
  | mixedArray _ => true
  | _ => false

def properties? : Node → Option (List (String × Node))
  | object _ properties _ => some properties
  | _ => none

def required? : Node → Option (List String)
  | object _ _ required => some required
  | _ => none

def items? : Node → Option Node
  | arrayOf _ items => some items
  | _ => none

def insertProperty (name : String) (child : Node) (isRequired : Bool) : Node → Node
  | object label properties required =>
    object label (Keyed.insert name child properties)
      (if isRequired then Ordered.insert name required else required)
  | other => other

def step? : Step → Node → Option Node
  | .property name, object _ properties _ => Keyed.lookup name properties
  | .items, arrayOf _ items => some items
  | _, _ => none

def get? : Path → Node → Option Node
  | [], node => some node
  | step :: path, node => (node.step? step).bind (get? path)

def update (change : Node → Node) : Path → Node → Node
  | [], node => change node
  | .property name :: path, object label properties required =>
    match Keyed.lookup name properties with
    | some child => object label (Keyed.insert name (update change path child) properties) required
    | none => object label properties required
  | .items :: path, arrayOf label items => arrayOf label (update change path items)
  | _ :: _, node => node

/-- Changes the type of a node. A union collapses onto its branch of the target type; a node that
has the type already keeps its shape; otherwise an object or array takes its shape from the template
if that has the type, and all else starts empty. -/
def retype (target : ValueType) (template : Option Node) (node : Node) : Node :=
  let reshaped : Node :=
    let shape :=
      match template with
      | some sample => if sample.type = target && target.isStructural then sample else ofType target
      | none => ofType target
    shape.relabel (if target.isStructural then { node.label with format := none } else node.label)
  match node with
  | union label branches =>
    match branches.find? (·.type = target) with
    | some branch => branch.relabel { label with format := branch.format? }
    | none => reshaped
  | _ => if node.type = target then node else reshaped

end Node

end EventSchema
