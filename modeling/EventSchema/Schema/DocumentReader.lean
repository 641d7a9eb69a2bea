import EventSchema.Schema.Node
/-!
Reading JSON Schema documents as schema trees. A list of types, `anyOf` or `oneOf` becomes a union;
unknown keywords and formats are ignored.
-/
namespace EventSchema

inductive DocumentError where
  | nodeNotObject (path : Path)
  | typeListNotStrings (path : Path)
  | typeNotStringOrList (path : Path)
  | missingType (path : Path)
  | propertiesNotObject (path : Path)
  | unsupportedType (path : Path) (name : String)
  deriving DecidableEq, Repr

namespace DocumentError

def invalid (path : Path) (detail : String) : String :=
  "Invalid schema structure at '" ++ path.pointer ++ "': " ++ detail

def message : DocumentError → String
  | nodeNotObject path => invalid path "schema node must be an object"
  | typeListNotStrings path => invalid path "type list must contain strings"
  | typeNotStringOrList path => invalid path "type must be a string or list"
  | missingType path => invalid path "missing type"
  | propertiesNotObject path => invalid path "properties must be an object"
  | unsupportedType path name => "Unsupported type '" ++ name ++ "' at '" ++ path.pointer ++ "'"

end DocumentError

namespace Node

def readType (path : Path) (name : String) : Except DocumentError ValueType :=
  match ValueType.ofName? name with
  | some type => .ok type
  | none => .error (.unsupportedType path name)

def readFormat (members : List (String × Json)) : Option Format := do
  Format.ofName? (← (← Keyed.lookup "format" members).text?)

/-- Names in the `required` list; entries that are not strings are ignored. -/
def readRequired (members : List (String × Json)) : List String :=
  match Keyed.lookup "required" members with
  | some (.array names) => names.filterMap Json.text?
  | _ => []

def readNotes (members : List (String × Json)) (node : Node) : Notes where
  arrival := do Arrival.ofName? (← (← Keyed.lookup "arrival_format" members).text?)
  dataType := do (← Keyed.lookup "data_type" members).text?
  additionalProperties :=
    if node.type = .array then none
    else do (← Keyed.lookup "additionalProperties" members).bool?

/-- What the members of one schema object that hold schemas read as, where present. Alternatives
read as nothing when they are no list. -/
structure Parts where
  properties : Option (Except DocumentError (List (String × Node)))
  items : Option (Except DocumentError Node)
  anyOf : Option (Option (Except DocumentError (List Node)))
  oneOf : Option (Option (Except DocumentError (List Node)))

/-- A node of one type. Only names of properties can be required. -/
def assembleTyped (members : List (String × Json)) (parts : Parts) :
    ValueType → Except DocumentError Node
  | .object =>
    match parts.properties with
    | none => .ok (object {} [] [])
    | some read => do
      let properties ← read
      let required := readRequired members
      return object {} properties ((Keyed.keys properties).filter (· ∈ required))
  | .array =>
    match parts.items with
    | some read => arrayOf {} <$> read
    | none =>
      match Keyed.lookup "additionalProperties" members with
      | some (.bool false) => .ok (mixedArray {})
      | _ => .ok (emptyArray {})
  | type => .ok ((ofType type).withFormat (readFormat members))

def assembleNamed (path : Path) (members : List (String × Json)) (parts : Parts) :
    Json → Except DocumentError Node
  | .string name => do assembleTyped members parts (← readType path name)
  | _ => .error (.typeListNotStrings path)

/-- Without a type, alternatives make a union and properties an object. -/
def assemble (path : Path) (members : List (String × Json)) (parts : Parts) :
    Except DocumentError Node := do
  let node ←
    match Keyed.lookup "type" members with
    | some (.string name) => assembleNamed path members parts (.string name)
    | some (.array names) => union {} <$> names.mapM (assembleNamed path members parts)
    | some _ => .error (.typeNotStringOrList path)
    | none =>
      match parts.anyOf.or parts.oneOf with
      | some (some branches) => union {} <$> branches
      | _ =>
        if parts.properties.isSome then assembleTyped members parts .object
        else .error (.missingType path)
  return node.withNotes (readNotes members node)

mutual

def readNode (path : Path) : Json → Except DocumentError Node
  | .object members =>
    assemble path members
      { properties := readProperties path members
        items := readItems path members
        anyOf := readAlternatives path "anyOf" members
        oneOf := readAlternatives path "oneOf" members }
  | _ => .error (.nodeNotObject path)

def readItems (path : Path) : List (String × Json) → Option (Except DocumentError Node)
  | [] => none
  | (key, value) :: rest =>
    if key = "items" then some (readNode path.items value) else readItems path rest

def readProperties (path : Path) :
    List (String × Json) → Option (Except DocumentError (List (String × Node)))
  | [] => none
  | (key, value) :: rest =>
    if key = "properties" then
      match value with
      | .object children => some (readChildren path children)
      | _ => some (.error (.propertiesNotObject path))
    else readProperties path rest

def readAlternatives (path : Path) (keyword : String) :
    List (String × Json) → Option (Option (Except DocumentError (List Node)))
  | [] => none
  | (key, value) :: rest =>
    if key = keyword then
      match value with
      | .array branches => some (some (readBranches path branches))
      | _ => some none
    else readAlternatives path keyword rest

def readChildren (path : Path) :
    List (String × Json) → Except DocumentError (List (String × Node))
  | [] => .ok []
  | (name, value) :: rest => do
    let child ← readNode (path.child name) value
    let children ← readChildren path rest
    return (name, child) :: children

def readBranches (path : Path) : List Json → Except DocumentError (List Node)
  | [] => .ok []
  | value :: rest => do
    let branch ← readNode path value
    let branches ← readBranches path rest
    return branch :: branches

end

def ofDocument (document : Json) : Except DocumentError Node := readNode Path.root document

end Node

end EventSchema
