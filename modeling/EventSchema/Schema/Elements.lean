import EventSchema.Schema.Union

namespace EventSchema.Node

def apart (first second : Node) : Node := union {} (addBranch [first] second)

def addProperties (target newer : List (String × Node)) : List (String × Node) :=
  newer.foldl (fun properties (name, child) => Keyed.alter name (·.getD child) properties) target

mutual

def mergeElement : (target element : Node) → Node
  | union label branches, element =>
    union label ((mergeElementBranches branches element).getD (addBranch branches element))
  | scalar label type, element =>
    let label' := { label with format := element.format?.or label.format }
    if type.toValueType.family ≠ element.family then apart (scalar label type) element
    else
      match element with
      | scalar _ type' => scalar label' (if type = type' then type else .number)
      | _ => scalar label' type
  | object label properties required, element =>
    let label' := { label with format := none }
    if element.family ≠ .object then apart (object label properties required) element
    else
      match element with
      | object _ properties' required' =>
        object label' (addProperties (mergeElementProperties properties properties') properties')
          (Ordered.inter required required')
      | _ => object label' properties required
  | emptyArray label, element =>
    let label' := { label with format := none }
    if element.family ≠ .array then apart (emptyArray label) element
    else
      match element with
      | arrayOf _ items => arrayOf label' items
      | mixedArray _ => mixedArray label'
      | _ => emptyArray label'
  | arrayOf label items, element =>
    let label' := { label with format := none }
    if element.family ≠ .array then apart (arrayOf label items) element
    else
      match element with
      | arrayOf _ items' => arrayOf label' (mergeElement items items')
      | mixedArray _ => mixedArray label'
      | _ => arrayOf label' items
  | mixedArray label, element =>
    if element.family ≠ .array then apart (mixedArray label) element
    else mixedArray { label with format := none }

def mergeElementProperties :
    (properties element : List (String × Node)) → List (String × Node)
  | [], _ => []
  | (name, child) :: rest, element =>
    let merged :=
      match Keyed.lookup name element with
      | some child' => mergeElement child child'
      | none => child
    (name, merged) :: mergeElementProperties rest element

def mergeElementBranches : (branches : List Node) → (element : Node) → Option (List Node)
  | [], _ => none
  | branch :: rest, element =>
    if branch.family = element.family then some (mergeElement branch element :: rest)
    else (mergeElementBranches rest element).map (branch :: ·)

end

end EventSchema.Node
