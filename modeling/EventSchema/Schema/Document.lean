import EventSchema.Schema.Node

namespace EventSchema

def Suggestion.toJson (suggestion : Suggestion) : Json :=
  .object (Keyed.ofList
    ([("property", .string suggestion.property), ("message", .string suggestion.message),
      ("advice", .string suggestion.advice), ("resolutionType", .string suggestion.topic.name),
      ("severity", .string suggestion.severity.name), ("path", .string suggestion.path)] ++
      if suggestion.arrivalConflict then [("arrivalConflict", .bool true)] else []))

namespace Node

def dialect : String := "https://json-schema.org/draft/2020-12/schema"

def alternatives (names : List String) : Json :=
  .array (names.map fun name => .object [("type", .string name)])

def labelKeywords (label : Label) : List (String × Json) :=
  let notes := label.notes
  (label.format.map fun format => ("format", .string format.name)).toList ++
  (notes.additionalProperties.map fun allowed => ("additionalProperties", .bool allowed)).toList ++
  (notes.arrival.map fun arrival => ("arrival_format", .string arrival.name)).toList ++
  (notes.dataType.map fun name => ("data_type", .string name)).toList ++
  (if notes.oneOf.isEmpty then [] else [("oneof", alternatives (notes.oneOf.map (·.name)))]) ++
  (if notes.arrivalOneOf.isEmpty then []
    else [("arrivalOneOf", alternatives (notes.arrivalOneOf.map (·.name)))]) ++
  if notes.suggestions.isEmpty then []
  else [("suggestions", .array (notes.suggestions.map Suggestion.toJson))]

mutual

/-- The keywords of a node. The note on additional properties outweighs the mark of an array whose
elements are left undescribed. -/
def keywords : Node → List (String × Json)
  | scalar label type => ("type", .string type.toValueType.name) :: labelKeywords label
  | object label properties required =>
    ("type", .string "object") :: ("properties", .object (renderProperties properties)) ::
      ((if required.isEmpty then [] else [("required", .strings required)]) ++ labelKeywords label)
  | emptyArray label => ("type", .string "array") :: labelKeywords label
  | arrayOf label items =>
    ("type", .string "array") :: ("items", .object (Keyed.ofList (keywords items))) ::
      labelKeywords label
  | mixedArray label =>
    ("type", .string "array") :: ("additionalProperties", .bool false) :: labelKeywords label
  | union label branches => ("anyOf", .array (renderBranches branches)) :: labelKeywords label

def renderProperties : List (String × Node) → List (String × Json)
  | [] => []
  | (name, child) :: rest =>
    (name, .object (Keyed.ofList (keywords child))) :: renderProperties rest

def renderBranches : List Node → List Json
  | [] => []
  | branch :: rest => .object (Keyed.ofList (keywords branch)) :: renderBranches rest

end

def render (node : Node) : Json := .object (Keyed.ofList node.keywords)

def document (node : Node) : Json :=
  .object (Keyed.ofList (("$schema", .string dialect) :: node.keywords))

end Node

end EventSchema
