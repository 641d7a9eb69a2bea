import EventSchema.Survey.Conflict

namespace EventSchema.Conflict

def describe (types : List ValueType) : String :=
  match types.map ValueType.name with
  | [] => "no known type"
  | [only] => only
  | names => Text.join ", " names.dropLast ++ " and " ++ names.getLast?.getD ""

def message (conflict : Conflict) : String :=
  let field := "Field '" ++ conflict.property ++ "' "
  match conflict.resolution with
  | .nullField => field ++ "was null in every sample"
  | .dataType _ => field ++ "arrived as " ++ describe conflict.candidateTypes
  | .optional true => field ++ "is present in every sample but is not always declared"
  | .optional false => field ++ "is missing from some samples"
  | .format format .transformation => field ++ "looks like " ++ format.name ++ " data"
  | .format format .index => field ++ "holds " ++ format.name ++ " values"
  | .format format .dedup => field ++ "holds " ++ format.name ++ " identifiers"

def advice (conflict : Conflict) : String :=
  let place := "'" ++ conflict.path.display ++ "'"
  match conflict.resolution with
  | .nullField =>
    "Send a non-null value for " ++ place ++ " or pick one of the candidate types"
  | .dataType type =>
    "Defaulted " ++ place ++ " to " ++ type.name ++ "; send a single type for this field"
  | .optional true => "Marked " ++ place ++ " as required"
  | .optional false => "Marked " ++ place ++ " as optional"
  | .format _ .transformation => "Consider masking or hashing " ++ place ++ " during ingestion"
  | .format _ .index => "Consider " ++ place ++ " as the timestamp or an index column"
  | .format _ .dedup => "Consider " ++ place ++ " as a deduplication key"

def suggestion (conflict : Conflict) : Suggestion where
  property := conflict.property
  message := conflict.message
  advice := conflict.advice
  topic := conflict.resolution.topic
  severity := conflict.severity
  path := conflict.path.display
  arrivalConflict := false

def arrivalCandidates (conflict : Conflict) : List Arrival :=
  match conflict.resolution with
  | .dataType _ =>
    let arrivals := Arrival.distinct (conflict.candidateTypes.filterMap Arrival.accepting?)
    if arrivals.length > 1 then arrivals else []
  | _ => []

def arrivalSuggestion (conflict : Conflict) (arrivals : List Arrival) : Suggestion :=
  { conflict.suggestion with
    message := "Field '" ++ conflict.property ++ "' arrives as more than one format: " ++
      Text.join ", " (arrivals.map Arrival.name)
    advice := "Choose one arrival format for '" ++ conflict.path.display ++ "' before ingesting"
    topic := .arrivalFormat
    arrivalConflict := true }

def suggestions (conflict : Conflict) : List Suggestion :=
  let arrivals := conflict.arrivalCandidates
  conflict.suggestion ::
    if arrivals.isEmpty then [] else [conflict.arrivalSuggestion arrivals]

def annotate (conflict : Conflict) (node : Node) : Node :=
  let arrivals := conflict.arrivalCandidates
  node.withNotes
    { node.notes with
      arrivalOneOf := if arrivals.isEmpty then node.notes.arrivalOneOf else arrivals
      suggestions := node.notes.suggestions ++ conflict.suggestions }

def annotateAll (conflicts : List Conflict) (tree : Node) : Node :=
  conflicts.foldl (fun tree conflict => tree.update conflict.annotate conflict.path) tree

def allSuggestions (conflicts : List Conflict) : List Suggestion :=
  conflicts.flatMap suggestions

end EventSchema.Conflict
