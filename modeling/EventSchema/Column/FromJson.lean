import EventSchema.Column.Ingestion
import EventSchema.Json.Reader
import EventSchema.Json.Record

namespace EventSchema

namespace Transformation

def fieldNames : List String :=
  ["field_key", "transformation_function", "data_type", "arrival_format", "is_deleted"]

def ofJson? (value : Json) : Option Transformation := do
  guard (value.namesOnce fieldNames)
  match ← value.fields? fieldNames with
  | [key, function, dataType, arrival, isDeleted] =>
    return { key := ← (← key).text?
             function := ← (← function).text?
             dataType := ← Json.readOr none (Json.nullable Json.text?) dataType
             arrival := ← Json.readOr none (Json.nullable Json.text?) arrival
             isDeleted := ← Json.readOr false Json.bool? isDeleted }
  | _ => none

def parse? (text : String) : Option (List Transformation) := do
  (← (← Json.Written.ofText? text).records? fieldNames).mapM ofJson?

end Transformation

namespace Denorm

def fieldNames : List String := ["denorm_out_field", "schema", "is_deleted"]

def ofJson? (value : Json) : Option Denorm := do
  guard (value.namesOnce fieldNames)
  match ← value.fields? fieldNames with
  | [name, document, isDeleted] =>
    return { name := ← (← name).text?
             document := (← document).sorted
             isDeleted := ← Json.readOr false Json.bool? isDeleted }
  | _ => none

def parse? (text : String) : Option (List Denorm) := do
  (← (← Json.Written.ofText? text).records? fieldNames).mapM ofJson?

end Denorm

end EventSchema
