import EventSchema.Json.Record
import EventSchema.Samples.Source
import EventSchema.Settings.Basic

namespace EventSchema

/-- A format is its name, or an object with the name as its only key and nothing under it. -/
def Format.ofJson? : Json → Option Format
  | .string name => ofName? name
  | .object [(name, .null)] => ofName? name
  | _ => none

def Format.listOfJson? (value : Json) : Option (List Format) := do
  (← value.elements?).mapM ofJson?

namespace Settings

def fieldNames : List String := ["rollupRatio", "uniqueFormats", "maxDepth", "detectFormats"]

def ofJson? (value : Json) : Option Settings := do
  let standard : Settings := {}
  match ← value.fields? fieldNames with
  | [ratio, formats, depth, detect] =>
    return { rollupRatio := ← Json.readOr standard.rollupRatio Json.float? ratio
             uniqueFormats := ← Json.readOr standard.uniqueFormats Format.listOfJson? formats
             maxDepth := ← Json.readOr standard.maxDepth Json.nat? depth
             detectFormats := ← Json.readOr standard.detectFormats Json.bool? detect }
  | _ => none

def toJson (settings : Settings) : Json :=
  .object [("rollupRatio", .number (.real settings.rollupRatio)),
    ("uniqueFormats", .strings (settings.uniqueFormats.map (·.name))),
    ("maxDepth", .ofNat settings.maxDepth), ("detectFormats", .bool settings.detectFormats)]

end Settings

namespace Source

def fieldNames : List String := ["isBatch", "extractionKey", "dataset"]

def ofJson? (value : Json) : Option Source := do
  match ← value.fields? fieldNames with
  | [isBatch, key, dataset] =>
    return { isBatch := ← Json.readOr false Json.bool? isBatch
             extractionKey := ← Json.readOr none (Json.nullable Json.text?) key
             dataset := ← (← dataset).text? }
  | _ => none

def toJson (source : Source) : Json :=
  .object ([("isBatch", .bool source.isBatch)] ++
    (source.extractionKey.map fun key => ("extractionKey", .string key)).toList ++
    [("dataset", .string source.dataset)])

end Source

end EventSchema
