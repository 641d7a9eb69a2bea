import EventSchema.Column.Ingestion
import EventSchema.Run

namespace EventSchema

def Resolution.value : Resolution → Json
  | dataType type => .string type.name
  | nullField => .string "null"
  | optional isRequired => .bool isRequired
  | format found _ => .string found.name

def Resolution.toJson (resolution : Resolution) : Json :=
  .object [("value", resolution.value), ("type", .string resolution.topic.name)]

def Conflict.toJson (conflict : Conflict) : Json :=
  .object
    [("type", .string conflict.kind.name), ("property", .string conflict.property),
      ("path", .string conflict.path.display), ("absolutePath", .string conflict.path.pointer),
      ("conflicts", .object (conflict.histogram.map fun (name, count) => (name, .ofNat count))),
      ("resolution", conflict.resolution.toJson), ("values", .strings conflict.candidates),
      ("severity", .string conflict.severity.name)]

def Field.toJson (field : Field) : Json :=
  .object
    ([("property", .string field.property), ("dataType", .string field.type.name),
      ("isRequired", .bool field.isRequired), ("path", .string field.display),
      ("absolutePath", .string field.path.pointer)] ++
    (field.format.map fun format => ("format", .string format.name)).toList)

def RollupEntry.toJson (entry : RollupEntry) : Json :=
  .object
    [("path", .string entry.display), ("cardinality", .number (.real entry.cardinality)),
      ("index", .bool entry.index)]

def DedupKey.toJson (key : DedupKey) : Json :=
  .object [("path", .string key.display), ("cardinality", .number (.real key.cardinality))]

/-- Segments of a day, queried at any granularity, are not rolled up unless asked for. -/
def Configurations.indexDefaults : Json :=
  .object
    [("granularity", .string "day"), ("queryGranularity", .string "none"), ("rollup", .bool false)]

def Configurations.toJson (configurations : Configurations) : Json :=
  .object
    [("indexConfiguration",
        .object
          [("index", indexDefaults),
            ("rollupSuggestions", .array (configurations.rollup.map RollupEntry.toJson))]),
      ("processing",
        .object
          [("dedupKeys", .array (configurations.dedupKeys.map DedupKey.toJson)),
            ("dropDuplicates", .strings ["Yes", "No"])])]

def Arrival.Entry.toJson (entry : Arrival.Entry) : Json :=
  .object
    [("jsonTypes", .strings (entry.valueTypes.map ValueType.name)),
      ("storeFormats", .strings entry.storeFormats)]

def Arrival.tableJson : Json :=
  .object (Arrival.table.map fun entry => (entry.arrival.name, entry.toJson))

def Column.toJson (column : Column) : Json :=
  .object
    ([("expr", .string column.expression), ("name", .string column.name)] ++
    (column.dataType.map fun name => ("data_type", .string name)).toList ++
    (column.arrival.map fun name => ("arrival_format", .string name)).toList ++
    [("type", .string (if column.computed then "expr" else "path"))])

/-- The result of a run: the schema, the suggested configuration, and the table of arrivals. -/
def Run.toJson (run : Run) : Json :=
  .object
    [("schema", run.document), ("configurations", run.configurations.toJson),
      ("dataMappings", Arrival.tableJson)]

end EventSchema
