import EventSchema.Decimal.Notation
import EventSchema.Json.Writer
import EventSchema.Schema.Node
import EventSchema.Settings.Basic

namespace EventSchema

structure RollupEntry where
  path : Path
  /-- The path for display. -/
  display : String
  /-- A hundred less the share in percent of the most frequent value, to two places. -/
  cardinality : Float
  /-- Whether the share reaches the ratio. -/
  index : Bool

namespace Repetition

/-- Strings stand for themselves and other values for their text. -/
def valueText : Json → String
  | .string text => text
  | value => value.compact

def isUnique (formats : List Format) (format : Option Format) : Bool :=
  format.any (· ∈ formats)

mutual

/-- The values that a row has at the scalars of unique formats, with their paths. Null is no value,
and what does not fit the schema is passed over. -/
def valuesAt (formats : List Format) (path : Path) : Node → Json → List (Path × String)
  | .scalar label _, value =>
    match value with
    | .null => []
    | value => if isUnique formats label.format then [(path, valueText value)] else []
  | .object _ properties _, value =>
    match value with
    | .object members => valuesAtProperties formats path properties members
    | _ => []
  | .arrayOf _ items, value =>
    match value with
    | .array elements => elements.flatMap (valuesAt formats path.items items)
    | _ => []
  | .emptyArray _, _ => []
  | .mixedArray _, _ => []
  | .union _ _, _ => []
termination_by structural node => node

def valuesAtProperties (formats : List Format) (path : Path) :
    List (String × Node) → List (String × Json) → List (Path × String)
  | [], _ => []
  | (name, child) :: rest, members =>
    (match Keyed.lookup name members with
      | some value => valuesAt formats (path.child name) child value
      | none => []) ++
    valuesAtProperties formats path rest members
termination_by structural properties => properties

end

def highest (counts : List (String × Nat)) : Nat :=
  counts.foldl (fun most (_, count) => max most count) 0

/-- To two places, and within 0 to 100. -/
def round2 (value : Float) : Float := Settings.clampPercent ((value * 100.0).round / 100.0)

def summarise (ratio : Float) (path : Path) (values : List String) : RollupEntry :=
  let counts := values.foldl (fun counts value => Keyed.tally value counts) []
  let share := (highest counts).toFloat / values.length.toFloat * 100.0
  { path, display := path.display, cardinality := round2 (100.0 - share), index := share ≥ ratio }

/-- One entry for each field that has values, in the order of paths. -/
def analyse (ratio : Float) (formats : List Format) (rows : List Json) (schema : Node) :
    List RollupEntry :=
  let found := rows.flatMap (valuesAt formats Path.root schema)
  let grouped :=
    found.foldl
      (fun grouped (path, value) =>
        Keyed.alter path (fun values => value :: values.getD []) grouped)
      []
  grouped.map fun (path, values) => summarise (Settings.clampPercent ratio) path values

end Repetition

end EventSchema
