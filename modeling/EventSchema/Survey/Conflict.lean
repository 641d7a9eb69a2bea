import EventSchema.Survey.Occurrence

namespace EventSchema

inductive FormatAction where
  /-- Sensitive values are worth masking or hashing. -/
  | transformation
  /-- Times are worth an index. -/
  | index
  /-- Identifiers tell duplicates. -/
  | dedup
  deriving DecidableEq, Repr

namespace FormatAction

def ofFormat : Format → FormatAction
  | .email | .creditCard | .ipv4 | .ipv6 => transformation
  | .date | .dateTime | .time | .epoch => index
  | .uuid | .uri => dedup

def topic : FormatAction → Topic
  | transformation => .transformation
  | index => .index
  | dedup => .dedup

end FormatAction

inductive Resolution where
  | dataType (type : ValueType)
  | nullField
  | optional (isRequired : Bool)
  /-- Advice only; the schema stays as it is. -/
  | format (format : Format) (action : FormatAction)
  deriving DecidableEq, Repr

def Resolution.topic : Resolution → Topic
  | dataType _ => .dataType
  | nullField => .nullField
  | optional _ => .optional
  | format _ action => action.topic

inductive ConflictKind where
  | nullField
  | dataType
  | optionalType
  | format (format : Format)
  deriving DecidableEq, Repr

def ConflictKind.name : ConflictKind → String
  | nullField => "NULL_FIELD"
  | dataType => "DATA_TYPE"
  | optionalType => "OPTIONAL_TYPE"
  | format found => found.name

structure Conflict where
  kind : ConflictKind
  property : String
  path : Path
  /-- The counts that show the conflict, by name. -/
  histogram : List (String × Nat)
  candidates : List String
  severity : Severity
  resolution : Resolution
  deriving DecidableEq, Repr

namespace Conflict

def candidateTypes (conflict : Conflict) : List ValueType :=
  conflict.candidates.filterMap ValueType.ofName?

def named {κ : Type} (name : κ → String) (counts : List (κ × Nat)) : List (String × Nat) :=
  Keyed.ofList (counts.map fun (key, count) => (name key, count))

def nullOnly (occurrence : Occurrence) : Bool :=
  match occurrence.types with
  | [(.null, _)] => true
  | _ => false

def ofNull (occurrence : Occurrence) : Conflict where
  kind := .nullField
  property := occurrence.property
  path := occurrence.path
  histogram := named ValueType.name occurrence.types
  candidates := []
  severity := .mustFix
  resolution := .nullField

def concrete (types : List (ValueType × Nat)) : List (ValueType × Nat) :=
  types.filter (·.1 ≠ .null)

/-- The most frequent type; null counts only when there is no other. -/
def majorityType (types : List (ValueType × Nat)) : ValueType :=
  (Keyed.majority (if types.length = 1 then types else concrete types)).getD .null

def ofTypes (occurrence : Occurrence) : Conflict where
  kind := .dataType
  property := occurrence.property
  path := occurrence.path
  histogram := named ValueType.name occurrence.types
  candidates := (concrete occurrence.types).map (·.1.name)
  severity := .mustFix
  resolution := .dataType (majorityType occurrence.types)

def boolName (value : Bool) : String := if value then "true" else "false"

/-- A field is required in fact when it occurs in more than one sample and in every sample that has
its container. -/
def ofRequired? (table : Occurrences) (occurrence : Occurrence) : Option Conflict :=
  let declared : Bool := occurrence.required > occurrence.optional
  let container := table.containerPresence occurrence.path
  let actual : Bool := occurrence.presence > 1 && occurrence.presence ≥ container
  if declared = actual then none
  else
    some
      { kind := .optionalType
        property := occurrence.property
        path := occurrence.path
        histogram :=
          [("absent", container - occurrence.presence), ("present", occurrence.presence)]
        candidates := [boolName declared, boolName actual]
        severity := .medium
        resolution := .optional actual }

def ofFormats? (occurrence : Occurrence) : Option Conflict :=
  (Keyed.majority occurrence.formats).map fun format =>
    { kind := .format format
      property := occurrence.property
      path := occurrence.path
      histogram := named Format.name occurrence.formats
      candidates := occurrence.formats.map (·.1.name)
      severity := .low
      resolution := .format format (.ofFormat format) }

def ofOccurrence (table : Occurrences) (occurrence : Occurrence) : List Conflict :=
  (if nullOnly occurrence then [ofNull occurrence]
    else if occurrence.types.length > 1 then [ofTypes occurrence]
    else []) ++
  (if table.sampleCount > 1 then (ofRequired? table occurrence).toList else []) ++
  (ofFormats? occurrence).toList

/-- All conflicts in the order of paths. -/
def classify (table : Occurrences) : List Conflict := table.entries.flatMap (ofOccurrence table)

end Conflict

end EventSchema
