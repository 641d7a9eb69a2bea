import EventSchema.Survey.Field

namespace EventSchema

structure Occurrence where
  property : String
  path : Path
  /-- One count for each record; a union of two counts twice. -/
  types : List (ValueType × Nat)
  formats : List (Format × Nat)
  /-- In how many samples the field is required. -/
  required : Nat
  /-- In how many samples the field is optional. -/
  optional : Nat
  /-- In how many samples the field occurs. -/
  presence : Nat
  deriving DecidableEq, Repr

structure Occurrences where
  /-- In the order of paths. -/
  entries : List Occurrence
  sampleCount : Nat
  deriving DecidableEq, Repr

namespace Occurrences

def histogram {κ : Type} [LT κ] [DecidableLT κ] [DecidableEq κ] (keys : List κ) : List (κ × Nat) :=
  keys.foldl (fun counts key => Keyed.tally key counts) []

def occurrence (samples : List (List Field)) (path : Path) : Occurrence :=
  let records := samples.map fun fields => fields.filter (·.path = path)
  let firsts := records.filterMap List.head?
  { property := (firsts.head?.map Field.property).getD ""
    path
    types := histogram (records.flatten.map Field.type)
    formats := histogram (records.flatten.filterMap Field.format)
    required := firsts.countP Field.isRequired
    optional := firsts.countP (!·.isRequired)
    presence := firsts.length }

def tabulate (samples : List (List Field)) : Occurrences where
  entries := (Ordered.ofList (samples.flatten.map Field.path)).map (occurrence samples)
  sampleCount := samples.length

def at? (table : Occurrences) (path : Path) : Option Occurrence :=
  table.entries.find? (·.path = path)

/-- In how many samples the object or array around a path occurs: all of them at the top. -/
def containerPresence (table : Occurrences) (path : Path) : Nat :=
  if path.container.isEmpty then table.sampleCount
  else ((table.at? path.container).map Occurrence.presence).getD table.sampleCount

end Occurrences

end EventSchema
