import EventSchema.Repetition
import EventSchema.Survey.Conflict

namespace EventSchema

structure DedupKey where
  /-- The path for display. -/
  display : String
  cardinality : Float

structure Configurations where
  rollup : List RollupEntry
  dedupKeys : List DedupKey

namespace Configurations

def isDedup (conflict : Conflict) : Bool :=
  match conflict.resolution with
  | .format _ .dedup => true
  | _ => false

/-- A field tells duplicates when its format does and it is not recommended for rollup. -/
def dedupKey? (rollup : List RollupEntry) (conflict : Conflict) : Option DedupKey :=
  if isDedup conflict then
    (rollup.find? fun entry => entry.path = conflict.path && !entry.index).map fun entry =>
      ⟨entry.display, entry.cardinality⟩
  else none

/-- The most distinct key first; of equals the first by its displayed path. -/
def before (left right : DedupKey) : Bool :=
  let first := Decimal.orderKey left.cardinality
  let second := Decimal.orderKey right.cardinality
  second < first || (first = second && left.display ≤ right.display)

def suggest (conflicts : List Conflict) (rollup : List RollupEntry) : Configurations where
  rollup := rollup
  dedupKeys := (conflicts.filterMap (dedupKey? rollup)).mergeSort before

end Configurations

end EventSchema
