import EventSchema.Configurations
import EventSchema.Samples.Inference
import EventSchema.Schema.Document
import EventSchema.Schema.Merge
import EventSchema.Storage
import EventSchema.Survey.Advice
import EventSchema.Survey.Homogeneity
import EventSchema.Survey.Resolution

namespace EventSchema

inductive Stage where
  | infer
  | merge
  | validateArrays
  | tabulate
  | classify
  | cardinality
  | applyResolutions
  | composeSuggestions
  | mapTypes
  | suggestConfig
  deriving DecidableEq, Repr

namespace Stage

def all : List Stage :=
  [infer, merge, validateArrays, tabulate, classify, cardinality, applyResolutions,
    composeSuggestions, mapTypes, suggestConfig]

def name : Stage → String
  | infer => "infer"
  | merge => "merge"
  | validateArrays => "validate_arrays"
  | tabulate => "tabulate"
  | classify => "classify"
  | cardinality => "cardinality"
  | applyResolutions => "apply_resolutions"
  | composeSuggestions => "compose_suggestions"
  | mapTypes => "map_types"
  | suggestConfig => "suggest_config"

end Stage

/-- What every stage of a run found. -/
structure Run where
  samples : List Json
  /-- One tree for each sample. -/
  inferred : List Node
  merged : Node
  /-- The trees with arrays that differ degraded. -/
  comparison : Comparison
  fields : List (List Field)
  occurrences : Occurrences
  conflicts : List Conflict
  rollup : List RollupEntry
  resolved : Node
  annotated : Node
  suggestions : List Suggestion
  stored : Node
  configurations : Configurations

namespace Run

def ofTrees (settings : Settings) (samples : List Json) (inferred : List Node) (merged : Node) :
    Run :=
  let comparison := Comparison.compare inferred merged
  let fields := comparison.perSample.map Node.fields
  let occurrences := Occurrences.tabulate fields
  let conflicts := Conflict.classify occurrences
  let rollup :=
    Repetition.analyse settings.rollupRatio settings.uniqueFormats samples comparison.merged
  let resolved := Conflict.resolveAll comparison.perSample conflicts comparison.merged
  let annotated := Conflict.annotateAll conflicts resolved
  { samples, inferred, merged, comparison, fields, occurrences, conflicts, rollup, resolved
    annotated
    suggestions := Conflict.allSuggestions conflicts
    stored := annotated.mapTypes
    configurations := Configurations.suggest conflicts rollup }

/-- Runs all stages on samples that have been prepared. No samples at all are an error here too. -/
def ofSamples (settings : Settings) (samples : List Json) : Except SampleError Run := do
  let inferred ← Node.ofSamples settings samples
  match Node.mergeAll? inferred with
  | some merged => return ofTrees settings samples inferred merged
  | none => .error .noSamples

def generate (settings : Settings) (source : Source) (samples : List Json) :
    Except SampleError Run := do
  ofSamples settings (← source.prepare samples)

def document (run : Run) : Json := run.stored.document

end Run

end EventSchema
