import EventSchema.Schema.ValueType
import EventSchema.Text.Blank
import EventSchema.Text.Words

namespace EventSchema

inductive SampleError where
  | noSamples
  | noExtractionKey (dataset : String)
  | keyNotFound (key : String) (sample : Nat)
  | notExtractable (key : String) (sample : Nat) (found : ValueType)
  | notObject (found : ValueType)
  | tooDeep (depth limit : Nat)
  deriving DecidableEq, Repr

def SampleError.message : SampleError → String
  | noSamples => "At least one sample is required to generate a schema"
  | noExtractionKey dataset =>
    "Batch samples for dataset '" ++ dataset ++ "' require an extraction key"
  | keyNotFound key sample =>
    "Extraction key '" ++ key ++ "' not found in sample " ++ toString sample
  | notExtractable key sample found =>
    "Value at '" ++ key ++ "' in sample " ++ toString sample ++
      " is not an array of objects, found " ++ found.name
  | notObject found => "Invalid sample structure: expected object at root, found " ++ found.name
  | tooDeep depth limit =>
    "Maximum nesting depth exceeded: " ++ toString depth ++ " > " ++ toString limit

structure Source where
  /-- Samples are envelopes. -/
  isBatch : Bool := false
  /-- The dotted path to the events inside an envelope. -/
  extractionKey : Option String := none
  dataset : String
  deriving DecidableEq, Repr

namespace Source

def batch (dataset key : String) : Source := ⟨true, some key, dataset⟩

/-- The value that the keys lead to through objects. -/
def follow : List String → Json → Option Json
  | [], value => some value
  | key :: keys, value => (value.member? key).bind (follow keys)

def events (key : String) (sample : Nat) (envelope : Json) : Except SampleError (List Json) :=
  match follow (Text.split '.' key) envelope with
  | none => .error (.keyNotFound key sample)
  | some (.array elements) =>
    match elements.find? (!·.isObject) with
    | some element => .error (.notExtractable key sample (.ofValue element))
    | none => .ok elements
  | some found => .error (.notExtractable key sample (.ofValue found))

/-- The events of all envelopes in order. `sample` counts the envelopes. -/
def extractFrom (key : String) (sample : Nat) : List Json → Except SampleError (List Json)
  | [] => .ok []
  | envelope :: rest => do
    let first ← events key sample envelope
    let others ← extractFrom key (sample + 1) rest
    return first ++ others

def extract (key : String) (envelopes : List Json) : Except SampleError (List Json) :=
  extractFrom key 0 envelopes

/-- The key of a batch, unless there is none or it is blank. -/
def usableKey (source : Source) : Option String :=
  source.extractionKey.filter fun key => !key.toList.all Text.isBlank

def checkObjects (samples : List Json) : Except SampleError (List Json) :=
  if samples.isEmpty then .error .noSamples
  else
    match samples.find? (!·.isObject) with
    | some sample => .error (.notObject (.ofValue sample))
    | none => .ok samples

def prepare (source : Source) (samples : List Json) : Except SampleError (List Json) :=
  if samples.isEmpty then .error .noSamples
  else if source.isBatch then
    match source.usableKey with
    | none => .error (.noExtractionKey source.dataset)
    | some key => do checkObjects (← extract key samples)
  else checkObjects samples

end Source

end EventSchema
