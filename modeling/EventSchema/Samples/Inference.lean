import EventSchema.Format.Detection
import EventSchema.Samples.Source
import EventSchema.Schema.Elements
import EventSchema.Settings.Basic
/-!
The schema tree of a single sample. Every key of an object is required; whether a key is optional
only shows when samples are compared.
-/
namespace EventSchema

namespace Node

def ofNumber (number : Json.Number) : Node :=
  let label : Label := { format := if Format.isEpochNumber number then some .epoch else none }
  match number with
  | .whole _ => scalar label .integer
  | .real _ => scalar label .number

def addElement (items : Option Node) (element : Node) : Node :=
  match items with
  | some merged => mergeElement merged element
  | none => element

def ofItems : Option Node → Node
  | some items => arrayOf {} items
  | none => emptyArray {}

/-- Refuses a value that nests too deep before looking into it. -/
def bounded (settings : Settings) (depth : Nat) (schema : Except SampleError Node) :
    Except SampleError Node :=
  if depth > settings.maxDepth then .error (.tooDeep depth settings.maxDepth) else schema

mutual

def infer (settings : Settings) (depth : Nat) : Json → Except SampleError Node
  | .null => bounded settings depth (.ok (scalar {} .null))
  | .bool _ => bounded settings depth (.ok (scalar {} .boolean))
  | .number number => bounded settings depth (.ok (ofNumber number))
  | .string text =>
    bounded settings depth
      (.ok (scalar { format := Format.ofText? settings.detectFormats text } .string))
  | .array elements =>
    bounded settings depth (ofItems <$> inferElements settings (depth + 1) none elements)
  | .object members =>
    bounded settings depth do
      let properties ← inferMembers settings (depth + 1) members
      return object {} properties (Keyed.keys properties)

def inferElements (settings : Settings) (depth : Nat) (items : Option Node) :
    List Json → Except SampleError (Option Node)
  | [] => .ok items
  | element :: rest => do
    let next ← infer settings depth element
    inferElements settings depth (some (addElement items next)) rest

def inferMembers (settings : Settings) (depth : Nat) :
    List (String × Json) → Except SampleError (List (String × Node))
  | [] => .ok []
  | (key, value) :: rest => do
    let child ← infer settings depth value
    let others ← inferMembers settings depth rest
    return (key, child) :: others

end

def ofSample (settings : Settings) (sample : Json) : Except SampleError Node :=
  if sample.isObject then infer settings 0 sample else .error (.notObject (.ofValue sample))

def ofSamples (settings : Settings) (samples : List Json) : Except SampleError (List Node) :=
  samples.mapM (ofSample settings)

end Node

end EventSchema
