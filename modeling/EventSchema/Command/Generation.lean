import EventSchema.Command.Performance
import EventSchema.Json.Reader
import EventSchema.Report

namespace EventSchema.Command

/-- A sample a line, from the line of the given number on. Blank lines count, but hold nothing. -/
def samplesOfLines (source : String) (number : Nat) : List String → Except Failure (List Json)
  | [] => .ok []
  | line :: rest =>
    if line.toList.all Text.isBlank then samplesOfLines source (number + 1) rest
    else
      match Json.parse? line with
      | none => .error (.notJson (source ++ " line " ++ toString number))
      | some sample => (sample :: ·) <$> samplesOfLines source (number + 1) rest

/-- The elements of an array, a single value, or a value a line. -/
def samplesOfText (source text : String) : Except Failure (List Json) :=
  match Json.parse? text with
  | some (.array samples) => .ok samples
  | some sample => .ok [sample]
  | none => samplesOfLines source 1 (Text.split '\n' text)

def suggestionLines (suggestion : Suggestion) : String :=
  "  [" ++ suggestion.severity.name ++ "] " ++ suggestion.path ++ " (" ++ suggestion.topic.name ++
    "): " ++ suggestion.message ++ "\n" ++
    if suggestion.advice = "" then "" else "      " ++ suggestion.advice ++ "\n"

def dedupLine (keys : List DedupKey) : String :=
  if keys.isEmpty then ""
  else
    "Dedup key candidates: " ++
      Text.join ", " (keys.map fun key =>
        key.display ++ " (" ++ Decimal.hundredths key.cardinality ++ ")") ++ "\n"

def conflictSummary (run : Run) : String :=
  if run.suggestions.isEmpty then "No conflicts across samples\n"
  else
    toString run.suggestions.length ++ " suggestion(s):\n" ++
      String.join (run.suggestions.map suggestionLines) ++ dedupLine run.configurations.dedupKeys

namespace Generation

def source (task : Generation) : Source :=
  match task.batchKey with
  | some key => .batch task.dataset key
  | none => { dataset := task.dataset }

def loadSettings (surroundings : Surroundings) : Option String → Except Failure Settings
  | none => .ok {}
  | some path => do
    let text ← (surroundings.textAt false path).mapError (.unreadableSettings path)
    (Settings.ofToml text).mapError .settings

def load (task : Generation) (surroundings : Surroundings) :
    Except Failure (Settings × List Json) := do
  let settings ← loadSettings surroundings task.settings
  let text ← surroundings.load (task.settings.any StandardStream.isInputPath) task.input
  return (settings, ← samplesOfText task.input text)

def opening (task : Generation) (samples : List Json) : String :=
  "Inferring schema for '" ++ task.dataset ++ "' from " ++ toString samples.length ++
    " sample(s)\n"

def notice (task : Generation) : String :=
  match task.writing.target with
  | some path => "Wrote schema to " ++ path ++ "\n"
  | none => ""

def perform (task : Generation) (surroundings : Surroundings) : Performance :=
  match task.load surroundings with
  | .error failure => ⟨"", .error failure⟩
  | .ok (settings, samples) =>
    match Run.generate settings task.source samples with
    | .error error => ⟨task.opening samples, .error (.samples error)⟩
    | .ok run =>
      ⟨task.opening samples ++ conflictSummary run,
        .ok ⟨task.writing.render run.toJson, task.writing.target, task.notice⟩⟩

end Generation

end EventSchema.Command
