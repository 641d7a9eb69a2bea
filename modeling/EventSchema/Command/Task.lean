import EventSchema.Column.Naming
import EventSchema.Command.Switch

namespace EventSchema.Command

inductive OutputFormat where
  | json
  | yaml
  deriving DecidableEq, Repr

def OutputFormat.ofName? : String → Option OutputFormat
  | "json" => some json
  | "yaml" => some yaml
  | _ => none

/-- How a result is written, and to which file; without one to standard output. -/
structure Writing where
  format : OutputFormat
  target : Option String
  deriving DecidableEq, Repr

structure Generation where
  /-- A file, or `-` for standard input. -/
  input : String
  dataset : String
  batchKey : Option String
  /-- A file with settings. -/
  settings : Option String
  writing : Writing
  deriving DecidableEq, Repr

structure Listing where
  /-- A file, or `-` for standard input. -/
  schema : String
  naming : Naming
  transformations : Option String
  denorms : Option String
  writing : Writing
  deriving DecidableEq, Repr

inductive Task where
  | generation (task : Generation)
  | listing (task : Listing)
  deriving DecidableEq, Repr

inductive HelpTopic where
  | overview
  | generate
  | fields
  | help
  deriving DecidableEq, Repr

inductive Request where
  | run (quiet : Bool) (task : Task)
  | help (topic : HelpTopic)
  | version
  | refused
  deriving DecidableEq, Repr

/-! Switches -/

def isPath (value : String) : Bool := value ≠ ""

def anyText (_ : String) : Bool := true

def quietSwitch : Switch := ⟨some 'q', "quiet", none, "Suppress progress output on stderr"⟩

def helpSwitch : Switch := ⟨some 'h', "help", none, "Print help"⟩

def versionSwitch : Switch := ⟨some 'V', "version", none, "Print version"⟩

def formatSwitch : Switch :=
  ⟨some 'f', "format", some fun value => (OutputFormat.ofName? value).isSome,
    "[default: json] [possible values: json, yaml]"⟩

def outputSwitch : Switch := ⟨some 'o', "output", some isPath, "File to write the result to"⟩

def overviewSwitches : List Switch := [quietSwitch, helpSwitch, versionSwitch]

def generateSwitches : List Switch :=
  [⟨some 'd', "dataset", some anyText, "Dataset name [default: dataset]"⟩, quietSwitch,
    ⟨some 'b', "batch-key", some anyText, "Extract events from this dot path of each sample"⟩,
    ⟨some 'c', "config", some isPath, "Generator settings (TOML)"⟩,
    formatSwitch, outputSwitch, helpSwitch]

def fieldsSwitches : List Switch :=
  [⟨some 'n', "naming", some fun value => (Naming.ofName? value).isSome,
      "Column naming: dotted or underscored [default: dotted]"⟩,
    quietSwitch,
    ⟨some 't', "transformations", some isPath, "Transformation fields (JSON array)"⟩,
    ⟨none, "denorms", some isPath, "Denormalized fields (JSON array)"⟩,
    formatSwitch, outputSwitch, helpSwitch]

/-! Tasks from command lines -/

def Line.writing? (line : Line) : Option Writing := do
  return ⟨← OutputFormat.ofName? ((line.value? "format").getD "json"), line.value? "output"⟩

def Generation.ofLine? (line : Line) : Option Generation := do
  return { input := ← line.operand
           dataset := (line.value? "dataset").getD "dataset"
           batchKey := line.value? "batch-key"
           settings := line.value? "config"
           writing := ← line.writing? }

def Listing.ofLine? (line : Line) : Option Listing := do
  return { schema := ← line.operand
           naming := ← Naming.ofName? ((line.value? "naming").getD "dotted")
           transformations := line.value? "transformations"
           denorms := line.value? "denorms"
           writing := ← line.writing? }

def Request.ofEnding (topic : HelpTopic) : Ending → Request
  | .help => help topic
  | .version => version
  | .refused => refused

def Request.ofLine (quiet : Bool) (topic : HelpTopic) (switches : List Switch)
    (task? : Line → Option Task) (arguments : List String) : Request :=
  match Line.read switches (readLine switches arguments) with
  | .error ending => ofEnding topic ending
  | .ok line =>
    match task? line with
    | some task => run (quiet || line.has "quiet") task
    | none => refused

def HelpTopic.ofNames? : List String → Option HelpTopic
  | [] => some overview
  | ["generate"] => some generate
  | ["fields"] => some fields
  | ["help"] => some help
  | _ => none

/-- Switches before the command apply to any command. -/
def Request.ofArguments (arguments : List String) : Request :=
  let leading := arguments.takeWhile isSwitchLike
  match Line.read overviewSwitches (leading.flatMap fun argument =>
      (readArgument overviewSwitches argument).1) with
  | .error ending => ofEnding .overview ending
  | .ok line =>
    let quiet := line.has "quiet"
    match arguments.dropWhile isSwitchLike with
    | "generate" :: rest =>
      ofLine quiet .generate generateSwitches (fun line => .generation <$> Generation.ofLine? line)
        rest
    | "fields" :: rest =>
      ofLine quiet .fields fieldsSwitches (fun line => .listing <$> Listing.ofLine? line) rest
    | "help" :: names => ((HelpTopic.ofNames? names).map help).getD refused
    | _ => refused

end EventSchema.Command
