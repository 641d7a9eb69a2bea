import EventSchema.Command.Generation
import EventSchema.Command.Help
import EventSchema.Command.Listing

namespace EventSchema.Command

namespace Task

def command : Task → String
  | generation _ => "generate"
  | listing _ => "fields"

def sources : Task → List String
  | generation task => [task.input]
  | listing task => task.schema :: (task.transformations.toList ++ task.denorms.toList)

def settingsFile? : Task → Option String
  | generation task => task.settings
  | listing _ => none

def readsInput (task : Task) : Bool :=
  task.sources.any StandardStream.isInputSource ||
    task.settingsFile?.any StandardStream.isInputPath

def files (task : Task) : List String :=
  task.settingsFile?.toList.filter (!StandardStream.isInputPath ·) ++
    task.sources.filter (!StandardStream.isInputSource ·)

def perform (surroundings : Surroundings) : Task → Performance
  | generation task => task.perform surroundings
  | listing task => task.perform surroundings

end Task

structure Outcome where
  code : Nat
  output : String
  log : String
  deriving DecidableEq, Repr

namespace Performance

def quieted (quiet : Bool) (performance : Performance) : Performance :=
  if quiet then
    ⟨"", performance.result.map fun delivery => { delivery with notice := "" }⟩
  else performance

def toWrite? (performance : Performance) : Option (String × String) :=
  match performance.result with
  | .ok ⟨content, some path, _⟩ =>
    if StandardStream.ofPath? path ∈ [some .output, some .log] then none else some (path, content)
  | _ => none

/-- The end of a task, given how the writing of its file went. Content without a target is printed
as a line. -/
def outcome (command : String) (written : Except String Unit) (performance : Performance) :
    Outcome :=
  match performance.result with
  | .error failure => ⟨1, "", performance.log ++ failure.report command⟩
  | .ok ⟨content, none, _⟩ => ⟨0, content ++ "\n", performance.log⟩
  | .ok ⟨content, some path, notice⟩ =>
    match StandardStream.ofPath? path, written with
    | some .output, _ => ⟨0, content, performance.log ++ notice⟩
    | some .log, _ => ⟨0, "", performance.log ++ content ++ notice⟩
    | _, .ok _ => ⟨0, "", performance.log ++ notice⟩
    | _, .error reason =>
      ⟨1, "", performance.log ++ (Failure.unwritableFile path reason).report command⟩

end Performance

def Outcome.ofHelp (topic : HelpTopic) : Outcome := ⟨0, topic.text, ""⟩

def Outcome.ofVersion : Outcome := ⟨0, versionLine, ""⟩

def Outcome.ofRefusal : Outcome := ⟨2, "", refusal⟩

end EventSchema.Command
