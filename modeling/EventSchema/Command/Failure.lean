import EventSchema.Samples.Source
import EventSchema.Schema.DocumentReader
import EventSchema.Settings.FromToml

namespace EventSchema.Command

inductive Failure where
  | unreadableFile (path reason : String)
  | unreadableInput (reason : String)
  | unreadableSettings (path reason : String)
  | settings (fault : DocumentFault)
  | notJson (source : String)
  | samples (error : SampleError)
  | document (error : DocumentError)
  | unwritableFile (path reason : String)

namespace Failure

def settingsDetail : String := "the document is not TOML, or a value has the wrong type"

def jsonDetail : String := "the text is not JSON, or a value has the wrong type"

def causes : Failure → List String
  | unreadableFile path reason => ["Failed to read " ++ path ++ ": " ++ reason]
  | unreadableInput reason => ["Invalid argument: Failed to read stdin: " ++ reason]
  | unreadableSettings path reason => ["Failed to read config '" ++ path ++ "': " ++ reason]
  | settings .unreadable => ["Failed to parse config: " ++ settingsDetail, settingsDetail]
  | settings (.invalid error) => [error.message]
  | notJson source => ["Invalid JSON in " ++ source ++ ": " ++ jsonDetail]
  | samples error => ["Schema generation failed: " ++ error.message, error.message]
  | document error => ["Field generation failed: " ++ error.message, error.message]
  | unwritableFile path reason => ["Failed to write " ++ path ++ ": " ++ reason]

/-- The lines of a cause behind its number; further lines are indented as far as the first. -/
def paragraph (label : String) (cause : String) : String :=
  let margin := String.ofList (List.replicate label.length ' ')
  label ++ Text.join ("\n" ++ margin) (Text.split '\n' cause) ++ "\n"

def numbered (number : Nat) : List String → String
  | [] => ""
  | cause :: rest =>
    paragraph ("    " ++ toString number ++ ": ") cause ++ numbered (number + 1) rest

def report (command : String) (failure : Failure) : String :=
  "Error: " ++ command ++ " failed\n\nCaused by:\n" ++
    match failure.causes with
    | [cause] => paragraph "    " cause
    | causes => numbered 0 causes

end Failure

end EventSchema.Command
