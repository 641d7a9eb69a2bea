import EventSchema.Command.Task

namespace EventSchema.Command

def versionLine : String := "dataset-schema 0.3.0\n"

def spaces (count : Nat) : String := String.ofList (List.replicate count ' ')

def table (rows : List (String × String)) : String :=
  let width := (rows.map (·.1.length)).foldl max 0
  String.join (rows.map fun (left, right) =>
    "  " ++ left ++ spaces (width - left.length) ++ "  " ++ right ++ "\n")

def placeholderChar (char : Char) : Char := if char = '-' then '_' else char.toUpper

def Switch.heading (switch : Switch) : String :=
  let letter :=
    match switch.letter with
    | some letter => "-" ++ String.ofList [letter] ++ ", "
    | none => "    "
  let value :=
    if switch.takesValue then " <" ++ String.ofList (switch.name.toList.map placeholderChar) ++ ">"
    else ""
  letter ++ "--" ++ switch.name ++ value

def options (switches : List Switch) : String :=
  "Options:\n" ++ table (switches.map fun switch => (switch.heading, switch.summary))

def usage (arguments : String) : String := "Usage: dataset-schema " ++ arguments ++ "\n"

def commands : List (String × String) :=
  [("generate", "Generate a schema, suggestions and configuration from samples"),
    ("fields", "Flatten a generated schema into ingestion field descriptors"),
    ("help", "Print this message or the help of the given subcommand(s)")]

def about (command : String) : String := (commands.lookup command).getD "" ++ "\n\n"

def HelpTopic.text : HelpTopic → String
  | overview =>
    "Infer dataset schemas from sample events\n\n" ++ usage "[OPTIONS] <COMMAND>" ++
      "\nCommands:\n" ++ table commands ++ "\n" ++ options overviewSwitches
  | generate =>
    about "generate" ++ usage "generate [OPTIONS] <INPUT>" ++ "\nArguments:\n" ++
      table [("<INPUT>", "Samples file (JSON array or JSON lines), or '-' for stdin")] ++ "\n" ++
      options generateSwitches
  | fields =>
    about "fields" ++ usage "fields [OPTIONS] <SCHEMA>" ++ "\nArguments:\n" ++
      table [("<SCHEMA>", "Schema file, or '-' for stdin")] ++ "\n" ++ options fieldsSwitches
  | help =>
    about "help" ++ usage "help [COMMAND]..." ++ "\nArguments:\n" ++
      table [("[COMMAND]...", "Print help for the subcommand(s)")]

def refusal : String :=
  "error: invalid arguments\n\n" ++ usage "[OPTIONS] <COMMAND>" ++
    "\nFor more information, try '--help'.\n"

end EventSchema.Command
