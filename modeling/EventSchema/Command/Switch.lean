import EventSchema.Text.Words
/-!
Command lines. A switch has a long name, mostly a letter too, and stands alone or takes a value:
`--name value`, `--name=value`, `-n value`, `-nvalue` or `-n=value`. Letters of switches that stand
alone can share a dash. After `--` nothing is a switch any more.
-/
namespace EventSchema.Command

structure Switch where
  letter : Option Char
  name : String
  /-- Accepts or refuses a value; nothing for a switch that stands alone. -/
  accepts : Option (String → Bool) := none
  summary : String

def Switch.takesValue (switch : Switch) : Bool := switch.accepts.isSome

inductive Given where
  | alone (name : String)
  | valued (name value : String)
  | operand (text : String)
  /-- Something that the switches do not provide for. -/
  | unknown
  deriving DecidableEq, Repr

/-- A single dash is an operand. -/
def isSwitchLike (argument : String) : Bool :=
  match argument.toList with
  | '-' :: _ :: _ => true
  | _ => false

def readLetters (switches : List Switch) : List Char → List Given × Option String
  | [] => ([], none)
  | letter :: rest =>
    match switches.find? (·.letter = some letter) with
    | none => ([.unknown], none)
    | some switch =>
      if switch.takesValue then
        match rest with
        | [] => ([], some switch.name)
        | '=' :: value => ([.valued switch.name (String.ofList value)], none)
        | value => ([.valued switch.name (String.ofList value)], none)
      else
        let (others, waiting) := readLetters switches rest
        (.alone switch.name :: others, waiting)

def readName (switches : List Switch) (text : List Char) : List Given × Option String :=
  let name := String.ofList (text.takeWhile (· ≠ '='))
  let value := (text.dropWhile (· ≠ '=')).tail?.map String.ofList
  match switches.find? (·.name = name), value with
  | none, _ => ([.unknown], none)
  | some switch, some value =>
    ([if switch.takesValue then .valued name value else .unknown], none)
  | some switch, none => if switch.takesValue then ([], some name) else ([.alone name], none)

def readArgument (switches : List Switch) (argument : String) : List Given × Option String :=
  match argument.toList with
  | '-' :: '-' :: text => readName switches text
  | '-' :: letter :: letters => readLetters switches (letter :: letters)
  | _ => ([.operand argument], none)

/-- What a command line stands for, in order. A value that stands apart does not start with a dash,
unless it is one. -/
def readLine (switches : List Switch) : List String → List Given
  | [] => []
  | argument :: rest =>
    if argument = "--" then rest.map .operand
    else
      match readArgument switches argument, rest with
      | (found, none), rest => found ++ readLine switches rest
      | (found, some _), [] => found ++ [.unknown]
      | (found, some name), value :: rest =>
        if isSwitchLike value then found ++ [.unknown]
        else found ++ .valued name value :: readLine switches rest

structure Line where
  operand : Option String := none
  alone : List String := []
  values : List (String × String) := []
  deriving DecidableEq, Repr

inductive Ending where
  | help
  | version
  | refused
  deriving DecidableEq, Repr

/-- Takes in one thing more. Help and version end the reading at once; nothing comes twice. -/
def Line.add (switches : List Switch) (line : Line) : Given → Except Ending Line
  | .unknown => .error .refused
  | .alone "help" => .error .help
  | .alone "version" => .error .version
  | .alone name =>
    if name ∈ line.alone then .error .refused else .ok { line with alone := name :: line.alone }
  | .operand text =>
    if line.operand.isSome then .error .refused else .ok { line with operand := some text }
  | .valued name value =>
    let accepted :=
      switches.any fun switch => switch.name = name && switch.accepts.any fun check => check value
    if (line.values.lookup name).isSome || !accepted then .error .refused
    else .ok { line with values := (name, value) :: line.values }

def Line.read (switches : List Switch) (given : List Given) : Except Ending Line :=
  given.foldlM (Line.add switches) {}

def Line.has (line : Line) (name : String) : Bool := name ∈ line.alone

def Line.value? (line : Line) (name : String) : Option String := line.values.lookup name

end EventSchema.Command
