import EventSchema.Text.Words
/-!
The standard streams by their paths. Where a path is asked for, the path of a stream stands for the
stream: what is written there joins what is printed, and standard input can be read as a file.
-/
namespace EventSchema.Command

inductive StandardStream where
  | input
  | output
  | log
  deriving DecidableEq, Repr

namespace StandardStream

def places : List (List String × StandardStream) :=
  [("stdin", "0", input), ("stdout", "1", output), ("stderr", "2", log)].flatMap
    fun (name, number, stream) =>
      [(["dev", name], stream), (["dev", "fd", number], stream),
        (["proc", "self", "fd", number], stream)]

/-- A path with a slash at its end is never a stream. -/
def ofPath? (path : String) : Option StandardStream :=
  match Text.split '/' path with
  | "" :: names =>
    if names.getLast? ∈ [some "", some "."] then none
    else places.lookup (names.filter fun name => name ≠ "" && name ≠ ".")
  | _ => none

def isInputPath (path : String) : Bool := ofPath? path = some input

/-- Whether data come from standard input, for which a dash stands too. -/
def isInputSource (source : String) : Bool := source = "-" || isInputPath source

end StandardStream

end EventSchema.Command
