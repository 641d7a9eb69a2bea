import EventSchema.Command.Outcome

namespace EventSchema.Command

def systemText? : Nat → Option String
  | 2 => some "No such file or directory"
  | 6 => some "No such device or address"
  | 13 => some "Permission denied"
  | 20 => some "Not a directory"
  | 21 => some "Is a directory"
  | 28 => some "No space left on device"
  | 30 => some "Read-only file system"
  | 36 => some "File name too long"
  | _ => none

/-- The system's number of an error comes with either sign. -/
def reasonOf (error : IO.Error) : String :=
  match error with
  | .noFileOrDirectory _ code _ | .permissionDenied _ code _ | .inappropriateType _ code _
  | .invalidArgument _ code _ | .noSuchThing _ code _ | .resourceExhausted _ code _ =>
    let number := code.toInt32.toInt.natAbs
    match systemText? number with
    | some text => s!"{text} (os error {number})"
    | none => toString error
  | _ => toString error

def textOf (bytes : ByteArray) : Except String String :=
  match String.fromUTF8? bytes with
  | some text => .ok text
  | none => .error "stream did not contain valid UTF-8"

def readFile (path : String) : IO (Except String String) := do
  try
    return textOf (← IO.FS.readBinFile path)
  catch error => return .error (reasonOf error)

partial def readToEnd (stream : IO.FS.Stream) (bytes : ByteArray) : IO ByteArray := do
  let more ← stream.read 65536
  if more.isEmpty then return bytes else readToEnd stream (bytes ++ more)

def writeFile (path content : String) : IO (Except String Unit) := do
  try
    IO.FS.withFile path .write fun file => do
      file.putStr content
      file.flush
    return .ok ()
  catch error => return .error (reasonOf error)

/-- Reads all that a task may ask for. -/
def surroundingsOf (task : Task) : IO Surroundings := do
  let files ← task.files.mapM fun path => do return (path, ← readFile path)
  let input ←
    if task.readsInput then textOf <$> readToEnd (← IO.getStdin) .empty else pure (.ok "")
  return { input, file := fun path => (files.lookup path).getD (.error "") }

def perform (quiet : Bool) (task : Task) : IO Outcome := do
  let performance := (task.perform (← surroundingsOf task)).quieted quiet
  let written ←
    match performance.toWrite? with
    | some (path, content) => writeFile path content
    | none => pure (.ok ())
  return performance.outcome task.command written

end EventSchema.Command

open EventSchema.Command in
def main (arguments : List String) : IO UInt32 := do
  let outcome ←
    match Request.ofArguments arguments with
    | .run quiet task => perform quiet task
    | .help topic => pure (Outcome.ofHelp topic)
    | .version => pure Outcome.ofVersion
    | .refused => pure Outcome.ofRefusal
  IO.eprint outcome.log
  IO.print outcome.output
  return outcome.code.toUInt32
