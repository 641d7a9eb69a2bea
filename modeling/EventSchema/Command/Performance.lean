import EventSchema.Command.Failure
import EventSchema.Command.StandardStream
import EventSchema.Command.Task
import EventSchema.Yaml.Writer
/-!
What tasks read and what they come to. Files and standard input are given; a task reads standard
input to its end, so that a second reading finds nothing.
-/
namespace EventSchema.Command

structure Surroundings where
  input : Except String String
  file : String → Except String String

namespace Surroundings

def inputText (surroundings : Surroundings) (inputRead : Bool) : Except String String :=
  if inputRead then .ok "" else surroundings.input

def textAt (surroundings : Surroundings) (inputRead : Bool) (path : String) :
    Except String String :=
  if StandardStream.isInputPath path then surroundings.inputText inputRead
  else surroundings.file path

def load (surroundings : Surroundings) (inputRead : Bool) (source : String) :
    Except Failure String :=
  if source = "-" then (surroundings.inputText inputRead).mapError .unreadableInput
  else (surroundings.textAt inputRead source).mapError (.unreadableFile source)

end Surroundings

structure Delivery where
  content : String
  target : Option String
  /-- Said once the content has been written to its target. -/
  notice : String

structure Performance where
  log : String
  result : Except Failure Delivery

def Writing.render (writing : Writing) (value : Json) : String :=
  match writing.format with
  | .json => value.pretty
  | .yaml => value.yaml

end EventSchema.Command
