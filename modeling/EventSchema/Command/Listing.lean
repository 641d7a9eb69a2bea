import EventSchema.Column.FromJson
import EventSchema.Command.Performance
import EventSchema.Report

namespace EventSchema.Command

def columnSummary (columns : List Column) : String :=
  toString columns.length ++ " field(s): " ++
    Text.join ", " (columns.map fun column => column.name ++ ":" ++ column.dataType.getD "?") ++
    "\n"

namespace Listing

/-- The schema of a result that was written before, or the document itself. -/
def schemaOf (document : Json) : Json := (document.member? "schema").getD document

def loadJson {α : Type} (surroundings : Surroundings) (parse? : String → Option α)
    (inputRead : Bool) (source : String) : Except Failure α := do
  match parse? (← surroundings.load inputRead source) with
  | some value => return value
  | none => .error (.notJson source)

def loadList {α : Type} (surroundings : Surroundings) (parse? : String → Option (List α))
    (inputRead : Bool) : Option String → Except Failure (List α)
  | none => .ok []
  | some source => loadJson surroundings parse? inputRead source

def columns (task : Listing) (surroundings : Surroundings) : Except Failure (List Column) := do
  let document ← loadJson surroundings Json.parse? false task.schema
  let afterSchema := StandardStream.isInputSource task.schema
  let transformations ←
    loadList surroundings Transformation.parse? afterSchema task.transformations
  let afterBoth := afterSchema || task.transformations.any StandardStream.isInputSource
  let denorms ← loadList surroundings Denorm.parse? afterBoth task.denorms
  (Column.ofSchema (schemaOf document) transformations denorms task.naming).mapError .document

def perform (task : Listing) (surroundings : Surroundings) : Performance :=
  match task.columns surroundings with
  | .error failure => ⟨"", .error failure⟩
  | .ok columns =>
    let value : Json := .array (columns.map Column.toJson)
    ⟨columnSummary columns, .ok ⟨task.writing.render value, task.writing.target, ""⟩⟩

end Listing

end EventSchema.Command
