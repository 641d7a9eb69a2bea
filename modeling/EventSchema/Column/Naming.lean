import EventSchema.Text.Words

namespace EventSchema

inductive Naming where
  | dotted
  | underscored
  deriving DecidableEq, Repr

namespace Naming

def name : Naming → String
  | dotted => "dotted"
  | underscored => "underscored"

/-- Words for a convention, in any case. -/
def aliases : List (String × Naming) :=
  [("dotted", dotted), ("dot", dotted), ("druid", dotted), ("underscored", underscored),
    ("underscore", underscored), ("hudi", underscored), ("lakehouse", underscored)]

def ofName? (text : String) : Option Naming :=
  (aliases.find? fun (word, _) => Text.isWord word text).map (·.2)

def separator : Naming → String
  | dotted => "."
  | underscored => "_"

def join (naming : Naming) (segments : List String) : String := Text.join naming.separator segments

end Naming

end EventSchema
