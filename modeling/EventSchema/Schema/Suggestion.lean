namespace EventSchema

inductive Severity where
  | mustFix
  | medium
  | low
  deriving DecidableEq, Repr

def Severity.name : Severity → String
  | mustFix => "MUST-FIX"
  | medium => "MEDIUM"
  | low => "LOW"

inductive Topic where
  | dataType
  | nullField
  | optional
  | transformation
  | index
  | dedup
  | arrivalFormat
  deriving DecidableEq, Repr

def Topic.name : Topic → String
  | dataType => "DATA_TYPE"
  | nullField => "NULL_FIELD"
  | optional => "OPTIONAL"
  | transformation => "TRANSFORMATION"
  | index => "INDEX"
  | dedup => "DEDUP"
  | arrivalFormat => "ARRIVAL_FORMAT"

structure Suggestion where
  property : String
  message : String
  advice : String
  topic : Topic
  severity : Severity
  /-- The place, for display. -/
  path : String
  /-- Set when the suggestion is about values that arrive in more than one format. -/
  arrivalConflict : Bool
  deriving DecidableEq, Repr

end EventSchema
