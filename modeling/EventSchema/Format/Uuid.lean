import EventSchema.Text.Scan

namespace EventSchema.Format

def groups? : List Nat → List Char → Option (List Char)
  | [], text => some text
  | [count], text => Text.dropCount? Text.isHexDigit count text
  | count :: counts, text => do
    groups? counts (← Text.dropChar? '-' (← Text.dropCount? Text.isHexDigit count text))

def isUuid (text : List Char) : Bool := groups? [8, 4, 4, 4, 12] text = some []

end EventSchema.Format
