import EventSchema.Text.Digit

namespace EventSchema.Text

def dropChar? (expected : Char) : List Char → Option (List Char)
  | [] => none
  | char :: rest => if char = expected then some rest else none

def dropOneOf? (expected : List Char) : List Char → Option (List Char)
  | [] => none
  | char :: rest => if char ∈ expected then some rest else none

def dropCount? (isMember : Char → Bool) : (count : Nat) → List Char → Option (List Char)
  | 0, text => some text
  | _ + 1, [] => none
  | count + 1, char :: rest => if isMember char then dropCount? isMember count rest else none

def digits? (least most : Nat) (text : List Char) : Option (Nat × List Char) :=
  let found := (text.take most).takeWhile isDigit
  if least ≤ found.length then some (toNat found, text.drop found.length) else none

end EventSchema.Text
