namespace EventSchema.Text

/-- The pieces between separators; a text without one is its own only piece. -/
def splitOn (separator : Char) : List Char → List (List Char)
  | [] => [[]]
  | char :: rest =>
    if char = separator then [] :: splitOn separator rest
    else
      match splitOn separator rest with
      | [] => [[char]]
      | piece :: pieces => (char :: piece) :: pieces

def split (separator : Char) (text : String) : List String :=
  (splitOn separator text.toList).map String.ofList

def join (separator : String) : List String → String
  | [] => ""
  | [last] => last
  | first :: rest => first ++ separator ++ join separator rest

def lowerAscii (char : Char) : Char :=
  if 'A' ≤ char ∧ char ≤ 'Z' then Char.ofNat (char.toNat + 32) else char

/-- Lowercase as far as it is ASCII: of the characters beyond ASCII only the Kelvin sign has an
ASCII lowercase. The result can be compared with words that are ASCII themselves. -/
def lower (char : Char) : Char :=
  if char = '\u212a' then 'k' else lowerAscii char

/-- The text, in any case, is the given lowercase ASCII word. -/
def isWord (word text : String) : Bool :=
  text.toList.map lower = word.toList

def dropStart? : (start text : List Char) → Option (List Char)
  | [], text => some text
  | _ :: _, [] => none
  | expected :: start, char :: text => if expected = char then dropStart? start text else none

end EventSchema.Text
