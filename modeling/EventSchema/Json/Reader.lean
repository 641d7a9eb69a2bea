import EventSchema.Json.Written

namespace EventSchema.Json

inductive Token where
  | openArray
  | closeArray
  | openObject
  | closeObject
  | comma
  | colon
  | scalar (value : Written)

def isSpace (char : Char) : Bool := char = ' ' || char = '\n' || char = '\t' || char = '\r'

def punctuation? : Char → Option Token
  | '[' => some .openArray
  | ']' => some .closeArray
  | '{' => some .openObject
  | '}' => some .closeObject
  | ',' => some .comma
  | ':' => some .colon
  | _ => none

def isWordChar (char : Char) : Bool := char.isAlphanum || char = '+' || char = '-' || char = '.'

def word? (word : List Char) : Option Written :=
  if word = "true".toList then some (.bool true)
  else if word = "false".toList then some (.bool false)
  else if word = "null".toList then some .null
  else .number <$> Numeral.ofChars? word

def tokens? : List Char → Option (List Token)
  | [] => some []
  | char :: rest =>
    if isSpace char then tokens? rest
    else
      match punctuation? char with
      | some token => (token :: ·) <$> tokens? rest
      | none =>
        if char = '"' then
          match found : untilQuote rest with
          | none => none
          | some (inside, after) =>
            have : after.length < rest.length + 1 := by
              rw [eq_of_untilQuote found]; simp; omega
            match pieces? inside, tokens? after with
            | some pieces, some tokens => some (.scalar (.string pieces) :: tokens)
            | _, _ => none
        else if isWordChar char then
          have : (rest.dropWhile isWordChar).length < rest.length + 1 :=
            Nat.lt_succ_of_le (List.dropWhile_sublist _).length_le
          match word? (char :: rest.takeWhile isWordChar), tokens? (rest.dropWhile isWordChar) with
          | some value, some tokens => some (.scalar value :: tokens)
          | _, _ => none
        else none
termination_by text => text.length

/-- An array or object whose end has not been read, with what was read of it last first. -/
inductive Open where
  | array (elements : List Written)
  /-- An object in which a value for the pending key has not been completed. -/
  | object (members : List (List Piece × Written)) (pending : List Piece)

inductive Expected where
  /-- A value, or the end of the array just opened. -/
  | first
  | value
  | key
  /-- A key, or the end of the object just opened. -/
  | firstKey
  | colon
  /-- A comma or the end of what is open. -/
  | more
  | nothing
  deriving DecidableEq

structure Reading where
  stack : List Open
  /-- The value read last. -/
  current : Written
  /-- The key read last, while its colon is awaited. -/
  key : List Piece
  expected : Expected

def Reading.start : Reading := ⟨[], .null, [], .value⟩

def Reading.complete (reading : Reading) (stack : List Open) (value : Written) : Reading :=
  { reading with
    stack := stack
    current := value
    expected := if stack.isEmpty then .nothing else .more }

def Reading.push (reading : Reading) (container : Open) (expected : Expected) : Reading :=
  { reading with stack := container :: reading.stack, expected := expected }

def wantsValue (expected : Expected) : Bool := expected = .first || expected = .value

def Reading.step (reading : Reading) : Token → Option Reading
  | .scalar value =>
    if wantsValue reading.expected then some (reading.complete reading.stack value)
    else
      match reading.expected, value with
      | .key, .string key | .firstKey, .string key => some { reading with key, expected := .colon }
      | _, _ => none
  | .openArray =>
    if wantsValue reading.expected then some (reading.push (.array []) .first) else none
  | .openObject =>
    if wantsValue reading.expected then some (reading.push (.object [] []) .firstKey) else none
  | .colon =>
    match reading.expected, reading.stack with
    | .colon, .object members _ :: stack =>
      some { reading with stack := .object members reading.key :: stack, expected := .value }
    | _, _ => none
  | .comma =>
    match reading.expected, reading.stack with
    | .more, .array elements :: stack =>
      some { reading with
        stack := .array (reading.current :: elements) :: stack
        expected := .value }
    | .more, .object members pending :: stack =>
      some { reading with
        stack := .object ((pending, reading.current) :: members) pending :: stack
        expected := .key }
    | _, _ => none
  | .closeArray =>
    match reading.expected, reading.stack with
    | .first, .array _ :: stack => some (reading.complete stack (.array []))
    | .more, .array elements :: stack =>
      some (reading.complete stack (.array (reading.current :: elements).reverse))
    | _, _ => none
  | .closeObject =>
    match reading.expected, reading.stack with
    | .firstKey, .object _ _ :: stack => some (reading.complete stack (.object []))
    | .more, .object members pending :: stack =>
      some (reading.complete stack (.object ((pending, reading.current) :: members).reverse))
    | _, _ => none

def Written.ofText? (text : String) : Option Written := do
  let reading ← (← tokens? text.toList).foldlM Reading.step .start
  if reading.expected = .nothing then some reading.current else none

mutual

/-- Sorts the members of every object by key; of members with one key the last stays. -/
def sorted : Json → Json
  | .array elements => .array (sortedElements elements)
  | .object members => .object (Keyed.ofList (sortedMembers members))
  | value => value

def sortedElements : List Json → List Json
  | [] => []
  | element :: rest => sorted element :: sortedElements rest

def sortedMembers : List (String × Json) → List (String × Json)
  | [] => []
  | (key, value) :: rest => (key, sorted value) :: sortedMembers rest

end

def parse? (text : String) : Option Json := do
  return (← (← Written.ofText? text).value? Written.depthLimit).sorted

end EventSchema.Json
