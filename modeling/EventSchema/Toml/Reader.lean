import EventSchema.Toml.Quoted
import EventSchema.Toml.Scalar

namespace EventSchema.Toml

/-- How deep arrays and inline tables may nest. -/
def depthLimit : Nat := 79

/-- How many parts a key may have. -/
def keyLimit : Nat := 80

def isSpace (char : Char) : Bool := char = ' ' || char = '\t'

def skipSpaces (text : List Char) : List Char := text.dropWhile isSpace

def afterLine? : List Char → Option (List Char)
  | [] => some []
  | '\n' :: rest => some rest
  | '\r' :: '\n' :: rest => some rest
  | _ => none

/-- A comment up to the line end; text that is none stays. -/
def skipComment (text : List Char) : List Char :=
  match text with
  | '#' :: rest => rest.dropWhile (!isControl ·)
  | _ => text

/-- White space, comments and line ends, as they may stand between the elements of an array. Each
round but the last takes at least one character. -/
def skipBlank : (bound : Nat) → List Char → Option (List Char)
  | 0, text => some text
  | bound + 1, text =>
    let text := skipSpaces text
    match text with
    | '#' :: _ => (afterLine? (skipComment text)).bind (skipBlank bound)
    | '\n' :: rest => skipBlank bound rest
    | '\r' :: '\n' :: rest => skipBlank bound rest
    | _ => some text

def isKeyChar (char : Char) : Bool := char.isAlphanum || char = '_' || char = '-'

def keyPart? (text : List Char) : Option (String × List Char) :=
  match text with
  | '"' :: _ | '\'' :: _ => lineString? text
  | _ =>
    let part := text.takeWhile isKeyChar
    if part.isEmpty then none else some (String.ofList part, text.dropWhile isKeyChar)

def keyParts? : (bound : Nat) → List Char → Option (List String × List Char)
  | 0, _ => none
  | bound + 1, text => do
    let (part, rest) ← keyPart? (skipSpaces text)
    match skipSpaces rest with
    | '.' :: more => (keyParts? bound more).map fun (parts, left) => (part :: parts, left)
    | left => return ([part], left)

def key? (text : List Char) : Option (List String × String × List Char) := do
  let (parts, rest) ← keyParts? text.length text
  let last ← parts.getLast?
  if parts.length < keyLimit then some (parts.dropLast, last, rest) else none

def elements? (read : List Char → Option (Toml × List Char)) :
    (bound : Nat) → List Char → Option (List Toml × List Char)
  | 0, _ => none
  | bound + 1, text => do
    match ← skipBlank text.length text with
    | ']' :: rest => return ([], rest)
    | text => do
      let (element, afterElement) ← read text
      match ← skipBlank afterElement.length afterElement with
      | ']' :: rest => return ([element], rest)
      | ',' :: rest => do
        let (others, left) ← elements? read bound rest
        return (element :: others, left)
      | _ => none

def pair? (read : List Char → Option (Toml × List Char)) (text : List Char) :
    Option (List String × String × Toml × List Char) := do
  let (path, key, rest) ← key? text
  let (value, left) ← read (skipSpaces (← Text.dropChar? '=' rest))
  return (path, key, value, left)

/-- The pairs of an inline table after its opening brace and at least one of them to come. -/
def pairs? (read : List Char → Option (Toml × List Char)) :
    (bound : Nat) → Entries → List Char → Option (Entries × List Char)
  | 0, _, _ => none
  | bound + 1, entries, text => do
    let (path, key, value, rest) ← pair? read text
    let next ← assign path key value entries
    match skipSpaces rest with
    | '}' :: left => return (next, left)
    | ',' :: more => pairs? read bound next more
    | _ => none

def inlineTable? (read : List Char → Option (Toml × List Char)) (text : List Char) :
    Option (Toml × List Char) :=
  match skipSpaces text with
  | '}' :: rest => some (.table .inline [], rest)
  | text =>
    (pairs? read text.length [] text).map fun (entries, left) => (.table .inline entries, left)

/-- A value in which arrays and inline tables nest at most `depth` deep. -/
def value? : (depth : Nat) → List Char → Option (Toml × List Char)
  | depth, text =>
    match depth, text with
    | _, '"' :: _ => (string? text).map fun (value, rest) => (.string value, rest)
    | _, '\'' :: _ => (string? text).map fun (value, rest) => (.string value, rest)
    | 0, _ => scalar? text
    | depth + 1, '[' :: rest =>
      (elements? (value? depth) rest.length rest).map fun (all, left) => (.array all, left)
    | depth + 1, '\x7b' :: rest => inlineTable? (value? depth) rest
    | _, _ => scalar? text

structure Document where
  /-- The table that pairs go to. -/
  header : List String := []
  entries : Entries := []

def header? (text : List Char) : Option (List String × String × List Char) := do
  let (path, key, rest) ← key? text
  return (path, key, ← Text.dropChar? ']' rest)

def statement? (document : Document) (text : List Char) : Option (Document × List Char) :=
  match text with
  | '[' :: '[' :: rest => do
    let (path, key, left) ← header? rest
    let entries ← openElement path key document.entries
    return (⟨path ++ [key], entries⟩, ← Text.dropChar? ']' left)
  | '[' :: rest => do
    let (path, key, left) ← header? rest
    let entries ← openTable path key document.entries
    return (⟨path ++ [key], entries⟩, left)
  | _ => do
    let (path, key, value, left) ← pair? (value? depthLimit) text
    let entries ← assignBelow document.header path key value document.entries
    return ({ document with entries }, left)

/-- Statements line by line. Each round but the last takes at least one character. -/
def statements? : (bound : Nat) → Document → List Char → Option Entries
  | 0, _, _ => none
  | bound + 1, document, text =>
    match skipSpaces text with
    | [] => some document.entries
    | '\n' :: rest => statements? bound document rest
    | '\r' :: '\n' :: rest => statements? bound document rest
    | '#' :: rest => (afterLine? (skipComment ('#' :: rest))).bind (statements? bound document)
    | text => do
      let (next, rest) ← statement? document text
      statements? bound next (← afterLine? (skipComment (skipSpaces rest)))

/-- The entries of a document. A byte order mark may stand in front. -/
def parse? (text : String) : Option Entries :=
  let chars :=
    match text.toList with
    | '\ufeff' :: rest => rest
    | chars => chars
  statements? (chars.length + 1) {} chars

end EventSchema.Toml
