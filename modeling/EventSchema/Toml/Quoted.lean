import EventSchema.Text.Digit
import EventSchema.Text.Words

namespace EventSchema.Toml

def isControl (char : Char) : Bool := (char.toNat < 0x20 && char ≠ '\t') || char.toNat = 0x7F

/-- The character of a code point given by hexadecimal digits. -/
def codePoint? (digits : List Char) : Option Char := do
  let values ← digits.mapM Text.hexDigit?
  let code := values.foldl (fun code digit => code * 16 + digit) 0
  if code.isValidChar then some (Char.ofNat code) else none

def shortEscape? : Char → Option Char
  | 'b' => some '\x08'
  | 't' => some '\t'
  | 'n' => some '\n'
  | 'f' => some '\x0c'
  | 'r' => some '\r'
  | '"' => some '"'
  | '\\' => some '\\'
  | _ => none

/-- Puts a character in front of what is read next. -/
def prepend (char : Char) (read : Option (List Char × List Char)) :
    Option (List Char × List Char) :=
  read.map fun (chars, rest) => (char :: chars, rest)

def basic : List Char → Option (List Char × List Char)
  | [] => none
  | '"' :: rest => some ([], rest)
  | '\\' :: 'u' :: a :: b :: c :: d :: rest => do prepend (← codePoint? [a, b, c, d]) (basic rest)
  | '\\' :: 'U' :: a :: b :: c :: d :: e :: f :: g :: h :: rest => do
    prepend (← codePoint? [a, b, c, d, e, f, g, h]) (basic rest)
  | '\\' :: escaped :: rest => do prepend (← shortEscape? escaped) (basic rest)
  | char :: rest => if isControl char || char = '\\' then none else prepend char (basic rest)

def literal : List Char → Option (List Char × List Char)
  | [] => none
  | '\'' :: rest => some ([], rest)
  | char :: rest => if isControl char then none else prepend char (literal rest)

/-- Up to two quotes may stand before the three that close a string. -/
def closing (quote : Char) : List Char → List Char × List Char
  | first :: second :: rest =>
    if first = quote && second = quote then ([quote, quote], rest)
    else if first = quote then ([quote], second :: rest)
    else ([], first :: second :: rest)
  | [first] => if first = quote then ([quote], []) else ([], [first])
  | [] => ([], [])

/-- Where the lines of a string stand: `skipping` white space after a backslash at the end of a
line, and `turned` once that line has ended. -/
inductive Margin where
  | none
  | skipping
  | turned
  deriving DecidableEq

def basicLines (margin : Margin) : List Char → Option (List Char × List Char)
  | [] => .none
  | '\r' :: '\n' :: rest =>
    if margin = .none then prepend '\n' (basicLines .none rest) else basicLines .turned rest
  | '\n' :: rest =>
    if margin = .none then prepend '\n' (basicLines .none rest) else basicLines .turned rest
  | ' ' :: rest =>
    if margin = .none then prepend ' ' (basicLines .none rest) else basicLines margin rest
  | '\t' :: rest =>
    if margin = .none then prepend '\t' (basicLines .none rest) else basicLines margin rest
  | char :: rest =>
    if margin = .skipping then .none
    else
      match char, rest with
      | '"', '"' :: '"' :: after => some (closing '"' after)
      | '\\', 'u' :: a :: b :: c :: d :: after => do
        prepend (← codePoint? [a, b, c, d]) (basicLines .none after)
      | '\\', 'U' :: a :: b :: c :: d :: e :: f :: g :: h :: after => do
        prepend (← codePoint? [a, b, c, d, e, f, g, h]) (basicLines .none after)
      | '\\', escaped :: after =>
        match shortEscape? escaped with
        | some char => prepend char (basicLines .none after)
        | .none =>
          if escaped = ' ' || escaped = '\t' then basicLines .skipping after
          else if escaped = '\n' then basicLines .turned after
          else if escaped = '\r' && after.head? = some '\n' then basicLines .turned after
          else .none
      | char, rest =>
        if isControl char || char = '\\' then .none else prepend char (basicLines .none rest)

def literalLines : List Char → Option (List Char × List Char)
  | [] => none
  | '\'' :: '\'' :: '\'' :: rest => some (closing '\'' rest)
  | '\r' :: '\n' :: rest => prepend '\n' (literalLines rest)
  | char :: rest =>
    if isControl char && char ≠ '\n' then none else prepend char (literalLines rest)

/-- A line break right after the opening quotes does not count. -/
def afterBreak : List Char → List Char
  | '\n' :: rest => rest
  | '\r' :: '\n' :: rest => rest
  | text => text

def lineString? : List Char → Option (String × List Char)
  | '"' :: rest => (basic rest).map fun (chars, left) => (String.ofList chars, left)
  | '\'' :: rest => (literal rest).map fun (chars, left) => (String.ofList chars, left)
  | _ => none

def string? (text : List Char) : Option (String × List Char) :=
  match text with
  | '"' :: '"' :: '"' :: rest =>
    (basicLines .none (afterBreak rest)).map fun (chars, left) => (String.ofList chars, left)
  | '\'' :: '\'' :: '\'' :: rest =>
    (literalLines (afterBreak rest)).map fun (chars, left) => (String.ofList chars, left)
  | text => lineString? text

end EventSchema.Toml
