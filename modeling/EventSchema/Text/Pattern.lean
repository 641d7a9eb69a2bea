/-!
Patterns of characters: regular expressions without unbounded repetition. Alternatives may overlap,
so a pattern can be read at the front of a text in several ways.
-/
namespace EventSchema.Text

inductive Pattern where
  /-- No character at all. -/
  | empty
  /-- One character of a class. -/
  | one (isMember : Char → Bool)
  | followed (first second : Pattern)
  | either (left right : Pattern)

namespace Pattern

def exactly (char : Char) : Pattern := one (· = char)

def between (least most : Char) : Pattern := one fun char => least ≤ char && char ≤ most

def sequence : List Pattern → Pattern
  | [] => empty
  | first :: rest => followed first (sequence rest)

def optional (part : Pattern) : Pattern := either part empty

def times : Nat → Pattern → Pattern
  | 0, _ => empty
  | count + 1, part => followed part (times count part)

/-- What every way to read the pattern at the front leaves of a text. -/
def rests : Pattern → List Char → List (List Char)
  | empty, text => [text]
  | one _, [] => []
  | one isMember, char :: rest => if isMember char then [rest] else []
  | followed first second, text => (first.rests text).flatMap second.rests
  | either left right, text => left.rests text ++ right.rests text

def describes (pattern : Pattern) (text : List Char) : Bool := [] ∈ pattern.rests text

end Pattern

end EventSchema.Text
