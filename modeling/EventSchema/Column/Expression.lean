namespace EventSchema.Expression

def isInitial (char : Char) : Bool :=
  ('a' ≤ char && char ≤ 'z') || ('A' ≤ char && char ≤ 'Z') || char = '_'

def isInner (char : Char) : Bool := isInitial char || ('0' ≤ char && char ≤ '9')

def isIdentifier : List Char → Bool
  | [] => false
  | first :: rest => isInitial first && rest.all isInner

def escape : List Char → List Char
  | [] => []
  | '\\' :: rest => '\\' :: '\\' :: escape rest
  | '\'' :: rest => '\\' :: '\'' :: escape rest
  | char :: rest => char :: escape rest

def segment (name : List Char) : List Char :=
  if isIdentifier name then '.' :: name
  else '[' :: '\'' :: (escape name ++ ['\'', ']'])

def select (names : List String) : String :=
  String.ofList ('$' :: names.flatMap fun name => segment name.toList)

end EventSchema.Expression
