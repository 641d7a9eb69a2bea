import EventSchema.Text.Digit
/-!
Quoted strings of JSON. Reading starts after the opening quote and returns what follows the closing
one. Escapes may give halves of surrogate pairs, so what stands between the quotes is well formed
before it is known to be a text. Writing escapes quotes, backslashes and control characters.
-/
namespace EventSchema.Json

def hex4? (first second third fourth : Char) : Option Nat := do
  return (((← Text.hexDigit? first) * 16 + (← Text.hexDigit? second)) * 16 +
    (← Text.hexDigit? third)) * 16 + (← Text.hexDigit? fourth)

def isHighSurrogate (unit : Nat) : Bool := 0xD800 ≤ unit && unit ≤ 0xDBFF

def isLowSurrogate (unit : Nat) : Bool := 0xDC00 ≤ unit && unit ≤ 0xDFFF

def joinSurrogates (high low : Nat) : Char :=
  Char.ofNat (0x10000 + (high - 0xD800) * 0x400 + (low - 0xDC00))

def shortEscape? : Char → Option Char
  | '"' => some '"'
  | '\\' => some '\\'
  | '/' => some '/'
  | 'b' => some '\x08'
  | 'f' => some '\x0c'
  | 'n' => some '\n'
  | 'r' => some '\r'
  | 't' => some '\t'
  | _ => none

/-- What stands before the first quote that no backslash escapes, and what follows it. -/
def untilQuote : List Char → Option (List Char × List Char)
  | [] => none
  | '"' :: rest => some ([], rest)
  | '\\' :: escaped :: rest =>
    (untilQuote rest).map fun (inside, after) => ('\\' :: escaped :: inside, after)
  | char :: rest => (untilQuote rest).map fun (inside, after) => (char :: inside, after)

theorem eq_of_untilQuote {text inside after : List Char}
    (found : untilQuote text = some (inside, after)) : text = inside ++ '"' :: after := by
  fun_induction untilQuote text generalizing inside after with
  | case1 => simp at found
  | case2 rest => simp at found; simp [← found.1, ← found.2]
  | case3 escaped rest ih =>
    simp only [Option.map_eq_some_iff, Prod.exists, Prod.mk.injEq] at found
    obtain ⟨within, left, reading, rfl, rfl⟩ := found
    simp [ih reading]
  | case4 char rest _ _ ih =>
    simp only [Option.map_eq_some_iff, Prod.exists, Prod.mk.injEq] at found
    obtain ⟨within, left, reading, rfl, rfl⟩ := found
    simp [ih reading]

inductive Piece where
  | char (value : Char)
  /-- A code unit of UTF-16, given by its number. -/
  | unit (value : Nat)
  deriving DecidableEq, Repr

/-- Takes escapes apart. Control characters must be escaped. -/
def pieces? : List Char → Option (List Piece)
  | [] => some []
  | '\\' :: 'u' :: a :: b :: c :: d :: rest => do
    let unit ← hex4? a b c d
    (.unit unit :: ·) <$> pieces? rest
  | '\\' :: escape :: rest => do
    let char ← shortEscape? escape
    (.char char :: ·) <$> pieces? rest
  | char :: rest =>
    if char = '\\' || char.toNat < 0x20 then none else (.char char :: ·) <$> pieces? rest

/-- The text of the pieces. A surrogate is accepted only as the first of a high and low pair. -/
def joined? : List Piece → Option (List Char)
  | [] => some []
  | .char char :: rest => (char :: ·) <$> joined? rest
  | .unit unit :: rest =>
    if isLowSurrogate unit then none
    else if isHighSurrogate unit then
      match rest with
      | .unit low :: after =>
        if isLowSurrogate low then (joinSurrogates unit low :: ·) <$> joined? after else none
      | _ => none
    else (Char.ofNat unit :: ·) <$> joined? rest

def textOf? (pieces : List Piece) : Option String := String.ofList <$> joined? pieces

def hexChar (value : Nat) : Char :=
  if value < 10 then Text.digitChar value else Char.ofNat ('a'.toNat + value - 10)

def escapeChar (char : Char) : List Char :=
  match char with
  | '"' => ['\\', '"']
  | '\\' => ['\\', '\\']
  | '\x08' => ['\\', 'b']
  | '\x0c' => ['\\', 'f']
  | '\n' => ['\\', 'n']
  | '\r' => ['\\', 'r']
  | '\t' => ['\\', 't']
  | other =>
    if other.toNat < 0x20 then
      ['\\', 'u', '0', '0', hexChar (other.toNat / 16), hexChar (other.toNat % 16)]
    else [other]

def quote (text : String) : List Char := '"' :: (text.toList.flatMap escapeChar ++ ['"'])

end EventSchema.Json
