namespace EventSchema

inductive Format where
  | date
  | dateTime
  | time
  /-- An instant as seconds or milliseconds since 1970, in a string or a number. -/
  | epoch
  | email
  | uri
  | uuid
  | ipv4
  | ipv6
  /-- A card number in groups that passes the Luhn check. -/
  | creditCard
  deriving DecidableEq, Repr

namespace Format

def all : List Format :=
  [date, dateTime, time, epoch, email, uri, uuid, ipv4, ipv6, creditCard]

def name : Format → String
  | date => "date"
  | dateTime => "date-time"
  | time => "time"
  | epoch => "epoch"
  | email => "email"
  | uri => "uri"
  | uuid => "uuid"
  | ipv4 => "ipv4"
  | ipv6 => "ipv6"
  | creditCard => "creditcard"

def ofName? (text : String) : Option Format := all.find? (·.name = text)

def rank : Format → Nat
  | date => 0
  | dateTime => 1
  | time => 2
  | epoch => 3
  | email => 4
  | uri => 5
  | uuid => 6
  | ipv4 => 7
  | ipv6 => 8
  | creditCard => 9

instance : LT Format := ⟨fun left right => left.rank < right.rank⟩

instance : DecidableLT Format := fun left right =>
  inferInstanceAs (Decidable (left.rank < right.rank))

def isTemporal : Format → Bool
  | date | dateTime | time => true
  | _ => false

end Format

end EventSchema
