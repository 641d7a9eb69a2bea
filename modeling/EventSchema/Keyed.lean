/-!
Sets and maps kept as lists in strictly increasing order. Two lists with the same entries are the
same list, so the order in which entries arrive never shows.
-/
namespace EventSchema

namespace Ordered

variable {κ : Type} [LT κ] [DecidableLT κ] [DecidableEq κ]

def insert (key : κ) : List κ → List κ
  | [] => [key]
  | first :: rest =>
    if key < first then key :: first :: rest
    else if key = first then first :: rest
    else first :: insert key rest

def ofList (keys : List κ) : List κ :=
  keys.foldl (fun ordered key => insert key ordered) []

def union (left right : List κ) : List κ :=
  right.foldl (fun ordered key => insert key ordered) left

def erase (key : κ) (keys : List κ) : List κ :=
  keys.filter (· ≠ key)

def inter (left right : List κ) : List κ :=
  left.filter (· ∈ right)

end Ordered

namespace Keyed

variable {κ α : Type} [LT κ] [DecidableLT κ] [DecidableEq κ]

def lookup (key : κ) : List (κ × α) → Option α
  | [] => none
  | (first, value) :: rest => if key = first then some value else lookup key rest

/-- An entry already present under the key is replaced. -/
def insert (key : κ) (value : α) : List (κ × α) → List (κ × α)
  | [] => [(key, value)]
  | (first, present) :: rest =>
    if key < first then (key, value) :: (first, present) :: rest
    else if key = first then (key, value) :: rest
    else (first, present) :: insert key value rest

def alter (key : κ) (change : Option α → α) (entries : List (κ × α)) : List (κ × α) :=
  insert key (change (lookup key entries)) entries

/-- Of two pairs with one key the later stays. -/
def ofList (pairs : List (κ × α)) : List (κ × α) :=
  pairs.foldl (fun entries (key, value) => insert key value entries) []

def keys (entries : List (κ × α)) : List κ := entries.map (·.1)

def values (entries : List (κ × α)) : List α := entries.map (·.2)

def tally (key : κ) (counts : List (κ × Nat)) : List (κ × Nat) :=
  alter key (fun count => count.getD 0 + 1) counts

def count (key : κ) (counts : List (κ × Nat)) : Nat := (lookup key counts).getD 0

/-- The key with the highest count; of equal counts the earlier key wins. -/
def majority : List (κ × Nat) → Option κ
  | [] => none
  | (key, count) :: rest => some (best key count rest)
where
  best (key : κ) (count : Nat) : List (κ × Nat) → κ
    | [] => key
    | (other, occurrences) :: rest =>
      if count < occurrences then best other occurrences rest else best key count rest

end Keyed

end EventSchema
