import EventSchema.Keyed
/-!
TOML values, and how the statements of a document fill its tables. A table is open to further
statements depending on how it came to be.
-/
namespace EventSchema

inductive Toml.TableKind where
  /-- Only on the way to a table that has a header. -/
  | implicit
  | header
  /-- Made by the dots of a key. -/
  | dotted
  /-- Written as a value, and closed. -/
  | inline
  deriving DecidableEq, Repr

inductive Toml where
  | string (value : String)
  | integer (value : Int)
  | float (value : Float)
  | boolean (value : Bool)
  /-- A date, a time, or both. -/
  | moment
  | array (elements : List Toml)
  | table (kind : Toml.TableKind) (entries : List (String × Toml))
  /-- Tables that repeat one header; the last is open. -/
  | tables (all : List (List (String × Toml)))

namespace Toml

abbrev Entries := List (String × Toml)

/-- Changes the table that a path of keys leads to, and makes the tables that are missing on the
way. A dotted key does not lead through a table that has its own header, and nothing leads through
a table that is a value. -/
def descend (dotted : Bool) (change : TableKind → Entries → Option Entries) :
    List String → TableKind → Entries → Option Entries
  | [], kind, entries => change kind entries
  | key :: path, _, entries =>
    match Keyed.lookup key entries with
    | none =>
      let kind := if dotted then .dotted else .implicit
      (descend dotted change path kind []).map fun inner =>
        Keyed.insert key (.table kind inner) entries
    | some (.table kind inner) =>
      if kind = .inline || (dotted && kind = .header) then none
      else
        (descend dotted change path kind inner).map fun inner' =>
          Keyed.insert key (.table kind inner') entries
    | some (.tables all) =>
      match all.getLast? with
      | some last =>
        (descend dotted change path .header last).map fun last' =>
          Keyed.insert key (.tables (all.dropLast ++ [last'])) entries
      | none => none
    | some _ => none

/-- Puts a value under a key of one or more parts. Only tables made by dots take further entries by
dots, and no entry is replaced. -/
def assign (path : List String) (key : String) (value : Toml) (entries : Entries) :
    Option Entries :=
  descend true
    (fun kind inner =>
      if (!path.isEmpty && kind ≠ .dotted) || (Keyed.lookup key inner).isSome then none
      else some (Keyed.insert key value inner))
    path .header entries

/-- The header of a table, which may have been on the way to another one before. -/
def openTable (path : List String) (key : String) (entries : Entries) : Option Entries :=
  descend false
    (fun _ inner =>
      match Keyed.lookup key inner with
      | none => some (Keyed.insert key (.table .header []) inner)
      | some (.table .implicit present) => some (Keyed.insert key (.table .header present) inner)
      | some _ => none)
    path .header entries

def openElement (path : List String) (key : String) (entries : Entries) : Option Entries :=
  descend false
    (fun _ inner =>
      match Keyed.lookup key inner with
      | none => some (Keyed.insert key (.tables [[]]) inner)
      | some (.tables all) => some (Keyed.insert key (.tables (all ++ [[]])) inner)
      | some _ => none)
    path .header entries

def assignBelow (header path : List String) (key : String) (value : Toml) (entries : Entries) :
    Option Entries :=
  descend false (fun _ inner => assign path key value inner) header .header entries

end Toml

end EventSchema
