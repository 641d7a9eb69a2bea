import EventSchema.Settings.Basic
import EventSchema.Toml.Reader

namespace EventSchema

inductive DocumentFault where
  /-- The document is not well-formed, or a value has the wrong type. -/
  | unreadable
  | invalid (error : SettingsError)
  deriving DecidableEq, Repr

namespace Toml

def number? : Toml → Option Float
  | .integer value => some (Float.ofInt value)
  | .float value => some value
  | _ => none

def nat? : Toml → Option Nat
  | .integer (.ofNat value) => some value
  | _ => none

def boolean? : Toml → Option Bool
  | .boolean value => some value
  | _ => none

def isEmpty : Toml → Bool
  | .array [] | .table _ [] => true
  | _ => false

/-- A format is its name, or a table with the name as its only key and nothing under it. -/
def format? : Toml → Option Format
  | .string name => Format.ofName? name
  | .table _ [(name, value)] => if value.isEmpty then Format.ofName? name else none
  | _ => none

def formats? : Toml → Option (List Format)
  | .array elements => elements.mapM format?
  | .tables all => all.mapM fun entries => format? (.table .header entries)
  | _ => none

/-- A missing entry takes the default; a present one has to be readable. -/
def entryOr {α : Type} (default : α) (read : Toml → Option α) (key : String) (entries : Entries) :
    Option α :=
  match Keyed.lookup key entries with
  | none => some default
  | some value => read value

end Toml

namespace Settings

def ofEntries? (entries : Toml.Entries) : Option Settings := do
  let standard : Settings := {}
  let ratio ← Toml.entryOr standard.rollupRatio Toml.number? "rollupRatio" entries
  let formats ← Toml.entryOr standard.uniqueFormats Toml.formats? "uniqueFormats" entries
  let depth ← Toml.entryOr standard.maxDepth Toml.nat? "maxDepth" entries
  let detect ← Toml.entryOr standard.detectFormats Toml.boolean? "detectFormats" entries
  return ⟨ratio, formats, depth, detect⟩

def ofToml (text : String) : Except DocumentFault Settings :=
  match (Toml.parse? text).bind ofEntries? with
  | none => .error .unreadable
  | some settings => settings.validate.mapError .invalid

end Settings

end EventSchema
