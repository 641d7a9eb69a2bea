import EventSchema.Text.Words
/-!
Places in a schema tree. A path leads from the root through named properties and through the items
of arrays. It is written as a pointer, which can be read back, or for display.
-/
namespace EventSchema

inductive Step where
  | property (name : String)
  | items
  deriving DecidableEq, Repr

/-- Properties come before items, and among themselves in the order of their names. -/
def Step.before : Step → Step → Bool
  | .property left, .property right => left < right
  | .property _, .items => true
  | .items, _ => false

def Step.pointer : Step → String
  | .property name => ".properties." ++ name
  | .items => ".items"

instance : LT Step := ⟨fun left right => left.before right = true⟩

instance : DecidableLT Step := fun left right =>
  inferInstanceAs (Decidable (left.before right = true))

/-- Paths are compared step by step; a path comes before those that continue it. -/
abbrev Path := List Step

namespace Path

def root : Path := []

def child (path : Path) (name : String) : Path := path ++ [.property name]

def items (path : Path) : Path := path ++ [.items]

def parent? (path : Path) : Option Path := if path.isEmpty then none else some path.dropLast

/-- The object or array around the path's last step, past any items steps: the container of
`a[*].b` is `a`. -/
def container (path : Path) : Path :=
  (path.dropLast.reverse.dropWhile (· = .items)).reverse

def lastName? (path : Path) : Option String :=
  match path.getLast? with
  | some (.property name) => some name
  | _ => none

/-- Whether the path is the other one or continues it. -/
def startsWith (path outer : Path) : Bool := outer.isPrefixOf path

def pointer (path : Path) : String := path.foldl (fun text step => text ++ step.pointer) "$"

/-- Property names joined by dots, with `[*]` for items. -/
def display (path : Path) : String :=
  path.foldl
    (fun text step =>
      match step with
      | .property name => if text.isEmpty then name else text ++ "." ++ name
      | .items => text ++ "[*]")
    ""

def ofParts? : List String → Option Path
  | [] => some []
  | "properties" :: name :: rest => (.property name :: ·) <$> ofParts? rest
  | "items" :: rest => (.items :: ·) <$> ofParts? rest
  | _ => none

/-- Reads the parts between dots, from the first dot on. -/
def ofPointer? (text : String) : Option Path :=
  match text.toList with
  | '$' :: rest => ofParts? ((Text.splitOn '.' rest).tail.map String.ofList)
  | _ => none

end Path

end EventSchema
