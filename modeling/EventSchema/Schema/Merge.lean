import EventSchema.Schema.Union
/-!
Merging the trees of different samples. Objects unite their properties and required names, arrays
merge their items, integers widen to numbers, and any other disagreement goes to the later sample.
-/
namespace EventSchema.Node

def widen (older newer : ScalarType) : ScalarType :=
  match older, newer with
  | .integer, .number | .number, .integer => .number
  | _, newer => newer

mutual

/-- Merges the later tree `node` into `target`, whose notes stay. -/
def mergeInto (target : Node) : (node : Node) → Node
  | scalar label type =>
    match target with
    | scalar own type' =>
      scalar { own with format := label.format.or own.format } (widen type' type)
    | _ => scalar { target.label with format := label.format.or target.format? } type
  | object _ properties required =>
    match target with
    | object own properties' required' =>
      object { own with format := none } (mergeProperties properties' properties)
        (Ordered.union required' required)
    | _ => object { target.label with format := none } properties required
  | emptyArray _ =>
    match target with
    | arrayOf own items => arrayOf { own with format := none } items
    | mixedArray own => mixedArray { own with format := none }
    | _ => emptyArray { target.label with format := none }
  | arrayOf _ items =>
    match target with
    | arrayOf own items' => arrayOf { own with format := none } (mergeInto items' items)
    | mixedArray own => mixedArray { own with format := none }
    | _ => arrayOf { target.label with format := none } items
  | mixedArray _ => mixedArray { target.label with format := none }
  | union label branches =>
    let merged :=
      match target with
      | union own branches' => union own (mergeBranches branches' branches)
      | _ => union target.label branches
    merged.withFormat (mergedFormat merged.type target.format? label.format)

def mergeProperties (target : List (String × Node)) : List (String × Node) → List (String × Node)
  | [] => target
  | (name, child) :: rest =>
    mergeProperties
      (Keyed.alter name
        (fun
          | some present => mergeInto present child
          | none => child)
        target)
      rest

def mergeBranches (target : List Node) : List Node → List Node
  | [] => target
  | branch :: rest =>
    mergeBranches (absorb (fun present => mergeInto present branch) branch target) rest

end

def mergeAll? : List Node → Option Node
  | [] => none
  | first :: rest => some (rest.foldl mergeInto first)

end EventSchema.Node
