import EventSchema.Schema.Shape
/-!
Arrays are described only where samples agree on the shape of their items. Where they do not, the
array becomes one of mixed elements in the trees of all samples and in the merged tree.
-/
namespace EventSchema

namespace Node

mutual

/-- The arrays in a tree that say something about their elements, with their paths. Unions are not
looked into. -/
def arraysFrom (path : Path) : Node → List (Path × Node)
  | object _ properties _ => arraysFromProperties path properties
  | arrayOf label items => (path, arrayOf label items) :: arraysFrom path.items items
  | mixedArray label => [(path, mixedArray label)]
  | _ => []

def arraysFromProperties (path : Path) : List (String × Node) → List (Path × Node)
  | [] => []
  | (name, child) :: rest => arraysFrom (path.child name) child ++ arraysFromProperties path rest

end

def arrays (root : Node) : List (Path × Node) := root.arraysFrom Path.root

def degrade (path : Path) (root : Node) : Node :=
  root.update
    (fun
      | emptyArray label | arrayOf label _ | mixedArray label =>
        mixedArray { label with format := none }
      | other => other)
    path

end Node

structure Comparison where
  perSample : List Node
  merged : Node
  /-- The paths at which arrays were found to differ, outer ones first. -/
  degraded : List Path

namespace Comparison

def observed (perSample : List Node) : List (Path × List Node) :=
  (perSample.flatMap Node.arrays).foldl
    (fun observed (path, node) => Keyed.alter path (fun nodes => nodes.getD [] ++ [node]) observed)
    []

def disagree : List Node → Bool
  | [] => false
  | first :: others => others.any fun other => !first.sameShape other

/-- Paths under one that differs already are not looked at. -/
def divergent (observed : List (Path × List Node)) : List Path :=
  observed.foldl
    (fun paths (path, nodes) =>
      if paths.any path.startsWith || !disagree nodes then paths else paths ++ [path])
    []

def compare (perSample : List Node) (merged : Node) : Comparison :=
  let degraded := divergent (observed perSample)
  let degradeAll (root : Node) : Node := degraded.foldl (fun tree path => tree.degrade path) root
  { perSample := perSample.map degradeAll, merged := degradeAll merged, degraded }

end Comparison

end EventSchema
