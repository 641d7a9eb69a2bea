import EventSchema.Schema.Node
/-!
Unions hold at most one branch for each family of types, at most two branches, in the order of
types.
-/
namespace EventSchema.Node

def maxBranches : Nat := 2

/-- Branches in the order of their types; branches of one type keep their order. -/
def sortBranches (branches : List Node) : List Node :=
  branches.mergeSort fun left right => left.type.rank ≤ right.type.rank

/-- A further alternative is dropped when there is no room. -/
def addBranch (branches : List Node) (branch : Node) : List Node :=
  if branches.length < maxBranches then sortBranches (branches ++ [branch]) else branches

def absorb (combine : Node → Node) (newcomer : Node) (branches : List Node) : List Node :=
  (go branches).getD (addBranch branches newcomer)
where
  go : List Node → Option (List Node)
    | [] => none
    | branch :: rest =>
      if branch.family = newcomer.family then some (combine branch :: rest)
      else (go rest).map (branch :: ·)

/-- The format after merging: the newer one wins unless there is none, and objects and arrays have
no format. -/
def mergedFormat (type : ValueType) (older newer : Option Format) : Option Format :=
  if type.isStructural then none else newer.or older

end EventSchema.Node
