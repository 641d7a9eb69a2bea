import EventSchema.Proofs.Leaves

namespace EventSchema.Column

def named (naming : Naming) (leaf : List String × Node) : String × Column :=
  (naming.join leaf.1, ofLeaf naming leaf.1 leaf.2)

theorem addLeaves_nil (naming : Naming) (leaves : List (List String × Node)) :
    addLeaves naming [] leaves = Keyed.ofList (leaves.map (named naming)) := by
  rw [Keyed.ofList, List.foldl_map]
  rfl

theorem names_values {columns : List (String × Column)}
    (own : ∀ entry ∈ columns, entry.2.name = entry.1) :
    (Keyed.values columns).map name = Keyed.keys columns := by
  rw [Keyed.values, List.map_map, Keyed.keys]
  exact List.map_congr_left own

/-- A tree whose leaves become columns, and the names that they are nested under. -/
structure Origin where
  outer : List String
  tree : Node

namespace Origin

def HasLeaf (origin : Origin) (names : List String) (leaf : Node) : Prop :=
  ∃ inner, names = origin.outer ++ inner ∧ origin.tree.LeafAt inner leaf

def Names (origin : Origin) (naming : Naming) (name : String) : Prop :=
  ∃ names leaf, origin.HasLeaf names leaf ∧ naming.join names = name

/-- Of the leaves whose names join to the name, the one with the last names. -/
structure LastLeaf (origin : Origin) (naming : Naming) (name : String) (names : List String)
    (leaf : Node) : Prop where
  present : origin.HasLeaf names leaf
  joined : naming.join names = name
  last : ∀ names' leaf', origin.HasLeaf names' leaf' → names < names' → naming.join names' ≠ name

def leaves (origin : Origin) : List (List String × Node) := leavesBelow origin.outer origin.tree

theorem hasLeaf_root_iff (tree : Node) (names : List String) (leaf : Node) :
    HasLeaf ⟨[], tree⟩ names leaf ↔ tree.LeafAt names leaf := by
  simp [HasLeaf]

theorem mem_leaves_iff {origin : Origin} (ordered : origin.tree.Everywhere Node.InKeyOrder)
    (leaf : List String × Node) : leaf ∈ origin.leaves ↔ origin.HasLeaf leaf.1 leaf.2 :=
  mem_leavesBelow_iff ordered leaf

theorem lookup_leaves_iff (origin : Origin) (ordered : origin.tree.Everywhere Node.InKeyOrder)
    (naming : Naming) (name : String) (column : Column) :
    Keyed.lookup name (Keyed.ofList (origin.leaves.map (named naming))) = some column ↔
      ∃ names leaf, origin.LastLeaf naming name names leaf ∧ column = ofLeaf naming names leaf := by
  have sorted : origin.leaves.Pairwise fun first second => first.1 < second.1 :=
    leavesBelow_pairwise ordered
  rw [Keyed.lookup_ofList_map_iff (named naming) sorted fun _ _ => asymm_of (· < ·)]
  constructor
  · rintro ⟨leaf, inside, same, last⟩
    cases same
    refine ⟨leaf.1, leaf.2, ⟨(mem_leaves_iff ordered leaf).mp inside, rfl, ?_⟩, rfl⟩
    intro names' leaf' present later
    exact last (names', leaf') ((mem_leaves_iff ordered _).mpr present) later
  · rintro ⟨names, leaf, ⟨present, rfl, last⟩, rfl⟩
    refine ⟨(names, leaf), (mem_leaves_iff ordered _).mpr present, rfl, ?_⟩
    intro other inside later
    exact last other.1 other.2 ((mem_leaves_iff ordered other).mp inside) later

theorem lookup_leaves_eq_none_iff (origin : Origin)
    (ordered : origin.tree.Everywhere Node.InKeyOrder) (naming : Naming) (name : String) :
    Keyed.lookup name (Keyed.ofList (origin.leaves.map (named naming))) = none ↔
      ¬ origin.Names naming name := by
  rw [Keyed.lookup_eq_none_iff, Keyed.keys_ofList, Ordered.mem_ofList, Keyed.keys, List.map_map,
    List.mem_map, not_iff_not]
  constructor
  · rintro ⟨leaf, inside, same⟩
    exact ⟨leaf.1, leaf.2, (mem_leaves_iff ordered leaf).mp inside, same⟩
  · rintro ⟨names, leaf, present, same⟩
    exact ⟨(names, leaf), (mem_leaves_iff ordered _).mpr present, same⟩

end Origin

end EventSchema.Column
