import EventSchema.Proofs.Finishing
import EventSchema.Proofs.Leaves
import EventSchema.Proofs.StoredTypes

namespace EventSchema

namespace Node

/-- Nothing stored is noted on a node yet, and a format only if it is a scalar. -/
structure Unstored (node : Node) : Prop where
  arrival : node.notes.arrival = none
  dataType : node.notes.dataType = none
  format : node.isScalar = false → node.format? = none

end Node

namespace Column

theorem leavesBelow_congr {node node' : Node} (segments : List String)
    (same : node.properties? = node'.properties?) :
    leavesBelow segments node = leavesBelow segments node' := by
  rw [leavesBelow_eq_flatMap, leavesBelow_eq_flatMap, same]

theorem ofLeaf_retained (naming : Naming) (segments : List String) {leaf : Node}
    (fits : leaf.isScalar = false → leaf.format? = none) :
    ofLeaf naming segments leaf.retained = ofLeaf naming segments leaf := by
  have format : leaf.retained.format? = leaf.format? := by
    rw [Node.format?, Node.label_retained]
    cases scalar : leaf.isScalar with
    | true => rfl
    | false => exact (fits scalar).symm
  have dataType : leaf.retained.notes.dataType = leaf.notes.dataType := by
    rw [Node.notes, Node.label_retained]
    rfl
  have arrival : leaf.retained.notes.arrival = leaf.notes.arrival := by
    rw [Node.notes, Node.label_retained]
    rfl
  simp only [ofLeaf, Node.type_retained, format, dataType, arrival]

theorem ofLeaf_store (naming : Naming) (segments : List String) {leaf : Node}
    (unstored : leaf.Unstored) : ofLeaf naming segments leaf.store = ofLeaf naming segments leaf := by
  have arrival : leaf.label.notes.arrival = none := unstored.arrival
  have dataType : leaf.label.notes.dataType = none := unstored.dataType
  simp only [ofLeaf, Node.type_store, Node.notes, Node.format?, Node.label_store, Node.storedLabel,
    arrival, dataType]
  cases stored : storage? leaf.type leaf.label.format with
  | some entry => rfl
  | none =>
      rw [storage?_eq_none_iff] at stored
      simp [arrival, dataType, (storage?_eq_none_iff leaf.type none).mpr stored]

theorem addLeaves_congr (naming : Naming) (columns : List (String × Column))
    {leaves leaves' : List (List String × Node)}
    (same : (leaves.map fun leaf => ofLeaf naming leaf.1 leaf.2) =
      leaves'.map fun leaf => ofLeaf naming leaf.1 leaf.2) :
    addLeaves naming columns leaves = addLeaves naming columns leaves' := by
  have through : ∀ leaves, addLeaves naming columns leaves =
      (leaves.map fun leaf => ofLeaf naming leaf.1 leaf.2).foldl
        (fun columns column => Keyed.insert column.name column columns) columns := by
    intro leaves
    rw [List.foldl_map]
    rfl
  rw [through, through, same]

/-- Storing types in the tree first makes no difference to the columns. -/
theorem ofSchema_mapTypes (tree : Node) (unstored : tree.Everywhere Node.Unstored)
    (transformations : List Transformation) (denorms : List Denorm) (naming : Naming) :
    ofSchema tree.mapTypes.document transformations denorms naming =
      ofSchema tree.document transformations denorms naming := by
  have below : leavesBelow [] tree.mapTypes.retained =
      (leavesBelow [] tree).map fun leaf => (leaf.1, leaf.2.store.retained) := by
    have root : tree.mapTypes.retained.properties? = tree.store.retained.properties? := by
      rw [Node.properties?_retained, Node.properties?_retained, Node.mapTypes,
        Node.properties?_relabel]
    rw [leavesBelow_congr [] root, leavesBelow_map Node.properties?_retained,
      leavesBelow_map Node.properties?_store, List.map_map]
    rfl
  have own : addLeaves naming [] (leavesBelow [] tree.mapTypes.retained) =
      addLeaves naming [] (leavesBelow [] tree.retained) := by
    apply addLeaves_congr
    rw [below, leavesBelow_map Node.properties?_retained, List.map_map, List.map_map]
    apply List.map_congr_left
    intro leaf member
    have noted := (everywhere_of_mem_leavesBelow unstored member).2.own
    calc
      ofLeaf naming leaf.1 leaf.2.store.retained = ofLeaf naming leaf.1 leaf.2.store :=
        ofLeaf_retained naming leaf.1 fun _ => Node.format?_store leaf.2
      _ = ofLeaf naming leaf.1 leaf.2 := ofLeaf_store naming leaf.1 noted
      _ = ofLeaf naming leaf.1 leaf.2.retained :=
        (ofLeaf_retained naming leaf.1 noted.format).symm
  rw [ofSchema, ofSchema, Node.ofDocument_document, Node.ofDocument_document]
  simp only [bind, Except.bind, own]

/-- A union that starts with null has no stored type, and a transformation takes the type of the
column it replaces. -/
theorem ofSchema_mapTypes_replaced :
    let tree : Node := .object {}
      [("a", .object {} [("b", .scalar { format := some .epoch } .integer)] []),
        ("n", .union {} [.scalar {} .null, .scalar { format := some .date } .string]),
        ("xs", .arrayOf {} (.scalar { format := some .email } .string))] ["a"]
    let transformations : List Transformation := [{ key := "a.b", function := "later" }]
    let denorms : List Denorm := [{ name := "d", document := tree.document }]
    tree.Everywhere Node.Unstored ∧
      ofSchema tree.mapTypes.document transformations denorms .dotted =
        ofSchema tree.document transformations denorms .dotted := by
  intro tree transformations denorms
  have scalar : ∀ format type, (Node.scalar { format } type).Everywhere Node.Unstored := by
    intro format type
    exact .scalar _ _ ⟨rfl, rfl, by simp [Node.isScalar]⟩
  have unstored : tree.Everywhere Node.Unstored := by
    refine .object _ _ _ ⟨rfl, rfl, fun _ => rfl⟩ ?_
    simp only [List.forall_mem_cons]
    refine ⟨.object _ _ _ ⟨rfl, rfl, fun _ => rfl⟩ ?_, .union _ _ ⟨rfl, rfl, fun _ => rfl⟩ ?_,
      .arrayOf _ _ ⟨rfl, rfl, fun _ => rfl⟩ (scalar _ _), by simp⟩
    · simp [scalar]
    · simp [scalar]
  exact ⟨unstored, ofSchema_mapTypes tree unstored transformations denorms .dotted⟩

end Column

end EventSchema
