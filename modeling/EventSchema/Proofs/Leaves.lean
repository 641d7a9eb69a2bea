import EventSchema.Column.Ingestion
import EventSchema.Proofs.DocumentReading

namespace EventSchema

/-- A node that is no object and that the names of properties lead to, at least one. -/
def Node.LeafAt (root : Node) (names : List String) (leaf : Node) : Prop :=
  names ≠ [] ∧ leaf.isObject = false ∧ root.get? (names.map .property) = some leaf

theorem Node.property_induction {motive : Node → Prop}
    (leaf : ∀ node : Node, node.isObject = false → motive node)
    (object : ∀ label properties required, (∀ entry ∈ properties, motive entry.2) →
      motive (.object label properties required)) : (node : Node) → motive node
  | .object label properties required =>
      object label properties required fun entry _ =>
        property_induction leaf object entry.2
  | .scalar _ _ | .emptyArray _ | .arrayOf _ _ | .mixedArray _ | .union _ _ => leaf _ rfl
termination_by node => sizeOf node
decreasing_by
  have listed := List.sizeOf_lt_of_mem ‹entry ∈ properties›
  cases entry
  simp only [Prod.mk.sizeOf_spec, Node.object.sizeOf_spec] at listed ⊢
  omega

theorem Node.properties?_eq_none_iff (node : Node) :
    node.properties? = none ↔ node.isObject = false := by
  cases node <;> simp [properties?, isObject]

theorem Node.get?_property_of_not_object {node : Node} (other : node.isObject = false) (name : String)
    (path : Path) : node.get? (.property name :: path) = none := by
  cases node with
  | object label properties required => cases other
  | _ => rfl

namespace Column

theorem propertyLeaves_eq_flatMap (segments : List String) (properties : List (String × Node)) :
    propertyLeaves segments properties =
      properties.flatMap fun entry => leaves (segments ++ [entry.1]) entry.2 := by
  induction properties with
  | nil => rfl
  | cons entry rest ih => simp [propertyLeaves, ih]

theorem leaves_eq (segments : List String) (node : Node) :
    leaves segments node =
      match node.properties? with
      | some properties =>
        properties.flatMap fun entry => leaves (segments ++ [entry.1]) entry.2
      | none => [(segments, node)] := by
  cases node with
  | object label properties required => exact propertyLeaves_eq_flatMap segments properties
  | _ => rfl

theorem leaves_of_not_object (segments : List String) {node : Node}
    (other : node.isObject = false) : leaves segments node = [(segments, node)] := by
  rw [leaves_eq, (Node.properties?_eq_none_iff node).mpr other]

theorem leavesBelow_of_object (segments : List String) {node : Node} (object : node.isObject = true) :
    leavesBelow segments node = leaves segments node := by
  cases node with
  | object label properties required => rfl
  | _ => cases object

theorem leavesBelow_of_not_object (segments : List String) {node : Node}
    (other : node.isObject = false) : leavesBelow segments node = [] := by
  cases node with
  | object label properties required => cases other
  | _ => rfl

theorem leavesBelow_eq_flatMap (segments : List String) (node : Node) :
    leavesBelow segments node =
      (node.properties?.getD []).flatMap fun entry => leaves (segments ++ [entry.1]) entry.2 := by
  cases node with
  | object label properties required => exact propertyLeaves_eq_flatMap segments properties
  | _ => rfl

theorem leavesBelow_map {change : Node → Node}
    (kept : ∀ node, (change node).properties? =
      node.properties?.map (List.map fun entry => (entry.1, change entry.2)))
    (segments : List String) (node : Node) :
    leavesBelow segments (change node) =
      (leavesBelow segments node).map fun leaf => (leaf.1, change leaf.2) := by
  have inner : ∀ node segments, leaves segments (change node) =
      (leaves segments node).map fun leaf => (leaf.1, change leaf.2) := by
    intro node
    induction node using Node.property_induction with
    | leaf node other =>
        intro segments
        rw [leaves_eq, kept, (Node.properties?_eq_none_iff node).mpr other,
          leaves_of_not_object segments other]
        rfl
    | object label properties required ih =>
        intro segments
        rw [leaves_eq, kept, leaves_eq]
        simp only [Node.properties?, Option.map_some, List.flatMap_map, List.map_flatMap]
        apply List.flatMap_congr
        intro entry member
        exact ih entry member _
  rw [leavesBelow_eq_flatMap, leavesBelow_eq_flatMap, kept, List.map_flatMap]
  cases node.properties? with
  | none => rfl
  | some properties => simp [List.flatMap_map, inner]

theorem everywhere_of_mem_leavesBelow {holds : Node → Prop} {node : Node} {segments : List String}
    {leaf : List String × Node} (everywhere : node.Everywhere holds)
    (member : leaf ∈ leavesBelow segments node) :
    leaf.2.isObject = false ∧ leaf.2.Everywhere holds := by
  have inner : ∀ segments, leaf ∈ leaves segments node →
      leaf.2.isObject = false ∧ leaf.2.Everywhere holds := by
    clear member
    induction node using Node.property_induction with
    | leaf node other =>
        intro segments member
        rw [leaves_of_not_object segments other, List.mem_singleton] at member
        subst member
        exact ⟨other, everywhere⟩
    | object label properties required ih =>
        intro segments member
        rw [leaves_eq] at member
        obtain ⟨entry, listed, inside⟩ := List.mem_flatMap.mp member
        cases everywhere with
        | object _ _ _ _ children => exact ih entry listed (children entry listed) _ inside
  cases node with
  | object label properties required => exact inner segments member
  | _ => cases member

section InKeyOrder

variable {node : Node} {segments : List String}

theorem mem_leaves_iff (ordered : node.Everywhere Node.InKeyOrder) (leaf : List String × Node) :
    leaf ∈ leaves segments node ↔
      ∃ names, leaf.1 = segments ++ names ∧ leaf.2.isObject = false ∧
        node.get? (names.map .property) = some leaf.2 := by
  rcases leaf with ⟨path, leaf⟩
  induction node using Node.property_induction generalizing segments with
  | leaf node other =>
      rw [leaves_of_not_object segments other, List.mem_singleton, Prod.mk.injEq]
      constructor
      · rintro ⟨rfl, rfl⟩
        exact ⟨[], by simp, other, rfl⟩
      · rintro ⟨names, same, -, found⟩
        cases names with
        | nil => exact ⟨by simpa using same, (Option.some.inj found).symm⟩
        | cons name rest =>
            rw [List.map_cons, Node.get?_property_of_not_object other] at found
            cases found
  | object label properties required ih =>
      cases ordered with
      | object _ _ _ own children =>
          obtain ⟨increasing, -⟩ := own label properties required rfl
          rw [leaves_eq]
          simp only [Node.properties?, List.mem_flatMap]
          constructor
          · rintro ⟨⟨name, child⟩, listed, inside⟩
            obtain ⟨names, same, other, found⟩ := (ih _ listed (children _ listed)).mp inside
            refine ⟨name :: names, by simpa using same, other, ?_⟩
            rw [List.map_cons, Node.get?_cons, Node.step?, Keyed.lookup_of_mem increasing listed]
            exact found
          · rintro ⟨names, same, other, found⟩
            cases names with
            | nil =>
                cases found
                cases other
            | cons name rest =>
                obtain ⟨child, step, inside⟩ := Option.bind_eq_some_iff.mp found
                have listed := Keyed.mem_of_lookup step
                refine ⟨(name, child), listed, (ih _ listed (children _ listed)).mpr ?_⟩
                exact ⟨rest, by simpa using same, other, inside⟩

theorem mem_leavesBelow_iff (ordered : node.Everywhere Node.InKeyOrder)
    (leaf : List String × Node) :
    leaf ∈ leavesBelow segments node ↔
      ∃ names, leaf.1 = segments ++ names ∧ node.LeafAt names leaf.2 := by
  rcases leaf with ⟨path, leaf⟩
  cases object : node.isObject with
  | false =>
      rw [leavesBelow_of_not_object segments object]
      refine iff_of_false List.not_mem_nil ?_
      rintro ⟨names, -, some, -, found⟩
      cases names with
      | nil => exact some rfl
      | cons name rest =>
          rw [List.map_cons, Node.get?_property_of_not_object object] at found
          cases found
  | true =>
      rw [leavesBelow_of_object segments object, mem_leaves_iff ordered]
      apply exists_congr
      intro names
      constructor
      · rintro ⟨same, other, found⟩
        refine ⟨same, ?_, other, found⟩
        rintro rfl
        cases found
        exact absurd object (Bool.eq_false_iff.mp other)
      · rintro ⟨same, -, other, found⟩
        exact ⟨same, other, found⟩

theorem leavesBelow_pairwise (ordered : node.Everywhere Node.InKeyOrder) :
    (leavesBelow segments node).Pairwise fun first second => first.1 < second.1 := by
  have inner : ∀ segments,
      (leaves segments node).Pairwise fun first second => first.1 < second.1 := by
    induction node using Node.property_induction with
    | leaf node other =>
        intro segments
        rw [leaves_of_not_object segments other]
        exact List.pairwise_singleton _ _
    | object label properties required ih =>
        intro segments
        cases ordered with
        | object _ _ _ own children =>
            obtain ⟨increasing, -⟩ := own label properties required rfl
            rw [leaves_eq]
            refine List.pairwise_flatMap.mpr ⟨?_, ?_⟩
            · intro entry member
              exact ih entry member (children entry member) _
            · rw [Keyed.Increasing, Keyed.keys, Ordered.Increasing, List.pairwise_map] at increasing
              refine increasing.imp_of_mem ?_
              intro entry entry' member member' less leaf inside leaf' inside'
              obtain ⟨names, same, -⟩ := (mem_leaves_iff (children _ member) leaf).mp inside
              obtain ⟨names', same', -⟩ := (mem_leaves_iff (children _ member') leaf').mp inside'
              rw [same, same', List.append_assoc, List.append_assoc]
              apply List.append_left_lt
              exact List.cons_lt_cons_iff.mpr (.inl less)
  cases object : node.isObject with
  | true => exact leavesBelow_of_object segments object ▸ inner segments
  | false => exact leavesBelow_of_not_object segments object ▸ List.Pairwise.nil

end InKeyOrder

end Column

end EventSchema
