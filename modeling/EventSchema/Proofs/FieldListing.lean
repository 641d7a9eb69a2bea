import EventSchema.Proofs.DocumentReading
import EventSchema.Proofs.Fields

namespace EventSchema

namespace Path

theorem Tabular.child {path : Path} (tabular : Tabular path) (name : String) :
    Tabular (path.child name) := by
  induction tabular with
  | property first => exact .nested first _ (.property name)
  | nested first _ _ ih => exact .nested first _ ih
  | element first _ _ ih => exact .element first _ ih

theorem Tabular.items_child {path : Path} (tabular : Tabular path) (name : String) :
    Tabular (path.items.child name) := by
  induction tabular with
  | property first => exact .element first _ (.property name)
  | nested first _ _ ih => exact .nested first _ ih
  | element first _ _ ih => exact .element first _ ih

theorem eq_or_lt_of_prefix {outer path : Path} (inside : outer <+: path) :
    outer < path ∨ outer = path := by
  obtain ⟨rest, rfl⟩ := inside
  cases rest with
  | nil => exact .inr (List.append_nil outer).symm
  | cons step rest => exact .inl (lt_append outer step rest)

end Path

def Field.Precedes (first second : Field) : Prop :=
  first.path < second.path ∨ first.path = second.path

namespace Node

theorem Everywhere.sorted {tree : Node} (ordered : tree.Everywhere InKeyOrder) : tree.Sorted := by
  intro path label properties required present
  exact ((ordered.get? present).own label properties required rfl).1

/-- The nodes that are fields: properties of the root, of an object that is a field, or of an object
that is the items of one. -/
inductive IsField (root : Node) : Path → Node → Prop where
  | top (name : String) (node : Node) (found : root.step? (.property name) = some node) :
      IsField root [.property name] node
  | nested (path : Path) (object : Node) (name : String) (node : Node)
      (outer : IsField root path object) (found : object.step? (.property name) = some node) :
      IsField root (path.child name) node
  | element (path : Path) (array items : Node) (name : String) (node : Node)
      (outer : IsField root path array) (described : array.step? .items = some items)
      (found : items.step? (.property name) = some node) :
      IsField root (path.items.child name) node

theorem IsField.get? {root node : Node} {path : Path} (isField : root.IsField path node) :
    path.Tabular ∧ root.get? path = some node := by
  induction isField with
  | top name node found => exact ⟨.property name, by rw [get?_single, found]⟩
  | nested path object name node _ found ih =>
      obtain ⟨tabular, present⟩ := ih
      exact ⟨tabular.child name, by simp [Path.child, get?_append, present, found]⟩
  | element path array items name node _ described found ih =>
      obtain ⟨tabular, present⟩ := ih
      refine ⟨tabular.items_child name, ?_⟩
      simp [Path.child, Path.items, get?_append, get?_cons, present, described, found]

theorem isField_iff {root node : Node} {path : Path} :
    root.IsField path node ↔ path.Tabular ∧ root.get? path = some node := by
  refine ⟨IsField.get?, ?_⟩
  rintro ⟨tabular, present⟩
  -- a listed path is cut off at its end, where one or two steps may go
  induction length : path.length using Nat.strong_induction_on generalizing path node with
  | _ total ih =>
      subst length
      obtain ⟨outer, name, rfl⟩ := tabular.last_property
      obtain ⟨object, child, above, found, last⟩ := exists_step_of_get? present
      obtain rfl : child = node := Option.some.inj last
      rcases tabular.outer_cases with ⟨rfl, -⟩ | inner | ⟨array, -, rfl, inner, -⟩
      · obtain rfl : root = object := Option.some.inj above
        exact .top name child found
      · exact .nested outer object name child (ih _ (by simp) inner above rfl) found
      · obtain ⟨whole, items, above', described, last'⟩ := exists_step_of_get? above
        obtain rfl : items = object := Option.some.inj last'
        exact .element array whole items name child (ih _ (by simp) inner above' rfl) described found

def recordCount : Node → Nat
  | union _ [_, _] => 2
  | union _ _ => 0
  | _ => 1

theorem length_ownFields (name : String) (isRequired : Bool) (path : Path) (node : Node) :
    (node.ownFields name isRequired path).length = node.recordCount := by
  cases node with
  | union label branches => rcases branches with _ | ⟨first, _ | ⟨second, _ | ⟨third, rest⟩⟩⟩ <;> rfl
  | _ => rfl

theorem recordCount_eq_zero_iff (node : Node) :
    node.recordCount = 0 ↔ ∃ label branches, node = union label branches ∧ branches.length ≠ 2 := by
  cases node with
  | union label branches =>
      rcases branches with _ | ⟨first, _ | ⟨second, _ | ⟨third, rest⟩⟩⟩ <;> simp [recordCount]
  | _ => simp [recordCount]

theorem recordCount_le (node : Node) : node.recordCount ≤ 2 := by
  rw [recordCount.eq_def]
  split <;> omega

section Sorted

variable {root : Node} (sorted : root.Sorted)

include sorted

theorem length_filter_fields {path : Path} {node : Node} (isField : root.IsField path node) :
    (root.fields.filter (·.path = path)).length = node.recordCount := by
  obtain ⟨tabular, present⟩ := isField.get?
  obtain ⟨outer, name, rfl⟩ := tabular.last_property
  obtain ⟨isRequired, has⟩ := hasProperty_of_get? present
  rw [filter_fields sorted tabular has, length_ownFields]

theorem isField_of_mem_fields {field : Field} (member : field ∈ root.fields) :
    ∃ node, root.IsField field.path node := by
  obtain ⟨outer, name, isRequired, node, tabular, has, own⟩ := (mem_fields_iff sorted field).mp member
  rw [(mem_ownFields own).2.2.2]
  exact ⟨node, isField_iff.mpr ⟨tabular, get?_of_hasProperty has⟩⟩

/-- Fields are recorded, all but unions of other than two alternatives. -/
theorem mem_path_fields_iff (path : Path) :
    path ∈ root.fields.map Field.path ↔
      ∃ node, root.IsField path node ∧
        ∀ label branches, node = union label branches → branches.length = 2 := by
  have counted : ∀ node, root.IsField path node →
      (path ∈ root.fields.map Field.path ↔ node.recordCount ≠ 0) := by
    intro node isField
    rw [← length_filter_fields sorted isField, Ne, List.length_eq_zero_iff, List.filter_eq_nil_iff]
    simp
  have described : ∀ node : Node, node.recordCount ≠ 0 ↔
      ∀ label branches, node = union label branches → branches.length = 2 := by
    intro node
    rw [Ne, recordCount_eq_zero_iff]
    simp
  constructor
  · intro listed
    obtain ⟨field, member, rfl⟩ := List.mem_map.mp listed
    obtain ⟨node, isField⟩ := isField_of_mem_fields sorted member
    exact ⟨node, isField, (described node).mp ((counted node isField).mp listed)⟩
  · rintro ⟨node, isField, paired⟩
    exact (counted node isField).mpr ((described node).mpr paired)

end Sorted

theorem fieldsOfProperties_pairwise {path : Path} {required : List String}
    {properties : List (String × Node)} (increasing : Keyed.Increasing properties)
    (each : ∀ entry ∈ properties, ∀ name isRequired path,
      (entry.2.fieldsOf name isRequired path).Pairwise Field.Precedes) :
    (fieldsOfProperties path required properties).Pairwise Field.Precedes := by
  rw [fieldsOfProperties_eq_flatMap]
  refine List.pairwise_flatMap.mpr ⟨fun entry member => each entry member _ _ _, ?_⟩
  rw [Keyed.Increasing, Keyed.keys, Ordered.Increasing, List.pairwise_map] at increasing
  apply increasing.imp
  intro entry entry' less field inside field' inside'
  obtain ⟨rest, place⟩ := prefix_of_mem_fieldsOf inside
  obtain ⟨rest', place'⟩ := prefix_of_mem_fieldsOf inside'
  left
  rw [← place, ← place', Path.child, Path.child, List.append_assoc, List.append_assoc]
  apply List.append_left_lt
  exact List.cons_lt_cons_iff.mpr (.inl ((Step.property_lt_property _ _).mpr less))

/-- A node is recorded before what lies below it, and that in the order of its names. -/
theorem fieldsOf_pairwise {node : Node} (sorted : node.Sorted) (name : String) (isRequired : Bool)
    (path : Path) : (node.fieldsOf name isRequired path).Pairwise Field.Precedes := by
  induction node using opens_induction generalizing name isRequired path with
  | step node ih =>
      have own : (node.ownFields name isRequired path).Pairwise Field.Precedes := by
        apply List.pairwise_of_forall_mem_list
        intro first member second member'
        exact .inr ((mem_ownFields member).2.2.2.trans (mem_ownFields member').2.2.2.symm)
      by_cases open' : ∃ inward properties required, node.Opens inward properties required
      · obtain ⟨inward, properties, required, opens⟩ := open'
        obtain ⟨label, present⟩ := get?_of_opens opens
        have increasing := sorted inward label properties required present
        rw [fieldsOf_of_opens opens]
        refine List.pairwise_append.mpr ⟨own, fieldsOfProperties_pairwise increasing ?_, ?_⟩
        · intro entry member
          have found := Keyed.lookup_of_mem increasing member
          exact ih inward properties required opens entry member
            (sorted.get? ((get?_append_property inward entry.1 node entry.2).mpr
              ⟨_, _, _, present, found⟩))
        · intro first member second member'
          obtain ⟨last, rest, -, place⟩ := path_of_mem_fieldsOfProperties member'
          rw [Field.Precedes, (mem_ownFields member).2.2.2, place, List.append_assoc]
          exact Path.eq_or_lt_of_prefix (List.prefix_append path _)
      · rw [fieldsOf_of_closed open']
        exact own

theorem fields_pairwise {root : Node} (sorted : root.Sorted) : root.fields.Pairwise Field.Precedes := by
  cases root with
  | object label properties required =>
      have increasing := sorted [] label properties required rfl
      apply fieldsOfProperties_pairwise increasing
      intro entry member
      have found := Keyed.lookup_of_mem increasing member
      exact fieldsOf_pairwise (sorted.get?
        ((get?_append_property [] entry.1 _ entry.2).mpr ⟨_, _, _, rfl, found⟩))
  | _ => exact List.Pairwise.nil

def choices : Node → List Node
  | union _ branches => branches
  | node => [node]

structure Records (root : Node) (field : Field) : Prop where
  shown : ∃ node, root.get? field.path = some node ∧ ∃ part ∈ node.choices,
    field.type = part.type ∧ ∀ format, field.format = some format → part.format? = some format
  required : ∃ outer label properties required,
    field.path = outer ++ [.property field.property] ∧
      root.get? outer = some (object label properties required) ∧
        (field.isRequired = true ↔ field.property ∈ required)
  display : field.display = field.path.display

theorem choice_of_mem_ownFields {name : String} {isRequired : Bool} {path : Path} {node : Node}
    {field : Field} (member : field ∈ node.ownFields name isRequired path) :
    ∃ part ∈ node.choices,
      field.type = part.type ∧ ∀ format, field.format = some format → part.format? = some format := by
  cases node with
  | union label branches =>
      rcases branches with _ | ⟨first, _ | ⟨second, _ | ⟨third, rest⟩⟩⟩
      · cases member
      · cases member
      · simp only [ownFields, List.mem_cons, List.not_mem_nil, or_false] at member
        rcases member with rfl | rfl
        · exact ⟨first, List.mem_cons_self, rfl, fun _ => id⟩
        · exact ⟨second, List.mem_cons_of_mem _ List.mem_cons_self, rfl, fun _ => id⟩
      · cases member
  | scalar label type =>
      obtain rfl := List.mem_singleton.mp member
      exact ⟨_, List.mem_cons_self, rfl, fun _ => id⟩
  | object _ _ _ | emptyArray _ | arrayOf _ _ | mixedArray _ =>
      obtain rfl := List.mem_singleton.mp member
      exact ⟨_, List.mem_cons_self, rfl, by simp⟩

theorem records_of_mem_fields {root : Node} (sorted : root.Sorted) {field : Field}
    (member : field ∈ root.fields) : root.Records field := by
  obtain ⟨outer, name, isRequired, node, -, has, own⟩ := (mem_fields_iff sorted field).mp member
  obtain ⟨property, flag, display, place⟩ := mem_ownFields own
  constructor
  · exact ⟨node, by rw [place]; exact get?_of_hasProperty has, choice_of_mem_ownFields own⟩
  · obtain ⟨label, properties, required, container, -, same⟩ := has
    refine ⟨outer, label, properties, required, by rw [place, property], container, ?_⟩
    rw [flag, same, property, decide_eq_true_iff]
  · rw [display, place]

/-- Records come in the order of their paths. The fields of the tree are recorded, save unions of
other than two alternatives: a union of two alternatives twice, any other field once. Each record
says what the tree holds at its path. -/
theorem fields_describe (tree : Node) (ordered : tree.Everywhere InKeyOrder) :
    tree.fields.Pairwise Field.Precedes ∧
      (∀ path, path ∈ tree.fields.map Field.path ↔
        ∃ node, tree.IsField path node ∧
          ∀ label branches, node = union label branches → branches.length = 2) ∧
        (∀ path node, tree.IsField path node →
          tree.fields.countP (·.path = path) = node.recordCount) ∧
          ∀ field ∈ tree.fields, tree.Records field := by
  have sorted := ordered.sorted
  refine ⟨fields_pairwise sorted, mem_path_fields_iff sorted, ?_, ?_⟩
  · intro path node isField
    rw [List.countP_eq_length_filter]
    exact length_filter_fields sorted isField
  · exact fun field member => records_of_mem_fields sorted member

/-- A union of three alternatives has no record, and nothing is looked for in arrays of arrays. -/
theorem fields_describe_nested :
    let tree := object {}
      [("a", object {} [("b", scalar { format := some .email } .string)] ["b"]),
        ("u", union {} [scalar {} .boolean, scalar { format := some .date } .string]),
        ("w", union {} [scalar {} .boolean, scalar {} .string, emptyArray {}]),
        ("xs", arrayOf {} (object {} [("y", scalar {} .integer)] [])),
        ("zs", arrayOf {} (arrayOf {} (object {} [("y", scalar {} .integer)] [])))] ["a", "u"]
    tree.Everywhere InKeyOrder ∧
      tree.fields.map Field.display = ["a", "a.b", "u", "u", "xs", "xs[*].y", "zs"] ∧
        tree.fields.Pairwise Field.Precedes ∧
          [.property "w"] ∉ tree.fields.map Field.path ∧
            tree.fields.countP (·.path = [.property "u"]) = 2 ∧
              ∀ field ∈ tree.fields, tree.Records field := by
  intro tree
  have ordered : tree.Everywhere InKeyOrder := by decide
  obtain ⟨pairwise, listed, counted, records⟩ := fields_describe tree ordered
  refine ⟨ordered, by decide, pairwise, ?_, counted _ _ (.top "u" _ rfl), records⟩
  rw [listed]
  rintro ⟨node, isField, paired⟩
  obtain rfl := Option.some.inj (isField.get?.2.symm.trans rfl)
  exact absurd (paired _ _ rfl) (by decide)

end Node

end EventSchema
