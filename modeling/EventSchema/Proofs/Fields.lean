import EventSchema.Proofs.Navigation
import EventSchema.Proofs.WellFormed
import EventSchema.Survey.Field

namespace EventSchema

/-- Fields are listed under paths that end in a property and look through the items of an array only
directly under a property. -/
inductive Path.Tabular : Path → Prop where
  | property (name : String) : Tabular [.property name]
  | nested (name : String) (path : Path) (inner : Tabular path) : Tabular (.property name :: path)
  | element (name : String) (path : Path) (inner : Tabular path) :
      Tabular (.property name :: .items :: path)

namespace Path.Tabular

theorem head_property {path : Path} (tabular : Tabular path) :
    ∃ name rest, path = .property name :: rest := by
  cases tabular with
  | property name => exact ⟨name, [], rfl⟩
  | nested name path _ => exact ⟨name, path, rfl⟩
  | element name path _ => exact ⟨name, .items :: path, rfl⟩

theorem last_property {path : Path} (tabular : Tabular path) :
    ∃ outer name, path = outer ++ [.property name] := by
  induction tabular with
  | property name => exact ⟨[], name, rfl⟩
  | nested name path _ ih =>
      rcases ih with ⟨outer, last, rfl⟩
      exact ⟨.property name :: outer, last, rfl⟩
  | element name path _ ih =>
      rcases ih with ⟨outer, last, rfl⟩
      exact ⟨.property name :: .items :: outer, last, rfl⟩

theorem not_nil : ¬ Tabular [] := by
  intro tabular
  cases tabular

theorem of_names (names : List String) (name : String) :
    Tabular (names.map .property ++ [.property name]) := by
  induction names with
  | nil => exact .property name
  | cons first rest ih => exact .nested first _ ih

theorem outer_cases {outer : Path} {step : Step} {rest : Path}
    (tabular : Tabular (outer ++ step :: rest)) :
    (outer = [] ∧ ∃ name, step = .property name) ∨ Tabular outer ∨
      ∃ array name, outer = array ++ [.items] ∧ Tabular array ∧ step = .property name := by
  generalize whole : outer ++ step :: rest = path at tabular
  induction tabular generalizing outer with
  | property name =>
      cases outer with
      | nil => exact .inl ⟨rfl, name, (List.cons.inj whole).1⟩
      | cons first outer => simp at whole
  | nested name path inner ih =>
      cases outer with
      | nil => exact .inl ⟨rfl, name, (List.cons.inj whole).1⟩
      | cons first outer =>
          rcases List.cons.inj whole with ⟨rfl, later⟩
          rcases ih later with ⟨rfl, -⟩ | further | ⟨array, last, rfl, further, same⟩
          · exact .inr (.inl (.property name))
          · exact .inr (.inl (.nested name _ further))
          · exact .inr (.inr ⟨.property name :: array, last, rfl, .nested name _ further, same⟩)
  | element name path inner ih =>
      cases outer with
      | nil => exact .inl ⟨rfl, name, (List.cons.inj whole).1⟩
      | cons first outer =>
          rcases List.cons.inj whole with ⟨rfl, later⟩
          cases outer with
          | nil => exact .inr (.inl (.property name))
          | cons second outer =>
              rcases List.cons.inj later with ⟨rfl, later'⟩
              rcases ih later' with ⟨rfl, next⟩ | further | ⟨array, last, rfl, further, same⟩
              · rcases next with ⟨last, same⟩
                exact .inr (.inr ⟨[.property name], last, rfl, .property name, same⟩)
              · exact .inr (.inl (.element name _ further))
              · exact .inr (.inr ⟨.property name :: .items :: array, last, rfl,
                  .element name _ further, same⟩)

end Path.Tabular

theorem Path.eq_append_of_last {path parent : Path} {name : String}
    (above : Path.parent? path = some parent) (last : Path.lastName? path = some name) :
    path = parent ++ [.property name] := by
  induction path using List.reverseRecOn with
  | nil => cases above
  | append_singleton front step _ =>
      have whole : front = parent := by simpa [Path.parent?] using above
      cases step with
      | items => simp [Path.lastName?] at last
      | property name' =>
          have same : name' = name := by simpa [Path.lastName?] using last
          rw [whole, same]

namespace Node

def Sorted (tree : Node) : Prop :=
  ∀ path label properties required, tree.get? path = some (object label properties required) →
    Keyed.Increasing properties

theorem Sorted.get? {tree node : Node} {path : Path} (sorted : tree.Sorted)
    (present : tree.get? path = some node) : node.Sorted := by
  intro rest label properties required found
  exact sorted (path ++ rest) label properties required (by rw [get?_append, present]; exact found)

theorem WellFormed.sorted {mixed : Prop} {tree : Node} (wellFormed : tree.WellFormed mixed) :
    tree.Sorted := by
  intro path label properties required present
  cases wellFormed.get? present with
  | object _ _ _ increasing _ => exact increasing

def recordedTypes : Node → List ValueType
  | union _ [first, second] => [first.type, second.type]
  | union _ _ => []
  | node => [node.type]

def ownFields (name : String) (isRequired : Bool) (path : Path) : Node → List Field
  | scalar label type => [⟨name, type, isRequired, path.display, path, label.format⟩]
  | object _ _ _ => [⟨name, .object, isRequired, path.display, path, none⟩]
  | emptyArray _ | mixedArray _ | arrayOf _ _ =>
    [⟨name, .array, isRequired, path.display, path, none⟩]
  | union _ [first, second] =>
    [⟨name, first.type, isRequired, path.display, path, first.format?⟩,
      ⟨name, second.type, isRequired, path.display, path, second.format?⟩]
  | union _ _ => []

theorem type_ownFields (name : String) (isRequired : Bool) (path : Path) (node : Node) :
    (node.ownFields name isRequired path).map Field.type = node.recordedTypes := by
  cases node with
  | union label branches => rcases branches with _ | ⟨first, _ | ⟨second, _ | ⟨third, rest⟩⟩⟩ <;> rfl
  | _ => rfl

theorem mem_ownFields {name : String} {isRequired : Bool} {path : Path} {node : Node} {field : Field}
    (member : field ∈ node.ownFields name isRequired path) :
    field.property = name ∧ field.isRequired = isRequired ∧ field.display = path.display ∧
      field.path = path := by
  simp only [ownFields] at member
  split at member <;>
    simp only [List.mem_cons, List.not_mem_nil, or_false] at member
  case h_6 =>
      rcases member with rfl | rfl <;> exact ⟨rfl, rfl, rfl, rfl⟩
  all_goals
    subst member
    exact ⟨rfl, rfl, rfl, rfl⟩

theorem recordedTypes_of_plain {node : Node} {type : ValueType}
    (plain : node.plainType? = some type) : node.recordedTypes = [type] := by
  cases node with
  | union _ _ => cases plain
  | _ => exact congrArg (fun shown => [shown]) (Option.some.inj plain)

theorem recordedTypes_ne_nil {mixed : Prop} {node : Node} (wellFormed : node.WellFormed mixed) :
    node.recordedTypes ≠ [] := by
  cases wellFormed <;> simp [recordedTypes]

/-- The properties that are listed below a node are those of an object: the node itself or, one step
inward, the items of an array. -/
inductive Opens : Node → Path → List (String × Node) → List String → Prop where
  | object (label : Label) (properties : List (String × Node)) (required : List String) :
      Opens (object label properties required) [] properties required
  | arrayOf (label label' : Label) (properties : List (String × Node)) (required : List String) :
      Opens (arrayOf label (.object label' properties required)) [.items] properties required

theorem get?_of_opens {node : Node} {inward : Path} {properties : List (String × Node)}
    {required : List String} (opens : node.Opens inward properties required) :
    ∃ label, node.get? inward = some (object label properties required) := by
  cases opens with
  | object label _ _ => exact ⟨label, rfl⟩
  | arrayOf _ label _ _ => exact ⟨label, rfl⟩

theorem opens_of_get?_items {node : Node} {label : Label} {properties : List (String × Node)}
    {required : List String}
    (present : node.get? [.items] = some (object label properties required)) :
    node.Opens [.items] properties required := by
  rw [get?_single] at present
  rcases (step?_items_eq_some_iff node _).mp present with ⟨outer, rfl⟩
  exact .arrayOf outer label properties required

theorem opens_induction {motive : Node → Prop}
    (step : ∀ node, (∀ inward properties required, node.Opens inward properties required →
      ∀ entry ∈ properties, motive entry.2) → motive node) (node : Node) : motive node := by
  refine step node ?_
  intro inward properties required opens entry member
  exact opens_induction step entry.2
termination_by sizeOf node
decreasing_by
  have listed := List.sizeOf_lt_of_mem member
  cases entry
  cases opens with
  | object _ _ _ =>
      simp only [Prod.mk.sizeOf_spec, Node.object.sizeOf_spec] at listed ⊢
      omega
  | arrayOf _ _ _ _ =>
      simp only [Prod.mk.sizeOf_spec, Node.object.sizeOf_spec, Node.arrayOf.sizeOf_spec] at listed ⊢
      omega

theorem fieldsOf_of_opens {node : Node} {inward : Path} {properties : List (String × Node)}
    {required : List String} (opens : node.Opens inward properties required) (name : String)
    (isRequired : Bool) (path : Path) :
    node.fieldsOf name isRequired path = node.ownFields name isRequired path ++
      fieldsOfProperties (path ++ inward) required properties := by
  cases opens <;> simp [fieldsOf, ownFields, Path.items]

theorem fieldsOf_of_closed {node : Node}
    (closed : ¬ ∃ inward properties required, node.Opens inward properties required) (name : String)
    (isRequired : Bool) (path : Path) :
    node.fieldsOf name isRequired path = node.ownFields name isRequired path := by
  cases node with
  | object label properties required => exact absurd ⟨_, _, _, .object _ _ _⟩ closed
  | arrayOf label items =>
      cases items with
      | object label' properties required => exact absurd ⟨_, _, _, .arrayOf _ _ _ _⟩ closed
      | _ => simp [fieldsOf, ownFields]
  | union label branches =>
      rcases branches with _ | ⟨first, _ | ⟨second, _ | ⟨third, rest⟩⟩⟩ <;>
        simp [fieldsOf, ownFields]
  | scalar _ _ | emptyArray _ | mixedArray _ => simp [fieldsOf, ownFields]

theorem fieldsOfProperties_eq_flatMap (path : Path) (required : List String)
    (properties : List (String × Node)) :
    fieldsOfProperties path required properties =
      properties.flatMap fun entry =>
        fieldsOf entry.1 (entry.1 ∈ required) (path.child entry.1) entry.2 := by
  induction properties with
  | nil => rfl
  | cons entry rest ih => simp [fieldsOfProperties, ih]

theorem mem_fieldsOfProperties (path : Path) (required : List String)
    (properties : List (String × Node)) (field : Field) :
    field ∈ fieldsOfProperties path required properties ↔
      ∃ name child, (name, child) ∈ properties ∧
        field ∈ fieldsOf name (name ∈ required) (path.child name) child := by
  simp [fieldsOfProperties_eq_flatMap]

theorem mem_fieldsOf {name : String} {isRequired : Bool} {path : Path} {node : Node} {field : Field}
    (member : field ∈ node.fieldsOf name isRequired path) :
    field ∈ node.ownFields name isRequired path ∨
      ∃ inward properties required, node.Opens inward properties required ∧
        field ∈ fieldsOfProperties (path ++ inward) required properties := by
  by_cases open' : ∃ inward properties required, node.Opens inward properties required
  · obtain ⟨inward, properties, required, opens⟩ := open'
    rw [fieldsOf_of_opens opens, List.mem_append] at member
    exact member.imp_right fun below => ⟨inward, properties, required, opens, below⟩
  · rw [fieldsOf_of_closed open'] at member
    exact .inl member

theorem prefix_of_mem_fieldsOf {name : String} {isRequired : Bool} {path : Path} {node : Node}
    {field : Field} (member : field ∈ node.fieldsOf name isRequired path) : path <+: field.path := by
  induction node using opens_induction generalizing name isRequired path with
  | step node ih =>
      rcases mem_fieldsOf member with own | ⟨inward, properties, required, opens, below⟩
      · exact (mem_ownFields own).2.2.2 ▸ List.prefix_refl path
      · obtain ⟨last, child, listed, inside⟩ := (mem_fieldsOfProperties _ _ _ _).mp below
        have further : path <+: (path ++ inward).child last :=
          (List.prefix_append path inward).trans (List.prefix_append _ [Step.property last])
        exact further.trans (ih inward properties required opens (last, child) listed inside)

theorem path_of_mem_fieldsOfProperties {path : Path} {required : List String}
    {properties : List (String × Node)} {field : Field}
    (member : field ∈ fieldsOfProperties path required properties) :
    ∃ name rest, name ∈ Keyed.keys properties ∧ field.path = path ++ .property name :: rest := by
  obtain ⟨name, child, listed, inside⟩ := (mem_fieldsOfProperties _ _ _ _).mp member
  obtain ⟨rest, same⟩ := prefix_of_mem_fieldsOf inside
  exact ⟨name, rest, List.mem_map_of_mem listed, by rw [← same]; simp [Path.child]⟩

theorem property_of_mem_fieldsOf {name : String} {isRequired : Bool} {path : Path} {node : Node}
    {field : Field} (last : Path.lastName? path = some name)
    (member : field ∈ node.fieldsOf name isRequired path) :
    Path.lastName? field.path = some field.property := by
  induction node using opens_induction generalizing name isRequired path with
  | step node ih =>
      rcases mem_fieldsOf member with own | ⟨inward, properties, required, opens, below⟩
      · obtain ⟨property, -, -, place⟩ := mem_ownFields own
        rw [property, place, last]
      · obtain ⟨inner, child, listed, inside⟩ := (mem_fieldsOfProperties _ _ _ _).mp below
        exact ih inward properties required opens (inner, child) listed
          (by simp [Path.child, Path.lastName?]) inside

theorem property_of_mem_fields (root : Node) (field : Field) (member : field ∈ root.fields) :
    Path.lastName? field.path = some field.property := by
  cases root with
  | object label properties required =>
      obtain ⟨name, child, -, inside⟩ := (mem_fieldsOfProperties _ _ _ _).mp member
      exact property_of_mem_fieldsOf (by simp [Path.child, Path.lastName?]) inside
  | _ => cases member

section AtPath

variable (name : String) (isRequired : Bool) (path : Path) (node : Node)

theorem filter_fieldsOf_self :
    (node.fieldsOf name isRequired path).filter (·.path = path) =
      node.ownFields name isRequired path := by
  have own : (node.ownFields name isRequired path).filter (·.path = path) =
      node.ownFields name isRequired path :=
    List.filter_eq_self.mpr fun field member => decide_eq_true (mem_ownFields member).2.2.2
  by_cases open' : ∃ inward properties required, node.Opens inward properties required
  · obtain ⟨inward, properties, required, opens⟩ := open'
    rw [fieldsOf_of_opens opens, List.filter_append, own, List.append_right_eq_self,
      List.filter_eq_nil_iff]
    intro field member
    obtain ⟨last, rest, -, place⟩ := path_of_mem_fieldsOfProperties member
    simp [place]
  · rw [fieldsOf_of_closed open', own]

variable {node}

theorem filter_fieldsOf_below {inward : Path} {properties : List (String × Node)}
    {required : List String} (opens : node.Opens inward properties required) (rest : Path)
    (further : rest ≠ []) :
    (node.fieldsOf name isRequired path).filter (·.path = path ++ inward ++ rest) =
      (fieldsOfProperties (path ++ inward) required properties).filter
        (·.path = path ++ inward ++ rest) := by
  rw [fieldsOf_of_opens opens, List.filter_append, List.append_left_eq_self, List.filter_eq_nil_iff]
  intro field member
  simp [(mem_ownFields member).2.2.2, further]

end AtPath

theorem filter_fieldsOfProperties_child {properties : List (String × Node)} {first : String}
    {child : Node} (increasing : Keyed.Increasing properties)
    (found : Keyed.lookup first properties = some child) (path : Path) (required : List String)
    (rest : Path) :
    (fieldsOfProperties path required properties).filter (·.path = path ++ .property first :: rest) =
      (child.fieldsOf first (first ∈ required) (path.child first)).filter
        (·.path = path ++ .property first :: rest) := by
  induction properties with
  | nil => cases found
  | cons entry properties ih =>
      rcases entry with ⟨name, node⟩
      obtain ⟨head, tail⟩ := List.pairwise_cons.mp increasing
      rw [fieldsOfProperties, List.filter_append]
      by_cases same : first = name
      · subst same
        obtain rfl : node = child := by simpa [Keyed.lookup] using found
        rw [List.append_right_eq_self, List.filter_eq_nil_iff]
        intro field member
        obtain ⟨other, rest', listed, place⟩ := path_of_mem_fieldsOfProperties member
        have different : other ≠ first := by
          rintro rfl
          exact lt_irrefl other (head other listed)
        simp [place, different]
      · rw [ih tail (by simpa [Keyed.lookup, same] using found), List.append_left_eq_self,
          List.filter_eq_nil_iff]
        intro field member
        obtain ⟨rest', place⟩ := prefix_of_mem_fieldsOf member
        simp [← place, Path.child, Ne.symm same]

theorem filter_fieldsOfProperties_inward {properties properties' : List (String × Node)}
    {first : String} {child : Node} {inward : Path} {required' : List String}
    (increasing : Keyed.Increasing properties) (found : Keyed.lookup first properties = some child)
    (opens : child.Opens inward properties' required') (path : Path) (required : List String)
    (rest : Path) (further : rest ≠ []) :
    (fieldsOfProperties path required properties).filter
        (·.path = path ++ .property first :: (inward ++ rest)) =
      (fieldsOfProperties (path ++ .property first :: inward) required' properties').filter
        (·.path = path ++ .property first :: inward ++ rest) := by
  have below := filter_fieldsOf_below first (first ∈ required) (path.child first) opens rest further
  rw [filter_fieldsOfProperties_child increasing found]
  simpa [Path.child] using below

def HasProperty (root : Node) (outer : Path) (name : String) (isRequired : Bool) (child : Node) :
    Prop :=
  ∃ label properties required, root.get? outer = some (object label properties required) ∧
    Keyed.lookup name properties = some child ∧ isRequired = decide (name ∈ required)

theorem get?_of_hasProperty {root child : Node} {outer : Path} {name : String} {isRequired : Bool}
    (has : root.HasProperty outer name isRequired child) :
    root.get? (outer ++ [.property name]) = some child := by
  rcases has with ⟨label, properties, required, container, found, -⟩
  exact (get?_append_property outer name root child).mpr
    ⟨label, properties, required, container, found⟩

theorem hasProperty_of_get? {root child : Node} {outer : Path} {name : String}
    (present : root.get? (outer ++ [.property name]) = some child) :
    ∃ isRequired, root.HasProperty outer name isRequired child := by
  obtain ⟨label, properties, required, container, found⟩ :=
    (get?_append_property outer name root child).mp present
  exact ⟨_, label, properties, required, container, found, rfl⟩

theorem hasProperty_append {root inner child : Node} {path outer : Path} {name : String}
    {isRequired : Bool} (above : root.get? path = some inner)
    (has : inner.HasProperty outer name isRequired child) :
    root.HasProperty (path ++ outer) name isRequired child := by
  rcases has with ⟨label, properties, required, container, rest⟩
  exact ⟨label, properties, required, by rw [get?_append, above]; exact container, rest⟩

theorem isObject_of_hasProperty {node child : Node} {outer : Path} {name : String}
    {isRequired : Bool} (tabular : Path.Tabular (outer ++ [.property name]))
    (has : node.HasProperty outer name isRequired child) :
    ∃ label properties required, node = object label properties required := by
  rcases tabular.head_property with ⟨first, rest, same⟩
  rcases Option.bind_eq_some_iff.mp (same ▸ get?_of_hasProperty has) with ⟨found, step, -⟩
  obtain ⟨label, properties, required, equal, -⟩ :=
    (step?_property_eq_some_iff first node found).mp step
  exact ⟨label, properties, required, equal⟩

theorem hasProperty_below {properties : List (String × Node)} {label : Label}
    {required : List String} {first name : String} {rest : Path} {isRequired : Bool} {child : Node}
    (inward : Path) (tabular : Path.Tabular (rest ++ [.property name]))
    (has : (object label properties required).HasProperty (.property first :: (inward ++ rest)) name
      isRequired child) :
    ∃ found label' properties' required', Keyed.lookup first properties = some found ∧
      found.get? inward = some (object label' properties' required') ∧
        (object label' properties' required').HasProperty rest name isRequired child := by
  rcases has with ⟨label', properties', required', container, found, same⟩
  rcases Option.bind_eq_some_iff.mp container with ⟨node, step, below⟩
  rw [get?_append] at below
  rcases Option.bind_eq_some_iff.mp below with ⟨inner, here, last⟩
  have has' : inner.HasProperty rest name isRequired child :=
    ⟨label', properties', required', last, found, same⟩
  rcases isObject_of_hasProperty tabular has' with ⟨label'', properties'', required'', rfl⟩
  exact ⟨node, label'', properties'', required'', step, here, has'⟩

theorem filter_fieldsOfProperties {listed outer : Path} {name : String} {isRequired : Bool}
    {child : Node} (tabular : Path.Tabular listed) (whole : listed = outer ++ [.property name])
    (label : Label) (properties : List (String × Node)) (required : List String) (path : Path)
    (sorted : (object label properties required).Sorted)
    (has : (object label properties required).HasProperty outer name isRequired child) :
    (fieldsOfProperties path required properties).filter (·.path = path ++ listed) =
      child.ownFields name isRequired (path ++ listed) := by
  induction tabular generalizing outer label properties required path with
  | property last =>
      have increasing := sorted [] label properties required rfl
      cases outer with
      | nil =>
          rcases has with ⟨_, properties', required', container, found, rfl⟩
          cases container
          cases whole
          rw [filter_fieldsOfProperties_child increasing found]
          exact filter_fieldsOf_self name _ (path.child name) child
      | cons first outer => simp at whole
  | nested first listed inner ih =>
      have increasing := sorted [] label properties required rfl
      cases outer with
      | nil => cases whole; exact absurd inner Path.Tabular.not_nil
      | cons step outer =>
          rw [List.cons_append, List.cons.injEq] at whole
          rcases whole with ⟨rfl, rfl⟩
          obtain ⟨child', label', properties', required', found, present, has'⟩ :=
            hasProperty_below [] inner has
          obtain rfl := Option.some.inj present
          have here : (object label properties required).get? [.property first] =
              some (object label' properties' required') := by simpa [step?] using found
          have below := filter_fieldsOfProperties_inward increasing found (.object _ _ _) path required
            (outer ++ [.property name]) (by simp)
          have own := ih rfl label' properties' required' (path ++ [.property first])
            (sorted.get? here) has'
          exact below.trans (by simpa using own)
  | element first listed inner ih =>
      have increasing := sorted [] label properties required rfl
      cases outer with
      | nil => cases whole
      | cons step outer =>
          cases outer with
          | nil => cases whole
          | cons step outer =>
              simp only [List.cons_append, List.cons.injEq] at whole
              rcases whole with ⟨rfl, rfl, rfl⟩
              obtain ⟨child', label', properties', required', found, present, has'⟩ :=
                hasProperty_below [.items] inner has
              have here : (object label properties required).get? [.property first, .items] =
                  some (object label' properties' required') := by
                simpa [get?_cons, step?, found] using present
              have below := filter_fieldsOfProperties_inward increasing found
                (opens_of_get?_items present) path required (outer ++ [.property name]) (by simp)
              have own := ih rfl label' properties' required'
                (path ++ [.property first, .items]) (sorted.get? here) has'
              exact below.trans (by simpa using own)

theorem filter_fields {root child : Node} {outer : Path} {name : String} {isRequired : Bool}
    (sorted : root.Sorted) (tabular : Path.Tabular (outer ++ [.property name]))
    (has : root.HasProperty outer name isRequired child) :
    root.fields.filter (·.path = outer ++ [.property name]) =
      child.ownFields name isRequired (outer ++ [.property name]) := by
  rcases isObject_of_hasProperty tabular has with ⟨label, properties, required, rfl⟩
  exact filter_fieldsOfProperties tabular rfl label properties required Path.root sorted has

theorem own_of_mem_fieldsOfProperties {node : Node} {inward path : Path}
    {properties : List (String × Node)} {required : List String} {field : Field}
    (sorted : node.Sorted) (opens : node.Opens inward properties required)
    (member : field ∈ fieldsOfProperties path required properties) :
    ∃ outer name isRequired child, Path.Tabular (outer ++ [.property name]) ∧
      node.HasProperty (inward ++ outer) name isRequired child ∧
        field ∈ child.ownFields name isRequired (path ++ outer ++ [.property name]) := by
  induction node using opens_induction generalizing inward path properties required with
  | step node ih =>
      obtain ⟨label, present⟩ := get?_of_opens opens
      obtain ⟨name, child, listed, inside⟩ := (mem_fieldsOfProperties path required properties field).mp
        member
      have found := Keyed.lookup_of_mem (sorted inward label properties required present) listed
      have step := (get?_append_property inward name node child).mpr ⟨_, _, _, present, found⟩
      rcases mem_fieldsOf inside with own | ⟨inward', properties', required', opens', below⟩
      · exact ⟨[], name, _, child, .property name,
          ⟨_, _, _, by rw [List.append_nil]; exact present, found, rfl⟩,
          by simpa [Path.child] using own⟩
      · obtain ⟨outer, last, isRequired, inner, tabular, has, own⟩ :=
          ih inward properties required opens (name, child) listed (sorted.get? step) opens' below
        refine ⟨.property name :: (inward' ++ outer), last, isRequired, inner, ?_,
          by simpa using hasProperty_append step has, by simpa [Path.child] using own⟩
        cases opens' with
        | object _ _ _ => exact .nested name _ tabular
        | arrayOf _ _ _ _ => exact .element name _ tabular

theorem mem_fields_iff {root : Node} (sorted : root.Sorted) (field : Field) :
    field ∈ root.fields ↔
      ∃ outer name isRequired child, Path.Tabular (outer ++ [.property name]) ∧
        root.HasProperty outer name isRequired child ∧
          field ∈ child.ownFields name isRequired (outer ++ [.property name]) := by
  constructor
  · intro member
    cases root with
    | object label properties required =>
        exact own_of_mem_fieldsOfProperties sorted (.object label properties required) member
    | _ => cases member
  · intro shown
    rcases shown with ⟨outer, name, isRequired, child, tabular, has, own⟩
    rw [← filter_fields sorted tabular has] at own
    exact List.mem_of_mem_filter own

theorem mem_fields_type_iff {mixed : Prop} (root : Node) (wellFormed : root.WellFormed mixed)
    (path : Path) (type : ValueType) :
    (∃ field ∈ root.fields, field.path = path ∧ field.type = type) ↔
      Path.Tabular path ∧ ∃ node, root.get? path = some node ∧ type ∈ node.recordedTypes := by
  constructor
  · intro listed
    rcases listed with ⟨field, member, rfl, rfl⟩
    obtain ⟨outer, name, isRequired, child, tabular, has, own⟩ :=
      (mem_fields_iff wellFormed.sorted field).mp member
    have place := (mem_ownFields own).2.2.2
    rw [place]
    refine ⟨tabular, child, get?_of_hasProperty has, ?_⟩
    rw [← type_ownFields name isRequired (outer ++ [.property name]) child]
    exact List.mem_map_of_mem own
  · intro shown
    rcases shown with ⟨tabular, node, present, recorded⟩
    rcases tabular.last_property with ⟨outer, name, rfl⟩
    rcases hasProperty_of_get? present with ⟨isRequired, has⟩
    rw [← type_ownFields name isRequired (outer ++ [.property name]) node] at recorded
    rcases List.mem_map.mp recorded with ⟨field, own, rfl⟩
    exact ⟨field, (mem_fields_iff wellFormed.sorted field).mpr
      ⟨outer, name, isRequired, node, tabular, has, own⟩, (mem_ownFields own).2.2.2, rfl⟩

theorem mem_fields_path_iff {mixed : Prop} (root : Node) (wellFormed : root.WellFormed mixed)
    (path : Path) :
    path ∈ root.fields.map Field.path ↔ Path.Tabular path ∧ ∃ node, root.get? path = some node := by
  have typed : path ∈ root.fields.map Field.path ↔
      ∃ type, ∃ field ∈ root.fields, field.path = path ∧ field.type = type := by
    simp
  simp only [typed, mem_fields_type_iff root wellFormed]
  constructor
  · intro shown
    rcases shown with ⟨type, tabular, node, present, -⟩
    exact ⟨tabular, node, present⟩
  · intro shown
    rcases shown with ⟨tabular, node, present⟩
    obtain ⟨type, recorded⟩ :=
      List.exists_mem_of_ne_nil _ (recordedTypes_ne_nil (wellFormed.get? present))
    exact ⟨type, tabular, node, present, recorded⟩

theorem isRequired_of_mem_fields {mixed : Prop} {root : Node} (wellFormed : root.WellFormed mixed)
    {field : Field} (member : field ∈ root.fields) {outer : Path} {name : String}
    (place : field.path = outer ++ [.property name]) :
    ∃ label properties required, root.get? outer = some (object label properties required) ∧
      name ∈ Keyed.keys properties ∧ field.isRequired = decide (name ∈ required) := by
  obtain ⟨outer', name', isRequired, child, -, has, own⟩ :=
    (mem_fields_iff wellFormed.sorted field).mp member
  rcases mem_ownFields own with ⟨-, flag, -, place'⟩
  rcases List.append_inj' (place.symm.trans place') rfl with ⟨rfl, last⟩
  obtain rfl : name = name' := by simpa using last
  rcases has with ⟨label, properties, required, container, found, same⟩
  refine ⟨label, properties, required, container, ?_, flag.trans same⟩
  exact (Keyed.lookup_isSome_iff name properties).mp (by simp [found])

end Node

end EventSchema
