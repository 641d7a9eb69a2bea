import EventSchema.Proofs.Navigation
import EventSchema.Proofs.Preparation
import EventSchema.Proofs.Results
import EventSchema.Samples.Inference
import Mathlib.Data.List.Permutation

namespace EventSchema.Node

/-- Arrays of mixed elements occur only if `mixed` allows them. -/
inductive WellFormed (mixed : Prop) : Node → Prop where
  | scalar (label : Label) (type : ScalarType) : WellFormed mixed (scalar label type)
  | object (label : Label) (properties : List (String × Node)) (required : List String)
      (increasing : Keyed.Increasing properties)
      (children : ∀ entry ∈ properties, WellFormed mixed entry.2) :
      WellFormed mixed (object label properties required)
  | emptyArray (label : Label) : WellFormed mixed (emptyArray label)
  | arrayOf (label : Label) (items : Node) (inner : WellFormed mixed items) :
      WellFormed mixed (arrayOf label items)
  | mixedArray (label : Label) (allowed : mixed) : WellFormed mixed (mixedArray label)
  | union (label : Label) (first second : Node) (different : first.family ≠ second.family)
      (former : WellFormed mixed first) (latter : WellFormed mixed second) :
      WellFormed mixed (union label [first, second])

namespace WellFormed

variable {mixed : Prop}

theorem weaken {mixed' : Prop} {node : Node} (weaker : mixed → mixed')
    (wellFormed : node.WellFormed mixed) : node.WellFormed mixed' := by
  induction wellFormed with
  | scalar label type => exact .scalar label type
  | object label properties required increasing _ ih =>
      exact .object label properties required increasing ih
  | emptyArray label => exact .emptyArray label
  | arrayOf label items _ ih => exact .arrayOf label items ih
  | mixedArray label allowed => exact .mixedArray label (weaker allowed)
  | union label first second different _ _ former latter =>
      exact .union label first second different former latter

theorem relabel {node : Node} (label : Label) (wellFormed : node.WellFormed mixed) :
    (node.relabel label).WellFormed mixed := by
  cases wellFormed with
  | scalar _ type => exact .scalar label type
  | object _ properties required increasing children =>
      exact .object label properties required increasing children
  | emptyArray _ => exact .emptyArray label
  | arrayOf _ items inner => exact .arrayOf label items inner
  | mixedArray _ allowed => exact .mixedArray label allowed
  | union _ first second different former latter =>
      exact .union label first second different former latter

theorem ofType (type : ValueType) : (Node.ofType type).WellFormed mixed := by
  cases type with
  | object => exact .object _ _ _ List.Pairwise.nil (fun _ member => by cases member)
  | array => exact .emptyArray _
  | _ => exact .scalar _ _

theorem step? {node child : Node} {step : Step} (wellFormed : node.WellFormed mixed)
    (found : node.step? step = some child) : child.WellFormed mixed := by
  cases step with
  | property name =>
      rcases (step?_property_eq_some_iff name node child).mp found with
        ⟨label, properties, required, rfl, member⟩
      cases wellFormed with
      | object _ _ _ _ children => exact children _ (Keyed.mem_of_lookup member)
  | items =>
      rcases (step?_items_eq_some_iff node child).mp found with ⟨label, rfl⟩
      cases wellFormed with
      | arrayOf _ _ inner => exact inner

theorem get? {node found : Node} {path : Path} (wellFormed : node.WellFormed mixed)
    (present : node.get? path = some found) : found.WellFormed mixed := by
  induction path generalizing node with
  | nil => exact Option.some.inj present ▸ wellFormed
  | cons step path ih =>
      rcases Option.bind_eq_some_iff.mp present with ⟨child, first, rest⟩
      exact ih (wellFormed.step? first) rest

theorem insert {properties : List (String × Node)} {child : Node} (name : String)
    (children : ∀ entry ∈ properties, entry.2.WellFormed mixed) (inner : child.WellFormed mixed) :
    ∀ entry ∈ Keyed.insert name child properties, entry.2.WellFormed mixed := by
  intro entry member
  rcases Keyed.mem_insert member with rfl | old
  · exact inner
  · exact children entry old

theorem update {node : Node} (change : Node → Node) (path : Path)
    (kept : ∀ part : Node, part.WellFormed mixed → (change part).WellFormed mixed)
    (wellFormed : node.WellFormed mixed) : (node.update change path).WellFormed mixed := by
  induction path generalizing node with
  | nil => exact kept node wellFormed
  | cons step path ih =>
      cases wellFormed with
      | object label properties required increasing children =>
          cases step with
          | items => exact .object label properties required increasing children
          | property name =>
              cases found : Keyed.lookup name properties with
              | none =>
                  simp only [Node.update, found]
                  exact .object label properties required increasing children
              | some child =>
                  simp only [Node.update, found]
                  have inner := ih (children _ (Keyed.mem_of_lookup found))
                  exact .object label _ required
                    (Keyed.increasing_insert name _ properties increasing)
                    (insert name children inner)
      | arrayOf label items inner =>
          cases step with
          | items => exact .arrayOf label _ (ih inner)
          | property name => exact .arrayOf label items inner
      | scalar label type => cases step <;> exact .scalar label type
      | emptyArray label => cases step <;> exact .emptyArray label
      | mixedArray label allowed => cases step <;> exact .mixedArray label allowed
      | union label first second different former latter =>
          cases step <;> exact .union label first second different former latter

theorem union_types {label : Label} {branches : List Node}
    (wellFormed : (Node.union label branches).WellFormed mixed) :
    ∃ first second, branches = [first, second] ∧ first.type ≠ second.type := by
  cases wellFormed with
  | union _ first second different _ _ =>
      exact ⟨first, second, rfl, fun same => different (congrArg ValueType.family same)⟩

theorem branch {label : Label} {branches : List Node} {node : Node}
    (wellFormed : (Node.union label branches).WellFormed mixed) (member : node ∈ branches) :
    node.WellFormed mixed := by
  cases wellFormed with
  | union _ first second _ former latter =>
      simp only [List.mem_cons, List.not_mem_nil, or_false] at member
      rcases member with rfl | rfl
      · exact former
      · exact latter

end WellFormed

theorem sortBranches_pair (first second : Node) :
    sortBranches [first, second] = [first, second] ∨
      sortBranches [first, second] = [second, first] :=
  List.perm_pair.mp (List.mergeSort_perm _ _)

theorem addBranch_pair (first second newcomer : Node) :
    addBranch [first, second] newcomer = [first, second] := rfl

theorem apart_wellFormed {mixed : Prop} (first second : Node)
    (different : first.family ≠ second.family) (former : first.WellFormed mixed)
    (latter : second.WellFormed mixed) : (apart first second).WellFormed mixed := by
  have sorted : apart first second = union {} (sortBranches [first, second]) := rfl
  rw [sorted]
  rcases sortBranches_pair first second with same | swapped
  · rw [same]
    exact .union {} first second different former latter
  · rw [swapped]
    exact .union {} second first different.symm latter former

theorem keys_mergeElementProperties (properties element : List (String × Node)) :
    Keyed.keys (mergeElementProperties properties element) = Keyed.keys properties := by
  induction properties with
  | nil => simp [mergeElementProperties]
  | cons entry rest ih =>
      rcases entry with ⟨name, child⟩
      simpa [mergeElementProperties, Keyed.keys] using ih

theorem addProperties_wellFormed {mixed : Prop} (target newer : List (String × Node))
    (increasing : Keyed.Increasing target)
    (children : ∀ entry ∈ target, entry.2.WellFormed mixed)
    (newcomers : ∀ entry ∈ newer, entry.2.WellFormed mixed) :
    Keyed.Increasing (addProperties target newer) ∧
      ∀ entry ∈ addProperties target newer, entry.2.WellFormed mixed := by
  rw [addProperties]
  induction newer generalizing target with
  | nil => exact ⟨increasing, children⟩
  | cons entry rest ih =>
      rcases entry with ⟨name, child⟩
      rcases List.forall_mem_cons.mp newcomers with ⟨inner, others⟩
      refine ih _ (Keyed.increasing_alter name _ target increasing) ?_ others
      apply WellFormed.insert name children
      cases found : Keyed.lookup name target with
      | none => exact inner
      | some present => exact children _ (Keyed.mem_of_lookup found)

theorem family_widened (type type' : ScalarType)
    (same : type.toValueType.family = type'.toValueType.family) :
    (if type = type' then type else .number).toValueType.family = type.toValueType.family := by
  revert same
  cases type <;> cases type' <;> decide

mutual

/-- A further element leaves the item schema well formed, and in its family if it is of that. -/
theorem mergeElement_wellFormed {mixed : Prop} :
    (target element : Node) → target.WellFormed mixed → element.WellFormed mixed →
      (mergeElement target element).WellFormed mixed ∧
        (target.family = element.family → (mergeElement target element).family = target.family)
  | .scalar label type, element, former, latter => by
      by_cases same : type.toValueType.family = element.family
      · simp only [mergeElement, same, ne_eq, not_true_eq_false, if_false]
        cases latter with
        | scalar _ type' =>
            exact ⟨.scalar _ _, fun equal => family_widened type type' equal⟩
        | _ => exact ⟨.scalar _ _, fun _ => rfl⟩
      · simp only [mergeElement, same, ne_eq, not_false_eq_true, if_true]
        exact ⟨apart_wellFormed _ element same former latter, fun equal => absurd equal same⟩
  | .object label properties required, element, former, latter => by
      by_cases same : element.family = .object
      · simp only [mergeElement, same, ne_eq, not_true_eq_false, if_false]
        cases former with
        | object _ _ _ increasing children =>
            cases latter with
            | object _ properties' required' _ children' =>
                have merged := mergeElementProperties_wellFormed properties properties'
                  children children'
                have increasing' :
                    Keyed.Increasing (mergeElementProperties properties properties') := by
                  rw [Keyed.Increasing]
                  rw [keys_mergeElementProperties]
                  exact increasing
                have added := addProperties_wellFormed _ properties' increasing' merged children'
                exact ⟨.object _ _ _ added.1 added.2, fun _ => rfl⟩
            | _ => exact ⟨.object _ _ _ increasing children, fun _ => rfl⟩
      · simp only [mergeElement, same, ne_eq, not_false_eq_true, if_true]
        exact ⟨apart_wellFormed _ element (Ne.symm same) former latter,
          fun equal => absurd equal.symm same⟩
  | .emptyArray label, element, former, latter => by
      by_cases same : element.family = .array
      · simp only [mergeElement, same, ne_eq, not_true_eq_false, if_false]
        cases latter with
        | arrayOf _ items inner => exact ⟨.arrayOf _ items inner, fun _ => rfl⟩
        | mixedArray _ allowed => exact ⟨.mixedArray _ allowed, fun _ => rfl⟩
        | _ => exact ⟨.emptyArray _, fun _ => rfl⟩
      · simp only [mergeElement, same, ne_eq, not_false_eq_true, if_true]
        exact ⟨apart_wellFormed _ element (Ne.symm same) former latter,
          fun equal => absurd equal.symm same⟩
  | .arrayOf label items, element, former, latter => by
      by_cases same : element.family = .array
      · simp only [mergeElement, same, ne_eq, not_true_eq_false, if_false]
        cases former with
        | arrayOf _ _ inner =>
            cases latter with
            | arrayOf _ items' inner' =>
                have merged := mergeElement_wellFormed items items' inner inner'
                exact ⟨.arrayOf _ _ merged.1, fun _ => rfl⟩
            | mixedArray _ allowed => exact ⟨.mixedArray _ allowed, fun _ => rfl⟩
            | _ => exact ⟨.arrayOf _ items inner, fun _ => rfl⟩
      · simp only [mergeElement, same, ne_eq, not_false_eq_true, if_true]
        exact ⟨apart_wellFormed _ element (Ne.symm same) former latter,
          fun equal => absurd equal.symm same⟩
  | .mixedArray label, element, former, latter => by
      by_cases same : element.family = .array
      · simp only [mergeElement, same, ne_eq, not_true_eq_false, if_false]
        exact ⟨former.relabel _, fun _ => rfl⟩
      · simp only [mergeElement, same, ne_eq, not_false_eq_true, if_true]
        exact ⟨apart_wellFormed _ element (Ne.symm same) former latter,
          fun equal => absurd equal.symm same⟩
  | .union label [first, second], element, former, latter => by
      cases former with
      | union _ _ _ different one other =>
          -- the element goes into the alternative of its family, or there is no room for it
          by_cases same : first.family = element.family
          · have merged := mergeElement_wellFormed first element one latter
            have family := merged.2 same
            simp only [mergeElement, mergeElementBranches, same, if_true, Option.getD_some]
            exact ⟨.union _ _ _ (family ▸ different) merged.1 other, fun _ => family⟩
          · by_cases same' : second.family = element.family
            · have merged := mergeElement_wellFormed second element other latter
              have family := merged.2 same'
              simp only [mergeElement, mergeElementBranches, same, same', if_true, if_false,
                Option.map_some, Option.getD_some]
              exact ⟨.union _ _ _ (family ▸ different) one merged.1, fun _ => rfl⟩
            · simp only [mergeElement, mergeElementBranches, same, same', if_false,
                Option.map_none, Option.getD_none, addBranch_pair]
              exact ⟨.union _ _ _ different one other, fun _ => trivial⟩

theorem mergeElementProperties_wellFormed {mixed : Prop} :
    (properties element : List (String × Node)) →
      (∀ entry ∈ properties, entry.2.WellFormed mixed) →
      (∀ entry ∈ element, entry.2.WellFormed mixed) →
      ∀ entry ∈ mergeElementProperties properties element, entry.2.WellFormed mixed
  | [], _, _, _, _, member => by simp [mergeElementProperties] at member
  | (name, child) :: rest, element, children, children', entry, member => by
      rcases List.forall_mem_cons.mp children with ⟨inner, others⟩
      simp only [mergeElementProperties, List.mem_cons] at member
      rcases member with rfl | later
      · cases found : Keyed.lookup name element with
        | none => exact inner
        | some child' =>
            exact (mergeElement_wellFormed child child' inner
              (children' _ (Keyed.mem_of_lookup found))).1
      · exact mergeElementProperties_wellFormed rest element others children' entry later

end

theorem bounded_eq_ok {settings : Settings} {depth : Nat} {schema : Except SampleError Node}
    {node : Node} (finished : bounded settings depth schema = .ok node) : schema = .ok node := by
  rw [bounded] at finished
  split at finished
  · cases finished
  · exact finished

theorem ofNumber_wellFormed {mixed : Prop} (number : Json.Number) :
    (ofNumber number).WellFormed mixed := by
  cases number <;> exact .scalar _ _

theorem addElement_wellFormed {mixed : Prop} (items : Option Node) (element : Node)
    (former : ∀ node ∈ items, node.WellFormed mixed) (latter : element.WellFormed mixed) :
    (addElement items element).WellFormed mixed := by
  cases items with
  | none => exact latter
  | some target => exact (mergeElement_wellFormed target element (former target rfl) latter).1

theorem infer_object {settings : Settings} {depth : Nat} {members : List (String × Json)}
    {node : Node} (inferred : infer settings depth (.object members) = .ok node) :
    ∃ properties, inferMembers settings (depth + 1) members = .ok properties ∧
      node = object {} properties (Keyed.keys properties) := by
  obtain ⟨properties, read, finished⟩ := bind_eq_ok_iff.mp (bounded_eq_ok inferred)
  exact ⟨properties, read, (Except.ok.inj finished).symm⟩

theorem infer_array {settings : Settings} {depth : Nat} {elements : List Json} {node : Node}
    (inferred : infer settings depth (.array elements) = .ok node) :
    ∃ items, inferElements settings (depth + 1) none elements = .ok items ∧ node = ofItems items := by
  obtain ⟨items, read, same⟩ := map_eq_ok_iff.mp (bounded_eq_ok inferred)
  exact ⟨items, read, same.symm⟩

theorem inferElements_cons {settings : Settings} {depth : Nat} {element : Json} {rest : List Json}
    {items merged : Option Node}
    (inferred : inferElements settings depth items (element :: rest) = .ok merged) :
    ∃ next, infer settings depth element = .ok next ∧
      inferElements settings depth (some (addElement items next)) rest = .ok merged := by
  rw [inferElements] at inferred
  exact bind_eq_ok_iff.mp inferred

theorem inferMembers_cons {settings : Settings} {depth : Nat} {key : String} {value : Json}
    {rest : List (String × Json)} {properties : List (String × Node)}
    (inferred : inferMembers settings depth ((key, value) :: rest) = .ok properties) :
    ∃ child others, infer settings depth value = .ok child ∧
      inferMembers settings depth rest = .ok others ∧ properties = (key, child) :: others := by
  rw [inferMembers] at inferred
  obtain ⟨child, read, inferred⟩ := bind_eq_ok_iff.mp inferred
  obtain ⟨others, remaining, finished⟩ := bind_eq_ok_iff.mp inferred
  exact ⟨child, others, read, remaining, (Except.ok.inj finished).symm⟩

mutual

theorem infer_wellFormed (settings : Settings) :
    (value : Json) → (depth : Nat) → (node : Node) → value.Ordered →
      infer settings depth value = .ok node → node.WellFormed False
  | .null, depth, node, _, inferred => by
      cases bounded_eq_ok inferred
      exact .scalar _ _
  | .bool _, depth, node, _, inferred => by
      cases bounded_eq_ok inferred
      exact .scalar _ _
  | .number number, depth, node, _, inferred => by
      cases bounded_eq_ok inferred
      exact ofNumber_wellFormed number
  | .string text, depth, node, _, inferred => by
      cases bounded_eq_ok inferred
      exact .scalar _ _
  | .array elements, depth, node, ordered, inferred => by
      rcases infer_array inferred with ⟨items, merged, rfl⟩
      cases ordered with
      | array _ each =>
          have inner := inferElements_wellFormed settings elements (depth + 1) none items each
            (fun _ none => by cases none) merged
          cases items with
          | none => exact .emptyArray _
          | some items => exact .arrayOf _ items (inner items rfl)
  | .object members, depth, node, ordered, inferred => by
      rcases infer_object inferred with ⟨properties, read, rfl⟩
      cases ordered with
      | object _ increasing each =>
          have inner := inferMembers_wellFormed settings members (depth + 1) properties each read
          have increasing' : Keyed.Increasing properties := by
            rw [Keyed.Increasing]
            rw [inner.1]
            exact increasing
          exact .object _ _ _ increasing' inner.2

theorem inferElements_wellFormed (settings : Settings) :
    (elements : List Json) → (depth : Nat) → (items merged : Option Node) →
      (∀ element ∈ elements, element.Ordered) → (∀ node ∈ items, node.WellFormed False) →
      inferElements settings depth items elements = .ok merged →
      ∀ node ∈ merged, node.WellFormed False
  | [], _, _, _, _, former, inferred => by
      cases inferred
      exact former
  | element :: rest, depth, items, merged, ordered, former, inferred => by
      rcases List.forall_mem_cons.mp ordered with ⟨first, others⟩
      obtain ⟨next, read, remaining⟩ := inferElements_cons inferred
      have latter := infer_wellFormed settings element depth next first read
      have added := addElement_wellFormed items next former latter
      refine inferElements_wellFormed settings rest depth (some (addElement items next)) merged
        others ?_ remaining
      intro node same
      exact Option.some.inj same ▸ added

theorem inferMembers_wellFormed (settings : Settings) :
    (members : List (String × Json)) → (depth : Nat) → (properties : List (String × Node)) →
      (∀ member ∈ members, member.2.Ordered) →
      inferMembers settings depth members = .ok properties →
      Keyed.keys properties = Keyed.keys members ∧
        ∀ entry ∈ properties, entry.2.WellFormed False
  | [], _, _, _, inferred => by
      cases inferred
      exact ⟨rfl, fun _ member => by cases member⟩
  | (key, value) :: rest, depth, properties, ordered, inferred => by
      rcases List.forall_mem_cons.mp ordered with ⟨first, others⟩
      obtain ⟨child, others', read, remaining, rfl⟩ := inferMembers_cons inferred
      have inner := infer_wellFormed settings value depth child first read
      have tail := inferMembers_wellFormed settings rest depth others' others remaining
      exact ⟨congrArg (key :: ·) tail.1, List.forall_mem_cons.mpr ⟨inner, tail.2⟩⟩

end

theorem ofSample_eq_ok_iff (settings : Settings) (sample : Json) (node : Node) :
    ofSample settings sample = .ok node ↔
      sample.isObject = true ∧ infer settings 0 sample = .ok node := by
  rw [ofSample]
  split
  · rename_i object
    simp [object]
  · rename_i other
    simp [other]

end EventSchema.Node
