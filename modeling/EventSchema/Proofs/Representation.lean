import EventSchema.Proofs.Degrading
import EventSchema.Proofs.Merging
/-!
The representation of schema trees: what every node keeps within itself, be it below a property, among
items or an alternative of a union. Inference, merging and degrading make no tree that breaks it.
-/
namespace EventSchema.Node

inductive Everywhere (holds : Node → Prop) : Node → Prop where
  | scalar (label : Label) (type : ScalarType) (own : holds (scalar label type)) :
      Everywhere holds (scalar label type)
  | object (label : Label) (properties : List (String × Node)) (required : List String)
      (own : holds (object label properties required))
      (children : ∀ entry ∈ properties, Everywhere holds entry.2) :
      Everywhere holds (object label properties required)
  | emptyArray (label : Label) (own : holds (emptyArray label)) : Everywhere holds (emptyArray label)
  | arrayOf (label : Label) (items : Node) (own : holds (arrayOf label items))
      (inner : Everywhere holds items) : Everywhere holds (arrayOf label items)
  | mixedArray (label : Label) (own : holds (mixedArray label)) : Everywhere holds (mixedArray label)
  | union (label : Label) (branches : List Node) (own : holds (union label branches))
      (each : ∀ branch ∈ branches, Everywhere holds branch) : Everywhere holds (union label branches)

namespace Everywhere

variable {holds : Node → Prop} {node : Node}

theorem own (everywhere : node.Everywhere holds) : holds node := by
  cases everywhere <;> assumption

theorem imp {holds' : Node → Prop} (weaker : ∀ part, holds part → holds' part)
    (everywhere : node.Everywhere holds) : node.Everywhere holds' := by
  induction everywhere with
  | scalar label type own => exact .scalar label type (weaker _ own)
  | object label properties required own _ ih =>
      exact .object label properties required (weaker _ own) ih
  | emptyArray label own => exact .emptyArray label (weaker _ own)
  | arrayOf label items own _ ih => exact .arrayOf label items (weaker _ own) ih
  | mixedArray label own => exact .mixedArray label (weaker _ own)
  | union label branches own _ ih => exact .union label branches (weaker _ own) ih

theorem and {holds' : Node → Prop} (everywhere : node.Everywhere holds)
    (everywhere' : node.Everywhere holds') :
    node.Everywhere fun part => holds part ∧ holds' part := by
  induction everywhere with
  | scalar label type own => exact .scalar label type ⟨own, everywhere'.own⟩
  | object label properties required own _ ih =>
      cases everywhere' with
      | object _ _ _ own' children =>
          exact .object _ _ _ ⟨own, own'⟩ fun entry member => ih entry member (children entry member)
  | emptyArray label own => exact .emptyArray label ⟨own, everywhere'.own⟩
  | arrayOf label items own _ ih =>
      cases everywhere' with
      | arrayOf _ _ own' inner => exact .arrayOf _ _ ⟨own, own'⟩ (ih inner)
  | mixedArray label own => exact .mixedArray label ⟨own, everywhere'.own⟩
  | union label branches own _ ih =>
      cases everywhere' with
      | union _ _ own' each =>
          exact .union _ _ ⟨own, own'⟩ fun branch member => ih branch member (each branch member)

theorem step? {child : Node} {step : Step} (everywhere : node.Everywhere holds)
    (found : node.step? step = some child) : child.Everywhere holds := by
  cases step with
  | property name =>
      rcases (step?_property_eq_some_iff name node child).mp found with
        ⟨label, properties, required, rfl, member⟩
      cases everywhere with
      | object _ _ _ _ children => exact children _ (Keyed.mem_of_lookup member)
  | items =>
      rcases (step?_items_eq_some_iff node child).mp found with ⟨label, rfl⟩
      cases everywhere with
      | arrayOf _ _ _ inner => exact inner

theorem get? {found : Node} {path : Path} (everywhere : node.Everywhere holds)
    (present : node.get? path = some found) : found.Everywhere holds := by
  induction path generalizing node with
  | nil => exact Option.some.inj present ▸ everywhere
  | cons step path ih =>
      rcases Option.bind_eq_some_iff.mp present with ⟨child, first, rest⟩
      exact ih (everywhere.step? first) rest

theorem branch {label : Label} {branches : List Node}
    (everywhere : (Node.union label branches).Everywhere holds) (member : node ∈ branches) :
    node.Everywhere holds := by
  cases everywhere with
  | union _ _ _ each => exact each node member

theorem relabel (label : Label) (own : holds (node.relabel label))
    (everywhere : node.Everywhere holds) : (node.relabel label).Everywhere holds := by
  cases everywhere with
  | scalar _ type _ => exact .scalar label type own
  | object _ properties required _ children => exact .object label properties required own children
  | emptyArray _ _ => exact .emptyArray label own
  | arrayOf _ items _ inner => exact .arrayOf label items own inner
  | mixedArray _ _ => exact .mixedArray label own
  | union _ branches _ each => exact .union label branches own each

/-- A change at a path that keeps what holds of the node there keeps it everywhere, if a node does not
notice that something below it has changed. -/
theorem update {change : Node → Node} {path : Path}
    (below : ∀ step rest part, holds part → holds (part.update change (step :: rest)))
    (kept : ∀ part, node.get? path = some part → part.Everywhere holds →
      (change part).Everywhere holds)
    (everywhere : node.Everywhere holds) : (node.update change path).Everywhere holds := by
  induction path generalizing node with
  | nil => exact kept node rfl everywhere
  | cons step path ih =>
      have own := below step path node everywhere.own
      cases everywhere with
      | object label properties required former children =>
          cases step with
          | items => exact .object label properties required former children
          | property name =>
              cases found : Keyed.lookup name properties with
              | none =>
                  simp only [Node.update, found]
                  exact .object label properties required former children
              | some child =>
                  simp only [Node.update, found] at own ⊢
                  have inner : (child.update change path).Everywhere holds := by
                    apply ih _ (children _ (Keyed.mem_of_lookup found))
                    intro part present
                    exact kept part (by simpa [get?_cons, Node.step?, found] using present)
                  refine .object label _ required own ?_
                  intro entry member
                  rcases Keyed.mem_insert member with rfl | old
                  · exact inner
                  · exact children entry old
      | arrayOf label items former inner =>
          cases step with
          | items => exact .arrayOf label _ own (ih kept inner)
          | property name => exact .arrayOf label items former inner
      | scalar label type former => cases step <;> exact .scalar label type former
      | emptyArray label former => cases step <;> exact .emptyArray label former
      | mixedArray label former => cases step <;> exact .mixedArray label former
      | union label branches former each => cases step <;> exact .union label branches former each

end Everywhere

section Check

mutual

def everywhere (holds : Node → Bool) : Node → Bool
  | object label properties required =>
    holds (object label properties required) && everyProperty holds properties
  | arrayOf label items => holds (arrayOf label items) && everywhere holds items
  | union label branches => holds (union label branches) && everyBranch holds branches
  | scalar label type => holds (scalar label type)
  | emptyArray label => holds (emptyArray label)
  | mixedArray label => holds (mixedArray label)

def everyProperty (holds : Node → Bool) : List (String × Node) → Bool
  | [] => true
  | (_, child) :: rest => everywhere holds child && everyProperty holds rest

def everyBranch (holds : Node → Bool) : List Node → Bool
  | [] => true
  | branch :: rest => everywhere holds branch && everyBranch holds rest

end

variable {holds : Node → Prop} [DecidablePred holds]

mutual

theorem everywhere_iff : (node : Node) →
    (node.everywhere (fun part => holds part) = true ↔ node.Everywhere holds)
  | object label properties required => by
      rw [everywhere, Bool.and_eq_true, decide_eq_true_iff, everyProperty_iff properties]
      constructor
      · exact fun checked => .object _ _ _ checked.1 checked.2
      · intro every
        cases every with
        | object _ _ _ own children => exact ⟨own, children⟩
  | arrayOf label items => by
      rw [everywhere, Bool.and_eq_true, decide_eq_true_iff, everywhere_iff items]
      constructor
      · exact fun checked => .arrayOf _ _ checked.1 checked.2
      · intro every
        cases every with
        | arrayOf _ _ own inner => exact ⟨own, inner⟩
  | union label branches => by
      rw [everywhere, Bool.and_eq_true, decide_eq_true_iff, everyBranch_iff branches]
      constructor
      · exact fun checked => .union _ _ checked.1 checked.2
      · intro every
        cases every with
        | union _ _ own each => exact ⟨own, each⟩
  | scalar label type => by
      rw [everywhere, decide_eq_true_iff]
      exact ⟨.scalar label type, Everywhere.own⟩
  | emptyArray label => by
      rw [everywhere, decide_eq_true_iff]
      exact ⟨.emptyArray label, Everywhere.own⟩
  | mixedArray label => by
      rw [everywhere, decide_eq_true_iff]
      exact ⟨.mixedArray label, Everywhere.own⟩

theorem everyProperty_iff : (properties : List (String × Node)) →
    (everyProperty (fun part => holds part) properties = true ↔
      ∀ entry ∈ properties, entry.2.Everywhere holds)
  | [] => by simp [everyProperty]
  | (_, child) :: rest => by
      rw [everyProperty, Bool.and_eq_true, everywhere_iff child, everyProperty_iff rest,
        List.forall_mem_cons]

theorem everyBranch_iff : (branches : List Node) →
    (everyBranch (fun part => holds part) branches = true ↔
      ∀ branch ∈ branches, branch.Everywhere holds)
  | [] => by simp [everyBranch]
  | branch :: rest => by
      rw [everyBranch, Bool.and_eq_true, everywhere_iff branch, everyBranch_iff rest,
        List.forall_mem_cons]

end

instance (node : Node) : Decidable (node.Everywhere holds) :=
  decidable_of_iff _ (everywhere_iff node)

end Check

structure Consistent (node : Node) : Prop where
  scalarType : ∀ label type, node = scalar label type →
    type.toValueType ≠ .object ∧ type.toValueType ≠ .array
  required : ∀ label properties required, node = object label properties required →
    ∀ name ∈ required, name ∈ Keyed.keys properties
  undescribed : node.isMixedArray = true → node.items? = none
  format : ∀ type, node.plainType? = some type → type.isStructural = true → node.format? = none

@[simp] theorem consistent_scalar (label : Label) (type : ScalarType) :
    (scalar label type).Consistent := by
  refine ⟨?_, (by simp), (by simp [isMixedArray]), ?_⟩
  · intro label' type' same
    cases same
    cases type <;> decide
  · intro type' plain structural
    cases type <;> cases plain <;> cases structural

@[simp] theorem consistent_object (label : Label) (properties : List (String × Node))
    (required : List String) :
    (object label properties required).Consistent ↔
      label.format = none ∧ ∀ name ∈ required, name ∈ Keyed.keys properties := by
  constructor
  · intro consistent
    exact ⟨consistent.format .object rfl rfl, consistent.required label properties required rfl⟩
  · intro described
    refine ⟨(by simp), ?_, (by simp [isMixedArray]), fun _ _ _ => described.1⟩
    intro label' properties' required' same
    cases same
    exact described.2

@[simp] theorem consistent_emptyArray (label : Label) :
    (emptyArray label).Consistent ↔ label.format = none :=
  ⟨fun consistent => consistent.format .array rfl rfl, fun formatted =>
    ⟨by simp, by simp, by simp [isMixedArray], fun _ _ _ => formatted⟩⟩

@[simp] theorem consistent_arrayOf (label : Label) (items : Node) :
    (arrayOf label items).Consistent ↔ label.format = none :=
  ⟨fun consistent => consistent.format .array rfl rfl, fun formatted =>
    ⟨by simp, by simp, by simp [isMixedArray], fun _ _ _ => formatted⟩⟩

@[simp] theorem consistent_mixedArray (label : Label) :
    (mixedArray label).Consistent ↔ label.format = none :=
  ⟨fun consistent => consistent.format .array rfl rfl, fun formatted =>
    ⟨by simp, by simp, fun _ => rfl, fun _ _ _ => formatted⟩⟩

@[simp] theorem consistent_union (label : Label) (branches : List Node) :
    (union label branches).Consistent :=
  ⟨by simp, by simp, by simp [isMixedArray], fun _ plain => by cases plain⟩

/-- The invariant of the representation. -/
abbrev Sound (node : Node) : Prop := node.Everywhere Consistent

theorem Consistent.update_cons {node : Node} (change : Node → Node) (step : Step) (rest : Path)
    (consistent : node.Consistent) : (node.update change (step :: rest)).Consistent := by
  cases node with
  | object label properties required =>
      cases step with
      | items => exact consistent
      | property name =>
          cases found : Keyed.lookup name properties with
          | none => simpa only [update, found] using consistent
          | some child =>
              rw [consistent_object] at consistent
              simp only [update, found]
              refine (consistent_object _ _ _).mpr ⟨consistent.1, fun name' member => ?_⟩
              rw [Keyed.keys_insert, Ordered.mem_insert]
              exact .inr (consistent.2 name' member)
  | arrayOf label items =>
      cases step with
      | items => exact (consistent_arrayOf _ _).mpr ((consistent_arrayOf _ _).mp consistent)
      | property name => exact consistent
  | _ => cases step <;> exact consistent

theorem Consistent.relabel {node : Node} (label : Label)
    (formatted : ∀ type, node.plainType? = some type → type.isStructural = true →
      label.format = none)
    (consistent : node.Consistent) : (node.relabel label).Consistent := by
  cases node with
  | scalar _ type => exact consistent_scalar label type
  | object _ properties required =>
      rw [consistent_object] at consistent
      exact (consistent_object _ _ _).mpr ⟨formatted .object rfl rfl, consistent.2⟩
  | emptyArray _ => exact (consistent_emptyArray _).mpr (formatted .array rfl rfl)
  | arrayOf _ items => exact (consistent_arrayOf _ _).mpr (formatted .array rfl rfl)
  | mixedArray _ => exact (consistent_mixedArray _).mpr (formatted .array rfl rfl)
  | union _ branches => exact consistent_union label branches

theorem Sound.ofType (type : ValueType) : (Node.ofType type).Sound := by
  cases type with
  | object => exact .object _ _ _ (by simp) (fun _ member => by cases member)
  | array => exact .emptyArray _ (by simp)
  | _ => exact .scalar _ _ (by simp)

theorem mem_addBranch {branches : List Node} {newcomer branch : Node}
    (member : branch ∈ addBranch branches newcomer) : branch ∈ branches ∨ branch = newcomer := by
  rw [addBranch] at member
  split at member
  · rw [sortBranches, List.mem_mergeSort, List.mem_append, List.mem_singleton] at member
    exact member
  · exact .inl member

theorem mem_absorb {combine : Node → Node} {newcomer branch : Node} {branches : List Node}
    (member : branch ∈ absorb combine newcomer branches) :
    branch ∈ branches ∨ branch = newcomer ∨ ∃ present ∈ branches, branch = combine present := by
  have combined : ∀ branches' result, absorb.go combine newcomer branches' = some result →
      ∀ branch ∈ result, branch ∈ branches' ∨ ∃ present ∈ branches', branch = combine present := by
    intro branches'
    induction branches' with
    | nil =>
        intro result found
        cases found
    | cons first rest ih =>
        intro result found branch inside
        rw [absorb.go] at found
        split at found
        · cases found
          rcases List.mem_cons.mp inside with rfl | later
          · exact .inr ⟨first, List.mem_cons_self, rfl⟩
          · exact .inl (List.mem_cons_of_mem first later)
        · rcases Option.map_eq_some_iff.mp found with ⟨others, found', rfl⟩
          rcases List.mem_cons.mp inside with rfl | later
          · exact .inl List.mem_cons_self
          · rcases ih others found' branch later with old | ⟨present, listed, same⟩
            · exact .inl (List.mem_cons_of_mem first old)
            · exact .inr ⟨present, List.mem_cons_of_mem first listed, same⟩
  rw [absorb] at member
  cases found : absorb.go combine newcomer branches with
  | none =>
      rw [found] at member
      exact (mem_addBranch member).imp_right .inl
  | some result =>
      rw [found] at member
      exact (combined branches result found branch member).imp_right .inr

theorem mem_addProperties {target newer : List (String × Node)} {entry : String × Node}
    (member : entry ∈ addProperties target newer) : entry ∈ target ∨ entry ∈ newer := by
  rw [addProperties] at member
  induction newer generalizing target with
  | nil => exact .inl member
  | cons first rest ih =>
      rcases ih member with earlier | later
      · rcases Keyed.mem_insert earlier with rfl | old
        · cases found : Keyed.lookup first.1 target with
          | none => exact .inr List.mem_cons_self
          | some present => exact .inl (Keyed.mem_of_lookup found)
        · exact .inl old
      · exact .inr (List.mem_cons_of_mem first later)

theorem mem_keys_addProperties (name : String) (target newer : List (String × Node)) :
    name ∈ Keyed.keys (addProperties target newer) ↔
      name ∈ Keyed.keys target ∨ name ∈ Keyed.keys newer := by
  rw [addProperties]
  induction newer generalizing target with
  | nil => simp [Keyed.keys]
  | cons entry rest ih =>
      rcases entry with ⟨first, child⟩
      simp only [List.foldl_cons]
      rw [ih, Keyed.alter, Keyed.keys_insert, Ordered.mem_insert, Keyed.keys, Keyed.keys, Keyed.keys,
        List.map_cons, List.mem_cons, or_comm (a := name = first), or_assoc]

theorem apart_sound {first second : Node} (former : first.Sound) (latter : second.Sound) :
    (apart first second).Sound := by
  refine .union _ _ (by simp) ?_
  intro branch member
  rcases mem_addBranch member with one | rfl
  · exact List.mem_singleton.mp one ▸ former
  · exact latter

mutual

theorem mergeElement_sound :
    (target element : Node) → target.Sound → element.Sound → (mergeElement target element).Sound
  | .scalar label type, element, former, latter => by
      simp only [mergeElement]
      split
      · exact apart_sound former latter
      · split <;> exact .scalar _ _ (by simp)
  | .object label properties required, element, former, latter => by
      simp only [mergeElement]
      split
      · exact apart_sound former latter
      · cases former with
        | object _ _ _ own children =>
            rw [consistent_object] at own
            cases latter with
            | object _ properties' required' _ children' =>
                refine .object _ _ _ ((consistent_object _ _ _).mpr ⟨rfl, fun name member => ?_⟩) ?_
                · rw [mem_keys_addProperties, keys_mergeElementProperties]
                  exact .inl (own.2 name (List.mem_of_mem_filter member))
                · intro entry member
                  rcases mem_addProperties member with old | new
                  · exact mergeElementProperties_sound properties properties' children children'
                      entry old
                  · exact children' entry new
            | _ => exact .object _ _ _ ((consistent_object _ _ _).mpr ⟨rfl, own.2⟩) children
  | .emptyArray label, element, former, latter => by
      simp only [mergeElement]
      split
      · exact apart_sound former latter
      · cases latter with
        | arrayOf _ items _ inner => exact .arrayOf _ items (by simp) inner
        | mixedArray _ _ => exact .mixedArray _ (by simp)
        | _ => exact .emptyArray _ (by simp)
  | .arrayOf label items, element, former, latter => by
      simp only [mergeElement]
      split
      · exact apart_sound former latter
      · cases former with
        | arrayOf _ _ _ inner =>
            cases latter with
            | arrayOf _ items' _ inner' =>
                exact .arrayOf _ _ (by simp) (mergeElement_sound items items' inner inner')
            | mixedArray _ _ => exact .mixedArray _ (by simp)
            | _ => exact .arrayOf _ items (by simp) inner
  | .mixedArray label, element, former, latter => by
      simp only [mergeElement]
      split
      · exact apart_sound former latter
      · exact .mixedArray _ (by simp)
  | .union label branches, element, former, latter => by
      have each : ∀ branch ∈ branches, branch.Sound := fun _ => former.branch
      simp only [mergeElement]
      refine .union _ _ (by simp) ?_
      intro branch member
      cases found : mergeElementBranches branches element with
      | none =>
          rw [found] at member
          rcases mem_addBranch member with old | rfl
          · exact each branch old
          · exact latter
      | some merged =>
          rw [found] at member
          exact mergeElementBranches_sound branches element merged each latter found branch member

theorem mergeElementProperties_sound :
    (properties element : List (String × Node)) → (∀ entry ∈ properties, entry.2.Sound) →
      (∀ entry ∈ element, entry.2.Sound) →
      ∀ entry ∈ mergeElementProperties properties element, entry.2.Sound
  | [], _, _, _, _, member => by simp [mergeElementProperties] at member
  | (name, child) :: rest, element, children, children', entry, member => by
      rcases List.forall_mem_cons.mp children with ⟨inner, others⟩
      simp only [mergeElementProperties, List.mem_cons] at member
      rcases member with rfl | later
      · cases found : Keyed.lookup name element with
        | none => exact inner
        | some child' =>
            exact mergeElement_sound child child' inner (children' _ (Keyed.mem_of_lookup found))
      · exact mergeElementProperties_sound rest element others children' entry later

theorem mergeElementBranches_sound :
    (branches : List Node) → (element : Node) → (merged : List Node) →
      (∀ branch ∈ branches, branch.Sound) → element.Sound →
      mergeElementBranches branches element = some merged → ∀ branch ∈ merged, branch.Sound
  | [], _, _, _, _, found => by simp [mergeElementBranches] at found
  | first :: rest, element, merged, each, latter, found => by
      rcases List.forall_mem_cons.mp each with ⟨inner, others⟩
      rw [mergeElementBranches] at found
      split at found
      · cases found
        exact List.forall_mem_cons.mpr ⟨mergeElement_sound first element inner latter, others⟩
      · rcases Option.map_eq_some_iff.mp found with ⟨rest', found', rfl⟩
        exact List.forall_mem_cons.mpr
          ⟨inner, mergeElementBranches_sound rest element rest' others latter found'⟩

end

theorem addElement_sound (items : Option Node) (element : Node)
    (former : ∀ node ∈ items, node.Sound) (latter : element.Sound) :
    (addElement items element).Sound := by
  cases items with
  | none => exact latter
  | some target => exact mergeElement_sound target element (former target rfl) latter

mutual

theorem infer_sound (settings : Settings) :
    (value : Json) → (depth : Nat) → (node : Node) → infer settings depth value = .ok node →
      node.Sound
  | .null, depth, node, inferred => by
      cases bounded_eq_ok inferred
      exact .scalar _ _ (by simp)
  | .bool _, depth, node, inferred => by
      cases bounded_eq_ok inferred
      exact .scalar _ _ (by simp)
  | .number number, depth, node, inferred => by
      cases bounded_eq_ok inferred
      cases number <;> exact .scalar _ _ (by simp)
  | .string text, depth, node, inferred => by
      cases bounded_eq_ok inferred
      exact .scalar _ _ (by simp)
  | .array elements, depth, node, inferred => by
      rcases infer_array inferred with ⟨items, merged, rfl⟩
      have inner := inferElements_sound settings elements (depth + 1) none items
        (fun _ none => by cases none) merged
      cases items with
      | none => exact .emptyArray _ (by simp)
      | some items => exact .arrayOf _ items (by simp) (inner items rfl)
  | .object members, depth, node, inferred => by
      rcases infer_object inferred with ⟨properties, read, rfl⟩
      exact .object _ _ _ (by simp) (inferMembers_sound settings members (depth + 1) properties read)

theorem inferElements_sound (settings : Settings) :
    (elements : List Json) → (depth : Nat) → (items merged : Option Node) →
      (∀ node ∈ items, node.Sound) → inferElements settings depth items elements = .ok merged →
      ∀ node ∈ merged, node.Sound
  | [], _, _, _, former, inferred => by
      cases inferred
      exact former
  | element :: rest, depth, items, merged, former, inferred => by
      obtain ⟨next, read, remaining⟩ := inferElements_cons inferred
      have latter := infer_sound settings element depth next read
      have added := addElement_sound items next former latter
      refine inferElements_sound settings rest depth (some (addElement items next)) merged ?_ remaining
      intro node same
      exact Option.some.inj same ▸ added

theorem inferMembers_sound (settings : Settings) :
    (members : List (String × Json)) → (depth : Nat) → (properties : List (String × Node)) →
      inferMembers settings depth members = .ok properties → ∀ entry ∈ properties, entry.2.Sound
  | [], _, _, inferred => by
      cases inferred
      exact fun _ member => by cases member
  | (key, value) :: rest, depth, properties, inferred => by
      obtain ⟨child, others, read, remaining, rfl⟩ := inferMembers_cons inferred
      exact List.forall_mem_cons.mpr ⟨infer_sound settings value depth child read,
        inferMembers_sound settings rest depth others remaining⟩

end

mutual

theorem mergeInto_sound :
    (node target : Node) → target.Sound → node.Sound → (mergeInto target node).Sound
  | .scalar label type, target, _, _ => by
      cases target <;> exact .scalar _ _ (by simp)
  | .object label properties required, target, former, latter => by
      cases latter with
      | object _ _ _ own children =>
          rw [consistent_object] at own
          cases former with
          | object label' properties' required' own' children' =>
              rw [consistent_object] at own'
              refine .object _ _ _ ((consistent_object _ _ _).mpr ⟨rfl, fun name member => ?_⟩)
                (mergeProperties_sound properties properties' children' children)
              rw [mem_keys_mergeProperties]
              exact ((Ordered.mem_union required' required name).mp member).imp (own'.2 name)
                (own.2 name)
          | _ => exact .object _ _ _ ((consistent_object _ _ _).mpr ⟨rfl, own.2⟩) children
  | .emptyArray label, target, former, _ => by
      cases former with
      | arrayOf _ items _ inner => exact .arrayOf _ items (by simp) inner
      | mixedArray _ _ => exact .mixedArray _ (by simp)
      | _ => exact .emptyArray _ (by simp)
  | .arrayOf label items, target, former, latter => by
      cases latter with
      | arrayOf _ _ _ inner =>
          cases former with
          | arrayOf _ items' _ inner' =>
              exact .arrayOf _ _ (by simp) (mergeInto_sound items items' inner' inner)
          | mixedArray _ _ => exact .mixedArray _ (by simp)
          | _ => exact .arrayOf _ items (by simp) inner
  | .mixedArray label, target, _, _ => .mixedArray _ (by simp)
  | .union label branches, target, former, latter => by
      have newer : ∀ branch ∈ branches, branch.Sound := fun _ => latter.branch
      cases former with
      | union own branches' _ each =>
          simp only [mergeInto, withFormat]
          exact .union _ _ (by simp) (mergeBranches_sound branches branches' newer each)
      | _ =>
          simp only [mergeInto, withFormat]
          exact .union _ _ (by simp) newer

theorem mergeProperties_sound :
    (newer target : List (String × Node)) → (∀ entry ∈ target, entry.2.Sound) →
      (∀ entry ∈ newer, entry.2.Sound) → ∀ entry ∈ mergeProperties target newer, entry.2.Sound
  | [], _, children, _ => by simpa [mergeProperties] using children
  | (name, child) :: rest, target, children, newcomers => by
      rcases List.forall_mem_cons.mp newcomers with ⟨inner, others⟩
      rw [mergeProperties]
      refine mergeProperties_sound rest _ ?_ others
      intro entry member
      rcases Keyed.mem_insert member with rfl | old
      · cases found : Keyed.lookup name target with
        | none => exact inner
        | some present =>
            exact mergeInto_sound child present (children _ (Keyed.mem_of_lookup found)) inner
      · exact children entry old

theorem mergeBranches_sound :
    (newer target : List Node) → (∀ branch ∈ newer, branch.Sound) →
      (∀ branch ∈ target, branch.Sound) → ∀ branch ∈ mergeBranches target newer, branch.Sound
  | [], _, _, each => by simpa [mergeBranches] using each
  | newcomer :: rest, target, newcomers, each => by
      rcases List.forall_mem_cons.mp newcomers with ⟨inner, others⟩
      rw [mergeBranches]
      refine mergeBranches_sound rest _ others ?_
      intro branch member
      rcases mem_absorb member with old | rfl | ⟨present, listed, rfl⟩
      · exact each branch old
      · exact inner
      · exact mergeInto_sound newcomer present (each present listed) inner

end

theorem mergeAll_sound {trees : List Node} {merged : Node} (sound : ∀ tree ∈ trees, tree.Sound)
    (finished : mergeAll? trees = some merged) : merged.Sound := by
  cases trees with
  | nil => cases finished
  | cons first rest =>
      rcases List.forall_mem_cons.mp sound with ⟨start, others⟩
      have same : rest.foldl mergeInto first = merged := Option.some.inj finished
      rw [← same]
      clear same finished sound
      induction rest generalizing first with
      | nil => exact start
      | cons tree rest ih =>
          rcases List.forall_mem_cons.mp others with ⟨next, later⟩
          exact ih (mergeInto first tree) (mergeInto_sound tree first start next) later

theorem forgetItems_sound {node : Node} (sound : node.Sound) : node.forgetItems.Sound := by
  cases sound with
  | emptyArray _ _ | arrayOf _ _ _ _ | mixedArray _ _ => exact .mixedArray _ (by simp)
  | scalar _ _ own => exact .scalar _ _ own
  | object _ _ _ own children => exact .object _ _ _ own children
  | union _ _ own each => exact .union _ _ own each

theorem degradeAll_sound (places : List Path) (root : Node) (sound : root.Sound) :
    (root.degradeAll places).Sound := by
  rw [degradeAll]
  induction places generalizing root with
  | nil => exact sound
  | cons place rest ih =>
      rw [List.foldl_cons]
      apply ih
      rw [degrade_eq_update]
      exact sound.update (fun step rest part own => own.update_cons _ step rest)
        fun part _ inner => forgetItems_sound inner

end EventSchema.Node
