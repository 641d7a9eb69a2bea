import EventSchema.Proofs.Alternatives
/-!
Merging the elements of an array one by one comes to the same as grouping them first: the elements
of the first two families are merged family by family, the others are dropped, and children are
merged in the same way under each name.
-/
namespace EventSchema

namespace Node

/-- A node without notes, unions and arrays of mixed elements. Only scalars have a format. -/
inductive Elementary : Node → Prop where
  | scalar (format : Option Format) (type : ScalarType) : Elementary (scalar { format } type)
  | object (properties : List (String × Node)) (required : List String)
      (increasing : Keyed.Increasing properties)
      (children : ∀ entry ∈ properties, Elementary entry.2) :
      Elementary (object {} properties required)
  | emptyArray : Elementary (emptyArray {})
  | arrayOf (items : Node) (inner : Elementary items) : Elementary (arrayOf {} items)

namespace Elementary

variable {node : Node}

theorem wellFormed (elementary : node.Elementary) : node.WellFormed False := by
  induction elementary with
  | scalar format type => exact .scalar _ type
  | object properties required increasing _ ih => exact .object _ properties required increasing ih
  | emptyArray => exact .emptyArray _
  | arrayOf items _ ih => exact .arrayOf _ items ih

theorem plain (elementary : node.Elementary) : node.plainType? ≠ none := by
  cases elementary <;> simp [plainType?]

theorem step? {child : Node} {step : Step} (elementary : node.Elementary)
    (found : node.step? step = some child) : child.Elementary := by
  cases step with
  | property name =>
      obtain ⟨label, properties, required, rfl, listed⟩ :=
        (step?_property_eq_some_iff name node child).mp found
      cases elementary with
      | object _ _ _ children => exact children _ (Keyed.mem_of_lookup listed)
  | items =>
      obtain ⟨label, rfl⟩ := (step?_items_eq_some_iff node child).mp found
      cases elementary with
      | arrayOf _ inner => exact inner

theorem scalar_of_family (elementary : node.Elementary)
    (single : node.family.isStructural = false) :
    ∃ format type, node = .scalar { format } type := by
  cases elementary with
  | scalar format type => exact ⟨format, type, rfl⟩
  | _ => cases single

theorem object_of_family (elementary : node.Elementary) (family : node.family = .object) :
    ∃ properties required, node = .object {} properties required := by
  cases elementary with
  | object properties required => exact ⟨properties, required, rfl⟩
  | scalar format type => cases type <;> cases family
  | _ => cases family

theorem array_of_family (elementary : node.Elementary) (family : node.family = .array) :
    node = .emptyArray {} ∨ ∃ items, node = .arrayOf {} items := by
  cases elementary with
  | emptyArray => exact .inl rfl
  | arrayOf items => exact .inr ⟨items, rfl⟩
  | scalar format type => cases type <;> cases family
  | object properties required => cases family

end Elementary

section Definition

def families (elements : List Node) : List ValueType := (elements.map family).eraseDups

def ofFamily (family : ValueType) (elements : List Node) : List Node :=
  elements.filter (·.family = family)

def children (step : Step) (elements : List Node) : List Node := elements.filterMap (step? step)

def names (objects : List Node) : List String :=
  Ordered.ofList (objects.flatMap fun object => Keyed.keys (object.properties?.getD []))

def requiredByAll : List Node → List String
  | [] => []
  | first :: rest => (first.required?.getD []).filter fun name =>
      ∀ object ∈ rest, name ∈ object.required?.getD []

def scalarType? : Node → Option ScalarType
  | scalar _ type => some type
  | _ => none

/-- Types of one family differ only if they are integer and number. -/
def commonType : List ScalarType → ScalarType
  | [] => .null
  | first :: rest => if ∀ type ∈ rest, type = first then first else .number

theorem sizeOf_of_step? {node child : Node} {step : Step} (found : node.step? step = some child) :
    sizeOf child < sizeOf node := by
  cases step with
  | property name =>
      obtain ⟨label, properties, required, rfl, listed⟩ :=
        (step?_property_eq_some_iff name node child).mp found
      have inside := List.sizeOf_lt_of_mem (Keyed.mem_of_lookup listed)
      simp only [Prod.mk.sizeOf_spec, object.sizeOf_spec] at inside ⊢
      omega
  | items =>
      obtain ⟨label, rfl⟩ := (step?_items_eq_some_iff node child).mp found
      simp only [arrayOf.sizeOf_spec]
      omega

theorem sizeOf_ofFamily_le (family : ValueType) (elements : List Node) :
    sizeOf (ofFamily family elements) ≤ sizeOf elements := by
  induction elements with
  | nil => exact Nat.le_refl _
  | cons first rest ih =>
      rw [ofFamily] at ih ⊢
      rw [List.filter_cons]
      split <;> simp only [List.cons.sizeOf_spec] <;> omega

theorem sizeOf_children (step : Step) (elements : List Node) :
    sizeOf (children step elements) + elements.length ≤ sizeOf elements := by
  induction elements with
  | nil => exact Nat.le_refl _
  | cons first rest ih =>
      rw [children] at ih ⊢
      cases found : first.step? step with
      | none =>
          rw [List.filterMap_cons_none found, List.length_cons, List.cons.sizeOf_spec]
          omega
      | some child =>
          have smaller := sizeOf_of_step? found
          rw [List.filterMap_cons_some found, List.length_cons, List.cons.sizeOf_spec,
            List.cons.sizeOf_spec]
          omega

theorem sizeOf_children_lt {step : Step} {elements : List Node}
    (present : children step elements ≠ []) : sizeOf (children step elements) < sizeOf elements := by
  have smaller := sizeOf_children step elements
  have nonempty : elements ≠ [] := by
    rintro rfl
    exact present rfl
  have positive := List.length_pos_of_ne_nil nonempty
  omega

theorem mem_names (name : String) (objects : List Node) :
    name ∈ names objects ↔ children (.property name) objects ≠ [] := by
  rw [names, Ordered.mem_ofList, List.mem_flatMap, children, Ne, List.filterMap_eq_nil_iff]
  push Not
  refine exists_congr fun object => and_congr_right fun _ => ?_
  rw [← Keyed.lookup_isSome_iff, Option.ne_none_iff_isSome]
  cases object <;> simp [properties?, Node.step?, Keyed.lookup]

mutual

/-- The schema of elements of all kinds, of which those of the first two families count. -/
def blend (elements : List Node) : Node :=
  -- all types are listed in increasing order
  match (ValueType.all.filter (· ∈ (families elements).take 2)).map fun family =>
      blendFamily family (ofFamily family elements) with
  | [only] => only
  | branches => union {} branches
termination_by (sizeOf elements, 1)
decreasing_by
  have smaller := sizeOf_ofFamily_le family elements
  rw [Prod.lex_def]
  omega

def blendFamily (family : ValueType) (members : List Node) : Node :=
  match family with
  | .object =>
    object {}
      ((names members).attach.map fun ⟨name, _⟩ =>
        (name, blend (children (.property name) members)))
      (requiredByAll members)
  | .array =>
    if children .items members = [] then emptyArray {}
    else arrayOf {} (blend (children .items members))
  | _ =>
    scalar { format := (members.filterMap format?).getLast? }
      (commonType (members.filterMap scalarType?))
termination_by (sizeOf members, 0)
decreasing_by
  · exact .left _ _ (sizeOf_children_lt ((mem_names name members).mp ‹_›))
  · exact .left _ _ (sizeOf_children_lt ‹_›)

end

theorem blendFamily_object (members : List Node) :
    blendFamily .object members =
      object {} ((names members).map fun name => (name, blend (children (.property name) members)))
        (requiredByAll members) := by
  rw [blendFamily]
  simp

theorem blendFamily_array (members : List Node) :
    blendFamily .array members =
      if children .items members = [] then emptyArray {}
      else arrayOf {} (blend (children .items members)) := by
  rw [blendFamily]

end Definition

section Folding

def folded (elements : List Node) : Option Node :=
  elements.foldl (fun items element => some (addElement items element)) none

theorem folded_append (elements : List Node) (element : Node) :
    folded (elements ++ [element]) = some (addElement (folded elements) element) :=
  List.foldl_concat _ _ _ _

theorem folded_cons (first : Node) (rest : List Node) :
    folded (first :: rest) = some (rest.foldl mergeElement first) := by
  induction rest using List.reverseRecOn with
  | nil => rfl
  | append_singleton rest element ih =>
      rw [← List.cons_append, folded_append, ih, List.foldl_concat]
      rfl

theorem exists_folded {elements : List Node} (nonempty : elements ≠ []) :
    ∃ items, folded elements = some items := by
  obtain ⟨first, rest, rfl⟩ := List.exists_cons_of_ne_nil nonempty
  exact ⟨_, folded_cons first rest⟩

theorem folded_induction {motive : Node → Prop} {elements : List Node} {items : Node}
    (alone : ∀ element ∈ elements, motive element)
    (merging : ∀ target, motive target → ∀ element ∈ elements, motive (mergeElement target element))
    (merged : folded elements = some items) : motive items := by
  cases elements with
  | nil => cases merged
  | cons first rest =>
      rw [folded_cons] at merged
      obtain rfl := Option.some.inj merged
      apply List.foldlRecOn rest mergeElement (alone first List.mem_cons_self)
      intro target holds element inside
      exact merging target holds element (List.mem_cons_of_mem first inside)

theorem folded_of_family {type : ValueType} {members : List Node} {items : Node}
    (each : ∀ member ∈ members, member.Elementary ∧ member.family = type)
    (merged : folded members = some items) :
    items.WellFormed False ∧ items.plainType? ≠ none ∧ items.family = type := by
  refine folded_induction (motive := fun node => node.WellFormed False ∧ node.plainType? ≠ none ∧
    node.family = type) ?_ ?_ merged
  · intro member inside
    obtain ⟨elementary, within⟩ := each member inside
    exact ⟨elementary.wellFormed, elementary.plain, within⟩
  · rintro target ⟨wellFormed, plain, within⟩ member inside
    obtain ⟨elementary, within'⟩ := each member inside
    have same : target.family = member.family := within.trans within'.symm
    obtain ⟨wellFormed', kept⟩ := mergeElement_wellFormed _ _ wellFormed elementary.wellFormed
    exact ⟨wellFormed', plain_mergeElement plain same, (kept same).trans within⟩

end Folding

section Families

theorem commonType_append {types : List ScalarType} (nonempty : types ≠ []) (type : ScalarType) :
    commonType (types ++ [type]) =
      if commonType types = type then commonType types else .number := by
  obtain ⟨first, rest, rfl⟩ := List.exists_cons_of_ne_nil nonempty
  have joined : commonType (first :: rest ++ [type]) =
      if (∀ other ∈ rest, other = first) ∧ type = first then first else .number := by
    simp only [commonType, List.cons_append, List.forall_mem_append, List.forall_mem_singleton]
  rw [joined]
  by_cases same : ∀ other ∈ rest, other = first
  · have common : commonType (first :: rest) = first := if_pos same
    rw [common]
    by_cases equal : type = first
    · rw [if_pos ⟨same, equal⟩, if_pos equal.symm]
    · rw [if_neg fun both => equal both.2, if_neg (Ne.symm equal)]
  · have common : commonType (first :: rest) = .number := if_neg same
    rw [common, ite_self, if_neg fun both => same both.1]

theorem folded_scalars {type : ValueType} {members : List Node} (nonempty : members ≠ [])
    (single : type.isStructural = false)
    (each : ∀ member ∈ members, member.Elementary ∧ member.family = type) :
    folded members =
      some (scalar { format := (members.filterMap format?).getLast? }
        (commonType (members.filterMap scalarType?))) := by
  induction members using List.reverseRecOn with
  | nil => exact absurd rfl nonempty
  | append_singleton members member ih =>
      obtain ⟨before, last⟩ := List.forall_mem_append.mp each
      obtain ⟨elementary, within⟩ := last member (List.mem_singleton_self member)
      obtain ⟨format, own, rfl⟩ := elementary.scalar_of_family (within ▸ single)
      rw [folded_append, List.filterMap_append, List.filterMap_append]
      by_cases empty : members = []
      · subst empty
        cases format <;> rfl
      · have merged := ih empty before
        have family' : (commonType (members.filterMap scalarType?)).toValueType.family =
            own.toValueType.family := (folded_of_family before merged).2.2.trans within.symm
        have types : members.filterMap scalarType? ≠ [] := by
          obtain ⟨member, listed⟩ := List.exists_mem_of_ne_nil members empty
          obtain ⟨elementary', same⟩ := before member listed
          obtain ⟨format', own', rfl⟩ := elementary'.scalar_of_family (same ▸ single)
          exact List.ne_nil_of_mem (List.mem_filterMap.mpr ⟨_, listed, rfl⟩)
        rw [merged]
        simp only [addElement, mergeElement, family']
        have reached : (scalar { format } own).family = own.toValueType.family := rfl
        simp [reached, scalarType?, commonType_append types]

theorem requiredByAll_append {members : List Node} (nonempty : members ≠ []) (member : Node) :
    requiredByAll (members ++ [member]) =
      Ordered.inter (requiredByAll members) (member.required?.getD []) := by
  obtain ⟨first, rest, rfl⟩ := List.exists_cons_of_ne_nil nonempty
  simp only [requiredByAll, Ordered.inter, List.cons_append, List.filter_filter,
    List.forall_mem_append, List.forall_mem_singleton]
  refine List.filter_congr fun name _ => ?_
  rw [← Bool.decide_and]
  exact decide_eq_decide.mpr and_comm

theorem children_append (step : Step) (elements : List Node) (element : Node) :
    children step (elements ++ [element]) =
      children step elements ++ (element.step? step).toList := by
  rw [children, children, List.filterMap_append]
  cases found : element.step? step <;> simp [found]

theorem folded_append_toList (elements : List Node) (element : Option Node) :
    folded (elements ++ element.toList) = Option.merge mergeElement (folded elements) element := by
  cases element with
  | none => simp
  | some element =>
      rw [Option.toList_some, folded_append]
      cases folded elements <;> rfl

theorem folded_objects {members : List Node} (nonempty : members ≠ [])
    (each : ∀ member ∈ members, member.Elementary ∧ member.family = .object) :
    ∃ properties, folded members = some (object {} properties (requiredByAll members)) ∧
      ∀ name, Keyed.lookup name properties = folded (children (.property name) members) := by
  induction members using List.reverseRecOn with
  | nil => exact absurd rfl nonempty
  | append_singleton members member ih =>
      obtain ⟨before, last⟩ := List.forall_mem_append.mp each
      obtain ⟨elementary, within⟩ := last member (List.mem_singleton_self member)
      obtain ⟨properties', required', rfl⟩ := elementary.object_of_family within
      by_cases empty : members = []
      · subst empty
        refine ⟨properties', ?_, fun name => ?_⟩
        · simp [folded, addElement, requiredByAll, required?]
        · rw [children_append, folded_append_toList]
          cases found : Keyed.lookup name properties' <;> simp [Node.step?, found, children, folded]
      · obtain ⟨properties, merged, each'⟩ := ih empty before
        refine ⟨addProperties (mergeElementProperties properties properties') properties', ?_,
          fun name => ?_⟩
        · rw [folded_append, merged, requiredByAll_append empty]
          simp [addElement, mergeElement, required?, within]
        · rw [lookup_merged, each', children_append, folded_append_toList]
          rfl

theorem folded_arrays {members : List Node} (nonempty : members ≠ [])
    (each : ∀ member ∈ members, member.Elementary ∧ member.family = .array) :
    folded members = some (ofItems (folded (children .items members))) := by
  induction members using List.reverseRecOn with
  | nil => exact absurd rfl nonempty
  | append_singleton members member ih =>
      obtain ⟨before, last⟩ := List.forall_mem_append.mp each
      obtain ⟨elementary, within⟩ := last member (List.mem_singleton_self member)
      have own := elementary.array_of_family within
      rw [children_append, folded_append_toList, folded_append]
      by_cases empty : members = []
      · subst empty
        rcases own with rfl | ⟨items, rfl⟩ <;> rfl
      · rw [ih empty before]
        rcases own with rfl | ⟨items, rfl⟩ <;> cases folded (children .items members) <;>
          simp [addElement, ofItems, mergeElement, Node.step?, within]

theorem mem_children {step : Step} {elements : List Node} {child : Node}
    (listed : child ∈ children step elements) :
    ∃ element ∈ elements, element.step? step = some child :=
  List.mem_filterMap.mp listed

theorem keys_map_names (members : List Node) (child : String → Node) :
    Keyed.keys ((names members).map fun name => (name, child name)) = names members := by
  simp [Keyed.keys, Function.comp_def]

variable {members : List Node}

theorem eq_blended {properties : List (String × Node)} (increasing : Keyed.Increasing properties)
    (lookups : ∀ name, Keyed.lookup name properties = folded (children (.property name) members))
    (inner : ∀ step, children step members ≠ [] →
      folded (children step members) = some (blend (children step members))) :
    properties =
      (names members).map fun name => (name, blend (children (.property name) members)) := by
  apply Keyed.eq_of_lookup increasing
  · rw [Keyed.Increasing, keys_map_names]
    exact Ordered.increasing_ofList _
  · intro name
    rw [lookups, Keyed.lookup_map_mk]
    by_cases listed : name ∈ names members
    · rw [if_pos listed]
      exact inner _ ((mem_names name members).mp listed)
    · have none : children (.property name) members = [] := by
        simpa using mt (mem_names name members).mpr listed
      rw [if_neg listed, none]
      rfl

theorem folded_eq_blendFamily {type : ValueType} (nonempty : members ≠ [])
    (each : ∀ member ∈ members, member.Elementary ∧ member.family = type)
    (inner : ∀ step, children step members ≠ [] →
      folded (children step members) = some (blend (children step members))) :
    folded members = some (blendFamily type members) := by
  cases type with
  | object =>
      obtain ⟨properties, merged, lookups⟩ := folded_objects nonempty each
      cases (folded_of_family each merged).1 with
      | object _ _ _ increasing _ =>
          rw [merged, blendFamily_object, eq_blended increasing lookups inner]
  | array =>
      rw [folded_arrays nonempty each, blendFamily_array]
      by_cases empty : children .items members = []
      · rw [if_pos empty, empty]
        rfl
      · rw [if_neg empty, inner .items empty]
        rfl
  | _ => rw [folded_scalars nonempty rfl each, blendFamily] <;> simp

end Families

section Grouping

variable {elements : List Node} {element : Node} {first second : ValueType} {rest : List ValueType}

theorem mem_families (type : ValueType) (elements : List Node) :
    type ∈ families elements ↔ ∃ element ∈ elements, element.family = type := by
  rw [families, List.mem_eraseDups, List.mem_map]

theorem families_append (elements : List Node) (element : Node) :
    families (elements ++ [element]) =
      if element.family ∈ families elements then families elements
      else families elements ++ [element.family] := by
  have joined : families (elements ++ [element]) =
      families elements ++ ([element.family].removeAll (elements.map family)).eraseDups := by
    rw [families, List.map_append, List.eraseDups_append]
    rfl
  rw [joined]
  by_cases listed : element.family ∈ families elements
  · have before := (mem_families _ _).mp listed
    rw [if_pos listed]
    simp [List.removeAll, before]
  · have new := mt (mem_families _ _).mpr listed
    rw [if_neg listed]
    simp [List.removeAll, new, List.eraseDups_cons]

theorem families_distinct (listed : families elements = first :: second :: rest) :
    first ≠ second := by
  cases elements with
  | nil => cases listed
  | cons element elements =>
      rw [families, List.map_cons, List.eraseDups_cons] at listed
      obtain ⟨rfl, others⟩ := List.cons.inj listed
      have later : second ∈ (elements.map family).filter fun other => !other == element.family := by
        rw [← List.mem_eraseDups, others]
        exact List.mem_cons_self
      rintro rfl
      simp at later

theorem apart_comm {first second : Node} (different : first.family ≠ second.family) :
    apart first second = apart second first := by
  rcases apart_cases different with ⟨less, sorted⟩ | ⟨less, sorted⟩
  · exact sorted.trans (congrArg (union {}) (sortBranches_of_lt less)).symm
  · exact sorted.trans (apart_of_rank_le (Nat.le_of_lt less)).symm

theorem mergeElement_apart {first second element : Node} (different : first.family ≠ second.family)
    (same : element.family = first.family)
    (kept : (mergeElement first element).family = first.family) :
    mergeElement (apart first second) element = apart (mergeElement first element) second := by
  rcases apart_cases different with ⟨less, sorted⟩ | ⟨greater, sorted⟩
  · have less' := (lt_iff_of_family different kept).mpr less
    calc
      mergeElement (apart first second) element = union {} [mergeElement first element, second] := by
        rw [sorted]
        simp [mergeElement, mergeElementBranches, same]
      _ = apart (mergeElement first element) second :=
        (apart_of_rank_le (Nat.le_of_lt less')).symm
  · have greater' := (lt_iff_of_family' different.symm kept).mpr greater
    calc
      mergeElement (apart first second) element = union {} [second, mergeElement first element] := by
        rw [sorted]
        simp [mergeElement, mergeElementBranches, same, different.symm]
      _ = apart (mergeElement first element) second :=
        congrArg (union {}) (sortBranches_of_lt greater').symm

theorem mergeElement_apart_of_other {first second element : Node}
    (former : first.family ≠ element.family) (latter : second.family ≠ element.family) :
    mergeElement (apart first second) element = apart first second := by
  have sorted : apart first second = union {} (sortBranches [first, second]) := rfl
  rw [sorted]
  rcases sortBranches_pair first second with same | swapped
  · rw [same]
    simp [mergeElement, mergeElementBranches, former, latter, addBranch_pair]
  · rw [swapped]
    simp [mergeElement, mergeElementBranches, former, latter, addBranch_pair]

theorem elementary_ofFamily (elementary : ∀ element ∈ elements, element.Elementary)
    (type : ValueType) :
    ∀ member ∈ ofFamily type elements, member.Elementary ∧ member.family = type := by
  intro member listed
  obtain ⟨inside, within⟩ := List.mem_filter.mp listed
  exact ⟨elementary member inside, of_decide_eq_true within⟩

theorem ofFamily_of_families (single : families elements = [first]) :
    ofFamily first elements = elements := by
  rw [ofFamily, List.filter_eq_self]
  intro member inside
  have listed := (mem_families _ elements).mpr ⟨member, inside, rfl⟩
  rw [single, List.mem_singleton] at listed
  exact decide_eq_true listed

theorem ofFamily_ne_nil_iff (type : ValueType) (elements : List Node) :
    ofFamily type elements ≠ [] ↔ type ∈ families elements := by
  rw [mem_families, ofFamily, Ne, List.filter_eq_nil_iff]
  simp

theorem ofFamily_append_of_eq (same : element.family = first) :
    ofFamily first (elements ++ [element]) = ofFamily first elements ++ [element] := by
  simp [ofFamily, same]

theorem ofFamily_append_of_ne (other : element.family ≠ first) :
    ofFamily first (elements ++ [element]) = ofFamily first elements := by
  simp [ofFamily, other]

theorem families_append_cases
    (listed : families (elements ++ [element]) = first :: second :: rest) :
    (∃ others, families elements = first :: second :: others) ∨
      families elements = [first] ∧ element.family = second := by
  rw [families_append] at listed
  split at listed
  · exact .inl ⟨rest, listed⟩
  · cases former : families elements with
    | nil =>
        rw [former] at listed
        cases listed
    | cons first' others =>
        rw [former] at listed
        cases others with
        | nil =>
            cases listed
            exact .inr ⟨rfl, rfl⟩
        | cons second' others =>
            cases listed
            exact .inl ⟨others, rfl⟩

/-- The elements have become the union of those of two families, each merged by itself. -/
def Parted (first second : ValueType) (elements : List Node) : Prop :=
  ∃ former latter, former.family = first ∧ latter.family = second ∧
    folded (ofFamily first elements) = some former ∧
      folded (ofFamily second elements) = some latter ∧
        folded elements = some (apart former latter)

theorem Parted.symm (distinct : first ≠ second) (parted : Parted first second elements) :
    Parted second first elements := by
  obtain ⟨former, latter, within, within', merged, merged', joined⟩ := parted
  have different : former.family ≠ latter.family := by rwa [within, within']
  exact ⟨latter, former, within', within, merged', merged, apart_comm different ▸ joined⟩

theorem Parted.append_of_eq (elementary : ∀ other ∈ elements ++ [element], other.Elementary)
    (distinct : first ≠ second) (same : element.family = first)
    (parted : Parted first second elements) : Parted first second (elements ++ [element]) := by
  obtain ⟨former, latter, within, within', merged, merged', joined⟩ := parted
  have different : former.family ≠ latter.family := by rwa [within, within']
  have extended : folded (ofFamily first (elements ++ [element])) =
      some (mergeElement former element) := by
    rw [ofFamily_append_of_eq same, folded_append, merged]
    rfl
  obtain ⟨-, -, kept⟩ := folded_of_family (elementary_ofFamily elementary first) extended
  refine ⟨mergeElement former element, latter, kept, within', extended, ?_, ?_⟩
  · rw [ofFamily_append_of_ne fun equal => distinct (same.symm.trans equal), merged']
  · calc
      folded (elements ++ [element]) = some (mergeElement (apart former latter) element) := by
        rw [folded_append, joined]
        rfl
      _ = some (apart (mergeElement former element) latter) :=
        congrArg some
          (mergeElement_apart different (same.trans within.symm) (kept.trans within.symm))

theorem Parted.append_of_ne (other : element.family ≠ first) (other' : element.family ≠ second)
    (parted : Parted first second elements) : Parted first second (elements ++ [element]) := by
  obtain ⟨former, latter, within, within', merged, merged', joined⟩ := parted
  refine ⟨former, latter, within, within', ?_, ?_, ?_⟩
  · rw [ofFamily_append_of_ne other, merged]
  · rw [ofFamily_append_of_ne other', merged']
  · have different : former.family ≠ element.family := within ▸ other.symm
    have different' : latter.family ≠ element.family := within' ▸ other'.symm
    calc
      folded (elements ++ [element]) = some (mergeElement (apart former latter) element) := by
        rw [folded_append, joined]
        rfl
      _ = some (apart former latter) :=
        congrArg some (mergeElement_apart_of_other different different')

theorem parted_of_single (elementary : ∀ other ∈ elements, other.Elementary)
    (distinct : first ≠ second) (single : families elements = [first])
    (new : element.family = second) : Parted first second (elements ++ [element]) := by
  have all := ofFamily_of_families single
  have none : ofFamily second elements = [] := by
    by_contra present
    have listed := (ofFamily_ne_nil_iff second elements).mp present
    rw [single, List.mem_singleton] at listed
    exact distinct listed.symm
  have nonempty : elements ≠ [] := by
    rintro rfl
    cases single
  obtain ⟨former, merged⟩ := exists_folded nonempty
  have each : ∀ member ∈ elements, member.Elementary ∧ member.family = first :=
    all ▸ elementary_ofFamily elementary first
  obtain ⟨-, plain, within⟩ := folded_of_family each merged
  refine ⟨former, element, within, new, ?_, ?_, ?_⟩
  · rw [ofFamily_append_of_ne fun same => distinct (same.symm.trans new), all, merged]
  · rw [ofFamily_append_of_eq new, none]
    rfl
  · have different : former.family ≠ element.family := by rwa [within, new]
    calc
      folded (elements ++ [element]) = some (mergeElement former element) := by
        rw [folded_append, merged]
        rfl
      _ = some (apart former element) := congrArg some (mergeElement_of_different plain different)

/-- Once there are two families, elements of others no longer count. -/
theorem parted_of_families (elementary : ∀ element ∈ elements, element.Elementary)
    (listed : families elements = first :: second :: rest) : Parted first second elements := by
  induction elements using List.reverseRecOn generalizing rest with
  | nil => cases listed
  | append_singleton elements element ih =>
      have distinct := families_distinct listed
      have before := (List.forall_mem_append.mp elementary).1
      rcases families_append_cases listed with ⟨others, listed'⟩ | ⟨single, new⟩
      · have parted := ih before listed'
        by_cases same : element.family = first
        · exact parted.append_of_eq elementary distinct same
        · by_cases same' : element.family = second
          -- the union is the same with its alternatives in the other order
          · have swapped := (parted.symm distinct).append_of_eq elementary distinct.symm same'
            exact swapped.symm distinct.symm
          · exact parted.append_of_ne same same'
      · exact parted_of_single before distinct single new

theorem filter_all_single (type : ValueType) : ValueType.all.filter (· ∈ [type]) = [type] := by
  cases type <;> decide

theorem filter_all_pair {listed : List ValueType} (less : first < second)
    (each : ∀ type, type ∈ listed ↔ type = first ∨ type = second) :
    ValueType.all.filter (· ∈ listed) = [first, second] := by
  simp only [each]
  revert less
  cases first <;> cases second <;> decide

theorem blend_of_single (single : families elements = [first]) :
    blend elements = blendFamily first elements := by
  rw [blend, single, List.take_of_length_le (by simp), filter_all_single, List.map_singleton,
    ofFamily_of_families single]

/-- The union of two families has them in increasing order, in whichever order they have come. -/
theorem blend_of_families {former latter : Node} (listed : families elements = first :: second :: rest)
    (within : former.family = first) (within' : latter.family = second)
    (own : blendFamily first (ofFamily first elements) = former)
    (own' : blendFamily second (ofFamily second elements) = latter) :
    blend elements = apart former latter := by
  have distinct : former.family ≠ latter.family := by
    rw [within, within']
    exact families_distinct listed
  have order : former.type < latter.type ↔ first < second := by
    rw [ValueType.lt_iff_family_lt distinct, ← within, ← within']
    rfl
  have order' : latter.type < former.type ↔ second < first := by
    rw [ValueType.lt_iff_family_lt distinct.symm, ← within, ← within']
    rfl
  rw [blend, listed]
  rcases apart_cases distinct with ⟨less, sorted⟩ | ⟨greater, sorted⟩
  · rw [filter_all_pair (order.mp less) (by simp), sorted, ← own, ← own']
    rfl
  · rw [filter_all_pair (order'.mp greater) (by simp [or_comm]), sorted, ← own, ← own']
    rfl

theorem folded_eq_blend (elements : List Node) (nonempty : elements ≠ [])
    (elementary : ∀ element ∈ elements, element.Elementary) :
    folded elements = some (blend elements) := by
  -- by induction on the size: the children of a family are smaller than its members together
  have inner : ∀ type ∈ families elements,
      folded (ofFamily type elements) = some (blendFamily type (ofFamily type elements)) := by
    intro type listed
    have nonempty' := (ofFamily_ne_nil_iff type elements).mpr listed
    have each := elementary_ofFamily elementary type
    apply folded_eq_blendFamily nonempty' each
    intro step nonempty''
    apply folded_eq_blend _ nonempty''
    intro child listed
    obtain ⟨element, present, found⟩ := mem_children listed
    exact (each element present).1.step? found
  cases listed : families elements with
  | nil =>
      obtain ⟨element, inside⟩ := List.exists_mem_of_ne_nil elements nonempty
      have present := (mem_families _ elements).mpr ⟨element, inside, rfl⟩
      rw [listed] at present
      cases present
  | cons first rest =>
      have former := inner first (by simp [listed])
      cases rest with
      | nil =>
          rw [ofFamily_of_families listed] at former
          rw [former, blend_of_single listed]
      | cons second rest =>
          have latter := inner second (by simp [listed])
          obtain ⟨_, _, within, within', merged, merged', joined⟩ :=
            parted_of_families elementary listed
          have own := Option.some.inj (former.symm.trans merged)
          have own' := Option.some.inj (latter.symm.trans merged')
          rw [joined, blend_of_families listed within within' own own']
termination_by sizeOf elements
decreasing_by
  exact Nat.lt_of_lt_of_le (sizeOf_children_lt nonempty'') (sizeOf_ofFamily_le type elements)

/-- Folding elements without notes and unions into the first one amounts to merging the elements of
the first two families by themselves. -/
theorem foldl_mergeElement_eq_blend (first : Node) (rest : List Node)
    (elementary : ∀ element ∈ first :: rest, element.Elementary) :
    rest.foldl mergeElement first = blend (first :: rest) := by
  have merged := folded_eq_blend (first :: rest) (List.cons_ne_nil first rest) elementary
  rw [folded_cons] at merged
  exact Option.some.inj merged

/-- A null before objects, and a string that comes too late. The objects go first in the union. -/
theorem foldl_mergeElement_eq_blend_mixed :
    let first := object {} [("n", scalar {} .integer)] ["n"]
    let properties := [("n", scalar { format := some .epoch } .number), ("ok", scalar {} .boolean)]
    let second := object {} properties ["n", "ok"]
    let both := object {} properties ["n"]
    let rest := [first, second, scalar {} .string]
    (∀ element ∈ scalar {} .null :: rest, element.Elementary) ∧
      rest.foldl mergeElement (scalar {} .null) = blend (scalar {} .null :: rest) ∧
        blend (scalar {} .null :: rest) = union {} [both, scalar {} .null] := by
  intro first properties second both rest
  have leaf : ∀ type, (scalar {} type).Elementary := Elementary.scalar none
  have elementary : ∀ element ∈ scalar {} .null :: rest, element.Elementary := by
    have alone : ["n"].Pairwise (· < ·) := List.pairwise_singleton _ _
    have pair : ["n", "ok"].Pairwise (· < ·) := by decide
    simp only [rest, List.forall_mem_cons]
    refine ⟨leaf _, .object _ _ alone ?_, .object _ _ pair ?_, leaf _, by simp⟩
    · simpa using leaf _
    · simpa [properties] using ⟨.scalar _ _, leaf _⟩
  have merged : rest.foldl mergeElement (scalar {} .null) = union {} [both, scalar {} .null] := by
    have parted : mergeElement (scalar {} .null) first = union {} [first, scalar {} .null] := by
      rw [mergeElement_of_different (by decide) (by decide), apart_comm (by decide)]
      exact apart_of_rank_le (by decide)
    rw [List.foldl_cons, parted]
    rfl
  have same := foldl_mergeElement_eq_blend (scalar {} .null) rest elementary
  exact ⟨elementary, same, same.symm.trans merged⟩

end Grouping

section Items

variable {settings : Settings}

theorem inferElements_eq_folded {elements : List Json} {depth : Nat} {before : List Node}
    {items : Option Node}
    (inferred : inferElements settings depth (folded before) elements = .ok items) :
    ∃ trees, List.Forall₂ (fun element tree => infer settings depth element = .ok tree)
        elements trees ∧ items = folded (before ++ trees) := by
  induction elements generalizing before with
  | nil =>
      cases inferred
      exact ⟨[], .nil, by rw [List.append_nil]⟩
  | cons element rest ih =>
      obtain ⟨next, read, remaining⟩ := inferElements_cons inferred
      rw [← folded_append] at remaining
      obtain ⟨trees, each, rfl⟩ := ih remaining
      exact ⟨next :: trees, .cons read each, by rw [List.append_assoc]; rfl⟩

/-- The items of an array whose elements have elementary trees. -/
theorem infer_array_eq_blend {elements : List Json} {depth : Nat} {tree : Node}
    (nonempty : elements ≠ []) (inferred : infer settings depth (.array elements) = .ok tree)
    (elementary : ∀ element ∈ elements, ∀ tree, infer settings (depth + 1) element = .ok tree →
      tree.Elementary) :
    ∃ trees, List.Forall₂ (fun element tree => infer settings (depth + 1) element = .ok tree)
        elements trees ∧ tree = arrayOf {} (blend trees) := by
  obtain ⟨items, read, rfl⟩ := infer_array inferred
  have read' : inferElements settings (depth + 1) (folded []) elements = .ok items := read
  obtain ⟨trees, each, rfl⟩ := inferElements_eq_folded read'
  have given : trees ≠ [] := by
    rintro rfl
    exact nonempty (List.forall₂_nil_right_iff.mp each)
  have elementary' : ∀ tree ∈ trees, tree.Elementary := by
    intro tree listed
    obtain ⟨element, inside, own⟩ := exists_of_forall₂ each listed
    exact elementary element inside tree own
  refine ⟨trees, each, ?_⟩
  rw [List.nil_append, folded_eq_blend trees given elementary']
  rfl

end Items

end Node

end EventSchema
