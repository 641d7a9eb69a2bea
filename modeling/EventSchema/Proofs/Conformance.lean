import EventSchema.Proofs.SampleValues
/-!
Whether a sample conforms to the tree inferred from it. It does where the trees of array elements
after the first have no unions: a union that is merged into items of one type loses its alternatives
but the first.
-/
namespace EventSchema

namespace Json

inductive Within : Json → Json → Prop where
  | self (value : Json) : Within value value
  | element {part element : Json} (elements : List Json) (listed : element ∈ elements)
      (inside : Within part element) : Within part (.array elements)
  | member {part child : Json} (key : String) (members : List (String × Json))
      (listed : (key, child) ∈ members) (inside : Within part child) : Within part (.object members)

theorem within_bool_iff (part : Json) (value : Bool) :
    part.Within (.bool value) ↔ part = .bool value := by
  constructor
  · intro inside
    cases inside
    rfl
  · rintro rfl
    exact .self _

theorem within_array_iff (part : Json) (elements : List Json) :
    part.Within (.array elements) ↔
      part = .array elements ∨ ∃ element ∈ elements, part.Within element := by
  constructor
  · intro inside
    cases inside with
    | self => exact .inl rfl
    | element _ listed inside => exact .inr ⟨_, listed, inside⟩
  · rintro (rfl | ⟨element, listed, inside⟩)
    · exact .self _
    · exact .element elements listed inside

theorem within_object_iff (part : Json) (members : List (String × Json)) :
    part.Within (.object members) ↔
      part = .object members ∨ ∃ entry ∈ members, part.Within entry.2 := by
  constructor
  · intro inside
    cases inside with
    | self => exact .inl rfl
    | member key _ listed inside => exact .inr ⟨_, listed, inside⟩
  · rintro (rfl | ⟨entry, listed, inside⟩)
    · exact .self _
    · exact .member entry.1 members listed inside

/-- The values that a tree describes. A union takes a value of any of its families only by an
alternative, and a value of another family if it has no room left. -/
inductive Conforms : Json → Node → Prop where
  | scalar (value : Json) (label : Label) (type : ScalarType)
      (own : ValueType.ofValue value = type.toValueType ∨
        ValueType.ofValue value = .integer ∧ type = .number) :
      Conforms value (.scalar label type)
  | object (members : List (String × Json)) (label : Label) (properties : List (String × Node))
      (required : List String) (known : ∀ key ∈ Keyed.keys members, key ∈ Keyed.keys properties)
      (each : ∀ key part child, (key, part) ∈ members → Keyed.lookup key properties = some child →
        Conforms part child)
      (present : ∀ name ∈ required, name ∈ Keyed.keys members) :
      Conforms (.object members) (.object label properties required)
  | emptyArray (label : Label) : Conforms (.array []) (.emptyArray label)
  | mixedArray (label : Label) : Conforms (.array []) (.mixedArray label)
  | arrayOf (elements : List Json) (label : Label) (items : Node)
      (each : ∀ element ∈ elements, Conforms element items) :
      Conforms (.array elements) (.arrayOf label items)
  | branch (value : Json) (label : Label) (branches : List Node) (branch : Node)
      (offered : (ValueType.ofValue value).family ∈ branches.map Node.family)
      (member : branch ∈ branches) (conforming : Conforms value branch) :
      Conforms value (.union label branches)
  | beyond (value : Json) (label : Label) (branches : List Node)
      (other : (ValueType.ofValue value).family ∉ branches.map Node.family)
      (full : Node.maxBranches ≤ branches.length) : Conforms value (.union label branches)

end Json

namespace Node

open Json

inductive UnionFree : Node → Prop where
  | scalar (label : Label) (type : ScalarType) : UnionFree (scalar label type)
  | object (label : Label) (properties : List (String × Node)) (required : List String)
      (children : ∀ entry ∈ properties, UnionFree entry.2) :
      UnionFree (object label properties required)
  | emptyArray (label : Label) : UnionFree (emptyArray label)
  | arrayOf (label : Label) (items : Node) (inner : UnionFree items) :
      UnionFree (arrayOf label items)
  | mixedArray (label : Label) : UnionFree (mixedArray label)

theorem UnionFree.plain {node : Node} (free : node.UnionFree) : node.plainType? ≠ none := by
  cases free <;> exact Option.some_ne_none _

theorem family_of_conforms {value : Json} {node : Node} (conforming : value.Conforms node)
    (plain : node.plainType? ≠ none) : (ValueType.ofValue value).family = node.family := by
  cases conforming with
  | scalar _ label type own =>
      rcases own with same | ⟨integer, rfl⟩
      · rw [same]
        rfl
      · rw [integer]
        rfl
  | object _ _ _ _ _ _ _ | emptyArray _ | mixedArray _ | arrayOf _ _ _ _ => rfl
  | branch _ _ _ _ _ _ _ | beyond _ _ _ _ _ => exact absurd rfl plain

theorem conforms_relabel {value : Json} {node : Node} (label : Label)
    (conforming : value.Conforms node) : value.Conforms (node.relabel label) := by
  cases conforming with
  | scalar _ _ type own => exact .scalar value label type own
  | object members _ properties required known each present =>
      exact .object members label properties required known each present
  | emptyArray _ => exact .emptyArray label
  | mixedArray _ => exact .mixedArray label
  | arrayOf elements _ items each => exact .arrayOf elements label items each
  | branch _ _ branches branch offered member conforming =>
      exact .branch value label branches branch offered member conforming
  | beyond _ _ branches other full => exact .beyond value label branches other full

theorem conforms_object_iff (value : Json) (label : Label) (properties : List (String × Node))
    (required : List String) :
    value.Conforms (object label properties required) ↔
      ∃ members, value = .object members ∧
        (∀ key part, (key, part) ∈ members →
          ∃ child, Keyed.lookup key properties = some child ∧ part.Conforms child) ∧
        ∀ name ∈ required, name ∈ Keyed.keys members := by
  constructor
  · intro conforming
    cases conforming with
    | object members _ _ _ known each present =>
        refine ⟨members, rfl, fun key part listed => ?_, present⟩
        have has := known key (List.mem_map_of_mem listed)
        rcases Option.isSome_iff_exists.mp ((Keyed.lookup_isSome_iff key properties).mpr has) with
          ⟨child, found⟩
        exact ⟨child, found, each key part child listed found⟩
  · intro described
    rcases described with ⟨members, rfl, covered, present⟩
    refine .object members label properties required (fun key listed => ?_)
      (fun key part child listed found => ?_) present
    · rcases List.mem_map.mp listed with ⟨⟨_, part⟩, inside, rfl⟩
      rcases covered _ part inside with ⟨child, found, -⟩
      exact (Keyed.lookup_isSome_iff _ properties).mp (Option.isSome_of_eq_some found)
    · rcases covered key part listed with ⟨child', found', conforming⟩
      exact Option.some.inj (found'.symm.trans found) ▸ conforming

theorem conforms_arrayOf_iff (value : Json) (label : Label) (items : Node) :
    value.Conforms (arrayOf label items) ↔
      ∃ elements, value = .array elements ∧ ∀ element ∈ elements, element.Conforms items := by
  constructor
  · intro conforming
    cases conforming with
    | arrayOf elements _ _ each => exact ⟨elements, rfl, each⟩
  · intro described
    rcases described with ⟨elements, rfl, each⟩
    exact .arrayOf elements label items each

theorem conforms_arrayOf_of_empty {value : Json} {label : Label} (label' : Label) (items : Node)
    (conforming : value.Conforms (emptyArray label)) : value.Conforms (arrayOf label' items) := by
  cases conforming with
  | emptyArray _ => exact (conforms_arrayOf_iff _ label' items).mpr ⟨[], rfl, by simp⟩

theorem apart_of_rank_le {first second : Node} (ordered : first.type.rank ≤ second.type.rank) :
    apart first second = union {} [first, second] := by
  have sorted : sortBranches [first, second] = [first, second] :=
    List.mergeSort_of_pairwise (by simpa using ordered)
  have same : apart first second = union {} (sortBranches [first, second]) := rfl
  rw [same, sorted]

theorem conforms_apart {value : Json} {first second : Node} (plain : first.plainType? ≠ none)
    (plain' : second.plainType? ≠ none)
    (either : value.Conforms first ∨ value.Conforms second) :
    value.Conforms (apart first second) := by
  have listed : ∀ branch, branch ∈ sortBranches [first, second] ↔
      branch = first ∨ branch = second := by
    intro branch
    rcases sortBranches_pair first second with same | swapped
    · simp [same]
    · simp [swapped, or_comm]
  have sorted : apart first second = union {} (sortBranches [first, second]) := rfl
  rw [sorted]
  rcases either with former | latter
  · have member := (listed first).mpr (.inl rfl)
    refine .branch value {} _ first ?_ member former
    rw [family_of_conforms former plain]
    exact List.mem_map_of_mem member
  · have member := (listed second).mpr (.inr rfl)
    refine .branch value {} _ second ?_ member latter
    rw [family_of_conforms latter plain']
    exact List.mem_map_of_mem member

theorem conforms_union_of_wider {value : Json} {label label' : Label} {branches branches' : List Node}
    (families : branches'.map family = branches.map family)
    (wider : ∀ branch ∈ branches, value.Conforms branch →
      ∃ branch' ∈ branches', value.Conforms branch')
    (conforming : value.Conforms (union label branches)) :
    value.Conforms (union label' branches') := by
  cases conforming with
  | branch _ _ _ branch offered member inner =>
      rcases wider branch member inner with ⟨branch', member', inner'⟩
      exact .branch value label' branches' branch' (families ▸ offered) member' inner'
  | beyond _ _ _ other full =>
      have length : branches'.length = branches.length := by
        simpa using congrArg List.length families
      exact .beyond value label' branches' (families ▸ other) (length ▸ full)

theorem mergeElement_of_different {target element : Node} (plain : target.plainType? ≠ none)
    (different : target.family ≠ element.family) :
    mergeElement target element = apart target element := by
  cases target with
  | union _ _ => exact absurd rfl plain
  | scalar label type =>
      have different' : type.toValueType.family ≠ element.family := different
      simp [mergeElement, different']
  | object _ _ _ =>
      have different' : element.family ≠ .object := Ne.symm different
      simp [mergeElement, different']
  | emptyArray _ | arrayOf _ _ | mixedArray _ =>
      have different' : element.family ≠ .array := Ne.symm different
      simp [mergeElement, different']

theorem lookup_mergeElementProperties (name : String) (properties element : List (String × Node)) :
    Keyed.lookup name (mergeElementProperties properties element) =
      (Keyed.lookup name properties).map fun child =>
        match Keyed.lookup name element with
        | some child' => mergeElement child child'
        | none => child := by
  induction properties with
  | nil => rfl
  | cons entry rest ih =>
      rcases entry with ⟨first, child⟩
      by_cases same : name = first
      · subst same
        cases found : Keyed.lookup name element <;>
          simp [mergeElementProperties, Keyed.lookup, found]
      · simp [mergeElementProperties, Keyed.lookup, same, ih]

theorem lookup_addProperties (name : String) (target newer : List (String × Node)) :
    Keyed.lookup name (addProperties target newer) =
      (Keyed.lookup name target).or (Keyed.lookup name newer) := by
  rw [addProperties]
  induction newer generalizing target with
  | nil => simp [Keyed.lookup]
  | cons entry rest ih =>
      rcases entry with ⟨first, child⟩
      rw [List.foldl_cons, ih, Keyed.lookup_alter]
      by_cases same : name = first
      · subst same
        cases Keyed.lookup name target <;> simp [Keyed.lookup]
      · simp [Keyed.lookup, same]

theorem lookup_merged (name : String) (properties element : List (String × Node)) :
    Keyed.lookup name (addProperties (mergeElementProperties properties element) element) =
      Option.merge mergeElement (Keyed.lookup name properties) (Keyed.lookup name element) := by
  rw [lookup_addProperties, lookup_mergeElementProperties]
  cases Keyed.lookup name properties <;> cases Keyed.lookup name element <;> simp

def Absorbs (target : Node) : Prop :=
  ∀ element : Node, element.WellFormed False → element.UnionFree →
    ∀ value : Json, value.Conforms target ∨ value.Conforms element →
      value.Conforms (mergeElement target element)

theorem absorbs_of_same_family {target : Node} (plain : target.plainType? ≠ none)
    (same : ∀ element : Node, element.WellFormed False → element.UnionFree →
      target.family = element.family → ∀ value : Json,
        value.Conforms target ∨ value.Conforms element →
          value.Conforms (mergeElement target element)) : target.Absorbs := by
  intro element wellFormed free value either
  by_cases family : target.family = element.family
  · exact same element wellFormed free family value either
  · rw [mergeElement_of_different plain family]
    exact conforms_apart plain free.plain either

theorem taken_widened (taken : ValueType) (type type' : ScalarType)
    (same : type.toValueType.family = type'.toValueType.family)
    (either : (taken = type.toValueType ∨ taken = .integer ∧ type = .number) ∨
      taken = type'.toValueType ∨ taken = .integer ∧ type' = .number) :
    taken = (if type = type' then type else .number).toValueType ∨
      taken = .integer ∧ (if type = type' then type else .number) = .number := by
  cases type <;> cases type' <;> grind [ScalarType.toValueType, ValueType.family]

theorem absorbs_scalar (label : Label) (type : ScalarType) : (scalar label type).Absorbs := by
  refine absorbs_of_same_family (Option.some_ne_none _) ?_
  intro element _ free same value either
  have same' : type.toValueType.family = element.family := same
  cases free with
  | scalar label' type' =>
      simp only [mergeElement, same', ne_eq, not_true_eq_false, if_false]
      refine .scalar value _ _ (taken_widened _ type type' same ?_)
      rcases either with former | latter
      · cases former with
        | scalar _ _ _ own => exact .inl own
      · cases latter with
        | scalar _ _ _ own => exact .inr own
  | object _ _ _ _ | emptyArray _ | arrayOf _ _ _ | mixedArray _ => cases type <;> cases same

theorem exists_merge {part : Json} {own other : Option Node}
    (either : (∃ first, own = some first ∧ part.Conforms first) ∨
      ∃ second, other = some second ∧ part.Conforms second)
    (both : ∀ first second, own = some first → other = some second →
      part.Conforms first ∨ part.Conforms second → part.Conforms (mergeElement first second)) :
    ∃ child, Option.merge mergeElement own other = some child ∧ part.Conforms child := by
  rcases either with ⟨first, rfl, conforming⟩ | ⟨second, rfl, conforming⟩
  · cases other with
    | none => exact ⟨first, rfl, conforming⟩
    | some second => exact ⟨_, rfl, both first second rfl rfl (.inl conforming)⟩
  · cases own with
    | none => exact ⟨second, rfl, conforming⟩
    | some first => exact ⟨_, rfl, both first second rfl rfl (.inr conforming)⟩

theorem absorbs_object (label : Label) (properties : List (String × Node)) (required : List String)
    (children : ∀ entry ∈ properties, entry.2.Absorbs) :
    (object label properties required).Absorbs := by
  refine absorbs_of_same_family (Option.some_ne_none _) ?_
  intro element wellFormed free same value either
  cases free with
  | object label' properties' required' free' =>
      cases wellFormed with
      | object _ _ _ _ inner =>
          have merged : mergeElement (object label properties required)
              (object label' properties' required') = object { label with format := none }
                (addProperties (mergeElementProperties properties properties') properties')
                (Ordered.inter required required') := by
            simp [mergeElement, Node.family, Node.type, ValueType.family]
          have both : ∀ (key : String) (part : Json) (first second : Node),
              Keyed.lookup key properties = some first → Keyed.lookup key properties' = some second →
                part.Conforms first ∨ part.Conforms second →
                  part.Conforms (mergeElement first second) := by
            intro key part first second found found'
            exact children _ (Keyed.mem_of_lookup found) second (inner _ (Keyed.mem_of_lookup found'))
              (free' _ (Keyed.mem_of_lookup found')) part
          rw [merged, conforms_object_iff]
          simp only [lookup_merged, Ordered.inter, List.mem_filter, decide_eq_true_eq]
          rcases either with former | latter
          · rcases (conforms_object_iff value _ _ _).mp former with ⟨members, rfl, covered, present⟩
            exact ⟨members, rfl,
              fun key part listed => exists_merge (.inl (covered key part listed)) (both key part),
              fun name demanded => present name demanded.1⟩
          · rcases (conforms_object_iff value _ _ _).mp latter with ⟨members, rfl, covered, present⟩
            exact ⟨members, rfl,
              fun key part listed => exists_merge (.inr (covered key part listed)) (both key part),
              fun name demanded => present name demanded.2⟩
  | scalar _ type => cases type <;> cases same
  | emptyArray _ | arrayOf _ _ _ | mixedArray _ => cases same

theorem absorbs_emptyArray (label : Label) : (emptyArray label).Absorbs := by
  refine absorbs_of_same_family (Option.some_ne_none _) ?_
  intro element wellFormed free same value either
  cases wellFormed with
  | emptyArray label' =>
      have merged : mergeElement (emptyArray label) (emptyArray label') =
          emptyArray { label with format := none } := by
        simp [mergeElement, Node.family, Node.type, ValueType.family]
      rw [merged]
      exact either.elim (conforms_relabel _) (conforms_relabel _)
  | arrayOf label' items _ =>
      have merged : mergeElement (emptyArray label) (arrayOf label' items) =
          arrayOf { label with format := none } items := by
        simp [mergeElement, Node.family, Node.type, ValueType.family]
      rw [merged]
      exact either.elim (conforms_arrayOf_of_empty _ items) (conforms_relabel _)
  | mixedArray _ impossible => exact impossible.elim
  | scalar _ type => cases type <;> cases same
  | object _ _ _ _ _ => cases same
  | union _ _ _ _ _ _ => exact absurd rfl free.plain

theorem absorbs_arrayOf (label : Label) (items : Node) (inner : items.Absorbs) :
    (arrayOf label items).Absorbs := by
  refine absorbs_of_same_family (Option.some_ne_none _) ?_
  intro element wellFormed free same value either
  cases wellFormed with
  | emptyArray label' =>
      have merged : mergeElement (arrayOf label items) (emptyArray label') =
          arrayOf { label with format := none } items := by
        simp [mergeElement, Node.family, Node.type, ValueType.family]
      rw [merged]
      exact either.elim (conforms_relabel _) (conforms_arrayOf_of_empty _ items)
  | arrayOf label' items' wellFormed' =>
      cases free with
      | arrayOf _ _ free' =>
          have merged : mergeElement (arrayOf label items) (arrayOf label' items') =
              arrayOf { label with format := none } (mergeElement items items') := by
            simp [mergeElement, Node.family, Node.type, ValueType.family]
          have each := inner items' wellFormed' free'
          rw [merged, conforms_arrayOf_iff]
          rcases either with former | latter
          · rcases (conforms_arrayOf_iff value label items).mp former with ⟨elements, rfl, taken⟩
            exact ⟨elements, rfl, fun element listed => each element (.inl (taken element listed))⟩
          · rcases (conforms_arrayOf_iff value label' items').mp latter with ⟨elements, rfl, taken⟩
            exact ⟨elements, rfl, fun element listed => each element (.inr (taken element listed))⟩
  | mixedArray _ impossible => exact impossible.elim
  | scalar _ type => cases type <;> cases same
  | object _ _ _ _ _ => cases same
  | union _ _ _ _ _ _ => exact absurd rfl free.plain

theorem absorbs_union (label : Label) (first second : Node) (different : first.family ≠ second.family)
    (former : first.WellFormed False) (latter : second.WellFormed False) (one : first.Absorbs)
    (other : second.Absorbs) : (union label [first, second]).Absorbs := by
  intro element wellFormed free value either
  have family : value.Conforms element → (ValueType.ofValue value).family = element.family :=
    fun conforming => family_of_conforms conforming free.plain
  by_cases same : first.family = element.family
  · have kept := (mergeElement_wellFormed first element former wellFormed).2 same
    simp only [mergeElement, mergeElementBranches, same, if_true, Option.getD_some]
    rcases either with before | new
    · refine conforms_union_of_wider (by simp [kept]) ?_ before
      intro branch member conforming
      simp only [List.mem_cons, List.not_mem_nil, or_false] at member
      rcases member with rfl | rfl
      · exact ⟨_, List.mem_cons_self, one element wellFormed free value (.inl conforming)⟩
      · exact ⟨branch, by simp, conforming⟩
    · refine .branch value label _ _ ?_ List.mem_cons_self
        (one element wellFormed free value (.inr new))
      simp [family new, kept, same]
  · by_cases same' : second.family = element.family
    · have kept := (mergeElement_wellFormed second element latter wellFormed).2 same'
      simp only [mergeElement, mergeElementBranches, same, same', if_true, if_false,
        Option.map_some, Option.getD_some]
      rcases either with before | new
      · refine conforms_union_of_wider (by simp [kept]) ?_ before
        intro branch member conforming
        simp only [List.mem_cons, List.not_mem_nil, or_false] at member
        rcases member with rfl | rfl
        · exact ⟨branch, by simp, conforming⟩
        · exact ⟨_, by simp, other element wellFormed free value (.inl conforming)⟩
      · refine .branch value label _ (mergeElement second element) ?_ (by simp)
          (other element wellFormed free value (.inr new))
        simp [family new, kept, same']
    · simp only [mergeElement, mergeElementBranches, same, same', if_false, Option.map_none,
        Option.getD_none, addBranch_pair]
      rcases either with before | new
      · exact before
      · refine .beyond value label _ ?_ (by simp [maxBranches])
        simp [family new, Ne.symm same, Ne.symm same']

theorem absorbs_of_wellFormed {target : Node} (wellFormed : target.WellFormed False) :
    target.Absorbs := by
  induction wellFormed with
  | scalar label type => exact absorbs_scalar label type
  | object label properties required _ _ ih => exact absorbs_object label properties required ih
  | emptyArray label => exact absorbs_emptyArray label
  | arrayOf label items _ ih => exact absorbs_arrayOf label items ih
  | mixedArray _ impossible => exact impossible.elim
  | union label first second different former latter one other =>
      exact absorbs_union label first second different former latter one other

variable {settings : Settings}

/-- Further elements and what the items took before them conform to the items in the end. -/
theorem conforms_inferElements (elements : List Json) {depth : Nat} {target : Node}
    {merged : Option Node} (wellFormed : target.WellFormed False)
    (each : ∀ element ∈ elements, ∀ tree, infer settings depth element = .ok tree →
      tree.WellFormed False ∧ tree.UnionFree ∧ element.Conforms tree)
    (inferred : inferElements settings depth (some target) elements = .ok merged) :
    ∃ items, merged = some items ∧ (∀ value : Json, value.Conforms target → value.Conforms items) ∧
      ∀ element ∈ elements, element.Conforms items := by
  induction elements generalizing target with
  | nil =>
      cases inferred
      exact ⟨target, rfl, fun _ conforming => conforming, fun _ impossible => by cases impossible⟩
  | cons element rest ih =>
      rcases List.forall_mem_cons.mp each with ⟨first, others⟩
      obtain ⟨next, read, remaining⟩ := inferElements_cons inferred
      rcases first next read with ⟨inner, free, own⟩
      have taken := absorbs_of_wellFormed wellFormed next inner free
      rcases ih (mergeElement_wellFormed target next wellFormed inner).1 others remaining with
        ⟨items, found, before, after⟩
      refine ⟨items, found, ?_, ?_⟩
      · intro value conforming
        exact before value (taken value (.inl conforming))
      · exact List.forall_mem_cons.mpr ⟨before element (taken element (.inr own)), after⟩

/-- Of the elements of any array in the value, those after the first have no union in their trees. -/
def LaterUnionFree (settings : Settings) (value : Json) : Prop :=
  ∀ first rest, Within (.array (first :: rest)) value → ∀ element ∈ rest, ∀ depth tree,
    infer settings depth element = .ok tree → tree.UnionFree

theorem laterUnionFree_array_iff (elements : List Json) :
    LaterUnionFree settings (.array elements) ↔
      (∀ element ∈ elements.tail, ∀ depth tree, infer settings depth element = .ok tree →
        tree.UnionFree) ∧ ∀ element ∈ elements, LaterUnionFree settings element := by
  constructor
  · intro later
    refine ⟨?_, fun element listed first rest inside =>
      later first rest (.element elements listed inside)⟩
    cases elements with
    | nil => simp
    | cons first rest => exact later first rest (.self _)
  · rintro ⟨own, each⟩ first rest inside
    rcases (within_array_iff _ _).mp inside with same | ⟨element, listed, inside⟩
    · obtain rfl := Json.array.inj same
      exact own
    · exact each element listed first rest inside

theorem laterUnionFree_object_iff (members : List (String × Json)) :
    LaterUnionFree settings (.object members) ↔
      ∀ entry ∈ members, LaterUnionFree settings entry.2 := by
  constructor
  · intro later entry listed first rest inside
    exact later first rest (.member entry.1 members listed inside)
  · intro each first rest inside
    rcases (within_object_iff _ _).mp inside with same | ⟨entry, listed, inside⟩
    · cases same
    · exact each entry listed first rest inside

theorem conforms_infer {value : Json} (ordered : value.Ordered)
    (later : LaterUnionFree settings value) (depth : Nat) (tree : Node)
    (inferred : infer settings depth value = .ok tree) : value.Conforms tree := by
  induction ordered generalizing depth tree with
  | null | bool _ | string _ =>
      cases bounded_eq_ok inferred
      exact .scalar _ _ _ (.inl rfl)
  | number number =>
      cases number <;> cases bounded_eq_ok inferred <;> exact .scalar _ _ _ (.inl rfl)
  | array elements ordered ih =>
      have parts : ∀ element ∈ elements, LaterUnionFree settings element := by
        intro element listed first rest inside
        exact later first rest (.element elements listed inside)
      rcases infer_array inferred with ⟨items, merged, rfl⟩
      cases elements with
      | nil =>
          cases merged
          exact .emptyArray _
      | cons first rest =>
          -- the first element is not merged into anything, so its tree may have unions
          obtain ⟨next, read, remaining⟩ := inferElements_cons merged
          rcases List.forall_mem_cons.mp ordered with ⟨head, tail⟩
          have each : ∀ element ∈ rest, ∀ tree, infer settings (depth + 1) element = .ok tree →
              tree.WellFormed False ∧ tree.UnionFree ∧ element.Conforms tree := by
            intro element listed tree own
            have listed' := List.mem_cons_of_mem first listed
            exact ⟨infer_wellFormed settings element _ tree (tail element listed) own,
              later first rest (.self _) element listed _ tree own,
              ih element listed' (parts element listed') _ tree own⟩
          rcases conforms_inferElements rest
            (infer_wellFormed settings first _ next head read) each remaining with
            ⟨own, rfl, before, after⟩
          refine (conforms_arrayOf_iff _ _ own).mpr ⟨_, rfl, ?_⟩
          refine List.forall_mem_cons.mpr ⟨before first ?_, after⟩
          exact ih first List.mem_cons_self (parts first List.mem_cons_self) _ next read
  | object members increasing _ ih =>
      rcases infer_object inferred with ⟨properties, read, rfl⟩
      refine (conforms_object_iff _ _ properties _).mpr ⟨members, rfl, ?_, ?_⟩
      · intro key part listed
        have present := Keyed.lookup_of_mem increasing listed
        rcases lookup_inferMembers key members _ properties read with ⟨absent, -⟩ |
          ⟨value, child, found, found', own⟩
        · rw [present] at absent
          cases absent
        · obtain rfl : part = value := Option.some.inj (present.symm.trans found)
          refine ⟨child, found', ih (key, part) listed ?_ _ child own⟩
          intro first rest inside
          exact later first rest (.member key members listed inside)
      · intro name demanded
        rw [← Keyed.lookup_isSome_iff] at demanded ⊢
        rcases lookup_inferMembers name members _ properties read with ⟨-, absent⟩ |
          ⟨value, child, found, -, -⟩
        · rw [absent] at demanded
          cases demanded
        · rw [found]
          rfl

/-- A sample conforms to its own tree, if elements of its arrays after the first have no unions. -/
theorem conforms_ofSample (settings : Settings) (sample : Json) (tree : Node)
    (ordered : sample.Ordered) (inferred : ofSample settings sample = .ok tree)
    (later : LaterUnionFree settings sample) : sample.Conforms tree :=
  conforms_infer ordered later 0 tree ((ofSample_eq_ok_iff settings sample tree).mp inferred).2

/-- A union in the first element is no loss, nor is null as a further alternative beside it. -/
theorem conforms_ofSample_null :
    let sample := Json.object [("xs", .array [.array [.bool true, .null], .null])]
    let inner := union {} [scalar {} .boolean, scalar {} .null]
    let tree := object {} [("xs", arrayOf {} (union {} [arrayOf {} inner, scalar {} .null]))] ["xs"]
    sample.Ordered ∧ ofSample {} sample = .ok tree ∧ LaterUnionFree {} sample ∧
      sample.Conforms tree := by
  intro sample inner tree
  have ordered : sample.Ordered := Json.ordered_of_sorted [sample] (by rfl) sample (by simp)
  have first : apart (scalar {} .boolean) (scalar {} .null) = inner := apart_of_rank_le (by decide)
  have second : apart (arrayOf {} inner) (scalar {} .null) =
      union {} [arrayOf {} inner, scalar {} .null] := apart_of_rank_le (by decide)
  have inferred : ofSample {} sample = .ok tree := by
    simp [sample, tree, ofSample, Json.isObject, infer, bounded, inferMembers, inferElements,
      addElement, ofItems, mergeElement, family, type, ScalarType.toValueType, ValueType.family,
      Keyed.keys, first, second, bind, Except.bind, pure, Except.pure, Functor.map, Except.map]
  have nulls : ∀ first rest, Within (.array (first :: rest)) sample → ∀ element ∈ rest,
      element = .null := by
    intro first rest inside element listed
    simp only [sample] at inside
    cases inside with
    | member key members inMembers inside =>
        obtain ⟨rfl, rfl⟩ : key = "xs" ∧ _ = array [.array [.bool true, .null], .null] := by
          simpa using inMembers
        cases inside with
        | self => simpa using listed
        | element elements inElements inside =>
            rcases List.mem_pair.mp inElements with rfl | rfl
            · cases inside with
              | self => simpa using listed
              | element _ inElements inside =>
                  rcases List.mem_pair.mp inElements with rfl | rfl <;> cases inside
            · cases inside
  have later : LaterUnionFree {} sample := by
    intro first rest inside element listed depth node own
    rw [nulls first rest inside element listed] at own
    cases bounded_eq_ok own
    exact .scalar _ _
  exact ⟨ordered, inferred, later, conforms_ofSample {} sample tree ordered inferred later⟩

/-- Merged into items that are booleans, a union of booleans and null loses null. -/
theorem not_conforms_union :
    let sample := Json.object [("xs", .array [.array [.bool true], .array [.bool true, .null]])]
    let tree := object {} [("xs", arrayOf {} (arrayOf {} (scalar {} .boolean)))] ["xs"]
    sample.Ordered ∧ ofSample {} sample = .ok tree ∧ ¬ sample.Conforms tree := by
  intro sample tree
  have ordered : sample.Ordered := Json.ordered_of_sorted [sample] (by rfl) sample (by simp)
  have union : apart (scalar {} .boolean) (scalar {} .null) =
      union {} [scalar {} .boolean, scalar {} .null] := apart_of_rank_le (by decide)
  have inferred : ofSample {} sample = .ok tree := by
    simp [sample, tree, ofSample, Json.isObject, infer, bounded, inferMembers, inferElements,
      addElement, ofItems, mergeElement, family, type, format?, label, ScalarType.toValueType,
      ValueType.family, Keyed.keys, union, bind, Except.bind, pure, Except.pure, Functor.map,
      Except.map]
  refine ⟨ordered, inferred, ?_⟩
  intro conforming
  rcases (conforms_object_iff _ _ _ _).mp conforming with ⟨members, same, covered, -⟩
  obtain rfl := Json.object.inj same
  rcases covered "xs" _ List.mem_cons_self with ⟨child, found, outer⟩
  obtain rfl : arrayOf {} (arrayOf {} (scalar {} .boolean)) = child := by
    simpa [Keyed.lookup] using found
  rcases (conforms_arrayOf_iff _ _ _).mp outer with ⟨elements, same, each⟩
  cases same
  rcases (conforms_arrayOf_iff _ _ _).mp (each (.array [.bool true, .null]) (by simp)) with
    ⟨elements, same, each'⟩
  cases same
  have null := each' .null (by simp)
  cases null with
  | scalar _ _ _ own => simp [ValueType.ofValue, ScalarType.toValueType] at own

end Node

end EventSchema
