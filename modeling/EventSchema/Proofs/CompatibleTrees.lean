import EventSchema.Proofs.Blending
import EventSchema.Proofs.DocumentReading
import EventSchema.Proofs.Merging
import Mathlib.Data.List.Pairwise
/-!
Where trees have no quarrel the order of merging does not matter: the merged tree is determined by
which trees there are, so neither their order nor repeating one of them shows.
-/
namespace EventSchema.Node

/-- At every place both have, both are objects, both are arrays or both are scalars of one family,
and their formats are equal if both have one. -/
def Compatible (left right : Node) : Prop :=
  ∀ path first second, left.get? path = some first → right.get? path = some second →
    first.family = second.family ∧
      ∀ format format', first.format? = some format → second.format? = some format' →
        format = format'

namespace Compatible

variable {left right : Node}

theorem refl (node : Node) : Compatible node node := by
  intro path first second found found'
  obtain rfl := Option.some.inj (found.symm.trans found')
  exact ⟨rfl, fun _ _ given given' => Option.some.inj (given.symm.trans given')⟩

theorem symm (compatible : Compatible left right) : Compatible right left := by
  intro path first second found found'
  obtain ⟨family, formats⟩ := compatible path second first found' found
  exact ⟨family.symm, fun format format' given given' => (formats format' format given' given).symm⟩

theorem step? {step : Step} {child child' : Node} (compatible : Compatible left right)
    (found : left.step? step = some child) (found' : right.step? step = some child') :
    Compatible child child' := by
  intro path first second below below'
  exact compatible (step :: path) first second (by rw [get?_cons, found]; exact below)
    (by rw [get?_cons, found']; exact below')

theorem of_step? (family : left.family = right.family)
    (formats : ∀ format format', left.format? = some format → right.format? = some format' →
      format = format')
    (below : ∀ step child child', left.step? step = some child → right.step? step = some child' →
      Compatible child child') : Compatible left right := by
  intro path first second found found'
  cases path with
  | nil =>
      cases found
      cases found'
      exact ⟨family, formats⟩
  | cons step path =>
      obtain ⟨child, own, rest⟩ := Option.bind_eq_some_iff.mp found
      obtain ⟨child', own', rest'⟩ := Option.bind_eq_some_iff.mp found'
      exact below step child child' own own' path first second rest rest'

theorem object {properties properties' : List (String × Node)} (required required' : List String)
    (inner : ∀ entry ∈ properties, ∀ entry' ∈ properties', entry.1 = entry'.1 →
      Compatible entry.2 entry'.2) :
    Compatible (object {} properties required) (object {} properties' required') := by
  refine of_step? rfl (fun format _ given _ => ?_) ?_
  · cases given
  intro step child child' found found'
  cases step with
  | property name =>
      exact inner _ (Keyed.mem_of_lookup found) _ (Keyed.mem_of_lookup found') rfl
  | items => cases found

end Compatible

theorem eq_nil_iff_of_mem_iff {α : Type} {left right : List α}
    (same : ∀ element, element ∈ left ↔ element ∈ right) : left = [] ↔ right = [] := by
  simp only [List.eq_nil_iff_forall_not_mem, same]

theorem commonType_of_forall {types : List ScalarType} {type : ScalarType} (nonempty : types ≠ [])
    (all : ∀ other ∈ types, other = type) : commonType types = type := by
  obtain ⟨first, rest, rfl⟩ := List.exists_cons_of_ne_nil nonempty
  obtain ⟨rfl, rest⟩ := List.forall_mem_cons.mp all
  exact if_pos rest

theorem commonType_of_ne {types : List ScalarType} {type other : ScalarType} (listed : type ∈ types)
    (listed' : other ∈ types) (different : type ≠ other) : commonType types = .number := by
  obtain ⟨first, rest, rfl⟩ := List.exists_cons_of_ne_nil (List.ne_nil_of_mem listed)
  apply if_neg
  intro all
  have same : ∀ type ∈ first :: rest, type = first := List.forall_mem_cons.mpr ⟨rfl, all⟩
  exact different ((same type listed).trans (same other listed').symm)

theorem commonType_eq_of_mem_iff {types types' : List ScalarType}
    (same : ∀ type, type ∈ types ↔ type ∈ types') : commonType types = commonType types' := by
  cases types with
  | nil => rw [(eq_nil_iff_of_mem_iff same).mp rfl]
  | cons first rest =>
      have listed : first ∈ types' := (same first).mp List.mem_cons_self
      by_cases all : ∀ type ∈ first :: rest, type = first
      · rw [commonType_of_forall (List.cons_ne_nil first rest) all]
        exact (commonType_of_forall (List.ne_nil_of_mem listed) fun type listed' =>
          all type ((same type).mpr listed')).symm
      · push Not at all
        obtain ⟨type, inside, different⟩ := all
        rw [commonType_of_ne inside List.mem_cons_self different]
        exact (commonType_of_ne ((same type).mp inside) listed different).symm

section Families

variable {members : List Node} (nonempty : members ≠ [])

include nonempty

theorem mergeAll_scalars {family : ValueType} (single : family.isStructural = false)
    (each : ∀ member ∈ members, member.Elementary ∧ member.family = family) :
    mergeAll? members =
      some (scalar { format := (members.filterMap format?).getLast? }
        (commonType (members.filterMap scalarType?))) := by
  rw [← folded_scalars nonempty single each]
  induction members using List.reverseRecOn with
  | nil => exact absurd rfl nonempty
  | append_singleton members member ih =>
      obtain ⟨before, last⟩ := List.forall_mem_append.mp each
      obtain ⟨elementary, within⟩ := last member (List.mem_singleton_self member)
      obtain ⟨format, type, rfl⟩ := elementary.scalar_of_family (within ▸ single)
      rw [mergeAll_append, folded_append]
      by_cases empty : members = []
      · subst empty
        rfl
      · rw [ih empty before]
        have merged := folded_scalars empty single before
        have family' := (folded_of_family before merged).2.2.trans within.symm
        rw [merged]
        generalize commonType (members.filterMap scalarType?) = type' at family' ⊢
        cases type' <;> cases type <;> first | rfl | cases family'

theorem mergeAll_objects (each : ∀ member ∈ members, member.Elementary ∧ member.InKeyOrder ∧
      member.family = .object) :
    ∃ properties required, mergeAll? members = some (object {} properties required) ∧
      Keyed.Increasing properties ∧ Ordered.Increasing required ∧
        ∀ name, name ∈ required ↔ ∃ member ∈ members, name ∈ member.required?.getD [] := by
  induction members using List.reverseRecOn with
  | nil => exact absurd rfl nonempty
  | append_singleton members member ih =>
      obtain ⟨before, last⟩ := List.forall_mem_append.mp each
      obtain ⟨elementary, ordered, within⟩ := last member (List.mem_singleton_self member)
      obtain ⟨properties', required', rfl⟩ := elementary.object_of_family within
      obtain ⟨sorted, sorted'⟩ := ordered _ _ _ rfl
      by_cases empty : members = []
      · subst empty
        exact ⟨properties', required', rfl, sorted, sorted', fun name => by simp [required?]⟩
      · obtain ⟨properties, required, merged, increasing, increasing', names⟩ := ih empty before
        refine ⟨mergeProperties properties properties', Ordered.union required required', ?_,
          increasing_mergeProperties properties' properties increasing,
          Ordered.increasing_union required required' increasing', fun name => ?_⟩
        · rw [mergeAll_append, merged]
          rfl
        · simp [Ordered.mem_union, names, required?, or_and_right, exists_or]

omit nonempty in
theorem lookup_of_mergeAll_objects {properties : List (String × Node)} {required : List String}
    (each : ∀ member ∈ members, member.Elementary ∧ member.InKeyOrder ∧ member.family = .object)
    (merged : mergeAll? members = some (object {} properties required)) (name : String) :
    Keyed.lookup name properties = mergeAll? (children (.property name) members) := by
  have admitted : ∀ member ∈ members, member.Admits (.property name) := by
    intro member inside
    obtain ⟨elementary, -, within⟩ := each member inside
    obtain ⟨properties, required, rfl⟩ := elementary.object_of_family within
    trivial
  have found := (step?_mergeAll (fun member inside => (each member inside).1.wellFormed) admitted).1
  rwa [merged] at found

theorem mergeAll_arrays (each : ∀ member ∈ members, member.Elementary ∧ member.family = .array) :
    mergeAll? members = some (ofItems (mergeAll? (children .items members))) := by
  induction members using List.reverseRecOn with
  | nil => exact absurd rfl nonempty
  | append_singleton members member ih =>
      obtain ⟨before, last⟩ := List.forall_mem_append.mp each
      obtain ⟨elementary, within⟩ := last member (List.mem_singleton_self member)
      have own := elementary.array_of_family within
      rw [mergeAll_append, children_append]
      by_cases empty : members = []
      · subst empty
        rcases own with rfl | ⟨items, rfl⟩ <;> rfl
      · rw [ih empty before]
        rcases own with rfl | ⟨items, rfl⟩
        · rw [show (emptyArray {}).step? .items = none from rfl, Option.toList_none, List.append_nil]
          cases mergeAll? (children .items members) <;> rfl
        · rw [show (arrayOf {} items).step? .items = some items from rfl, Option.toList_some,
            mergeAll_append]
          cases mergeAll? (children .items members) <;> rfl

end Families

theorem getLast?_eq_some_iff_mem {α : Type} {elements : List α}
    (equal : ∀ first ∈ elements, ∀ second ∈ elements, first = second) (element : α) :
    elements.getLast? = some element ↔ element ∈ elements := by
  refine ⟨List.mem_of_getLast?, fun listed => ?_⟩
  have nonempty := List.ne_nil_of_mem listed
  rw [List.getLast?_eq_some_getLast nonempty]
  exact congrArg some (equal _ (List.getLast_mem nonempty) element listed)

section SameMembers

variable {members members' : List Node} (nonempty : members ≠ []) (nonempty' : members' ≠ [])
  (same : ∀ node, node ∈ members ↔ node ∈ members')

include nonempty nonempty' same

theorem mergeAll_scalars_eq {family : ValueType} (single : family.isStructural = false)
    (each : ∀ member ∈ members, member.Elementary ∧ member.family = family)
    (formats : ∀ member ∈ members, ∀ other ∈ members, ∀ format format',
      member.format? = some format → other.format? = some format' → format = format') :
    mergeAll? members = mergeAll? members' := by
  have types : commonType (members.filterMap scalarType?) =
      commonType (members'.filterMap scalarType?) :=
    commonType_eq_of_mem_iff fun type => by simp only [List.mem_filterMap, same]
  have given : ∀ format, format ∈ members.filterMap format? ↔ format ∈ members'.filterMap format? :=
    fun format => by simp only [List.mem_filterMap, same]
  have equal : ∀ format ∈ members.filterMap format?, ∀ format' ∈ members.filterMap format?,
      format = format' := by
    intro format one format' other
    obtain ⟨member, inside, own⟩ := List.mem_filterMap.mp one
    obtain ⟨member', inside', own'⟩ := List.mem_filterMap.mp other
    exact formats member inside member' inside' format format' own own'
  have equal' : ∀ format ∈ members'.filterMap format?, ∀ format' ∈ members'.filterMap format?,
      format = format' := by
    intro format one format' other
    exact equal format ((given format).mpr one) format' ((given format').mpr other)
  have last : (members.filterMap format?).getLast? = (members'.filterMap format?).getLast? :=
    Option.ext fun format => by
      rw [getLast?_eq_some_iff_mem equal, getLast?_eq_some_iff_mem equal', given]
  rw [mergeAll_scalars nonempty single each, mergeAll_scalars nonempty' single fun member inside =>
    each member ((same member).mpr inside), types, last]

theorem mergeAll_objects_eq (each : ∀ member ∈ members, member.Elementary ∧ member.InKeyOrder ∧
      member.family = .object)
    (inner : ∀ step, mergeAll? (children step members) = mergeAll? (children step members')) :
    mergeAll? members = mergeAll? members' := by
  have each' := fun member inside => each member ((same member).mpr inside)
  obtain ⟨properties, required, merged, increasing, sorted, names⟩ :=
    mergeAll_objects nonempty each
  obtain ⟨properties', required', merged', increasing', sorted', names'⟩ :=
    mergeAll_objects nonempty' each'
  have lookups := lookup_of_mergeAll_objects each merged
  have lookups' := lookup_of_mergeAll_objects each' merged'
  have sameRequired : required = required' := Ordered.eq_of_mem_iff sorted sorted' fun name => by
    simp only [names, names', same]
  have sameProperties : properties = properties' := Keyed.eq_of_lookup increasing increasing'
    fun name => by rw [lookups, lookups', inner]
  rw [merged, merged', sameRequired, sameProperties]

theorem mergeAll_arrays_eq
    (each : ∀ member ∈ members, member.Elementary ∧ member.family = .array)
    (inner : ∀ step, mergeAll? (children step members) = mergeAll? (children step members')) :
    mergeAll? members = mergeAll? members' := by
  rw [mergeAll_arrays nonempty each, mergeAll_arrays nonempty' fun member inside =>
    each member ((same member).mpr inside), inner]

end SameMembers

/-- Merging compatible trees depends on nothing but which trees they are. -/
theorem mergeAll_eq_of_mem_iff (trees trees' : List Node)
    (simple : ∀ tree ∈ trees, tree.Elementary ∧ tree.Everywhere InKeyOrder)
    (compatible : ∀ left ∈ trees, ∀ right ∈ trees, Compatible left right)
    (same : ∀ tree, tree ∈ trees ↔ tree ∈ trees') : mergeAll? trees = mergeAll? trees' := by
  -- by induction on the size of the trees: all they have one step below is smaller
  have listed : ∀ step child, child ∈ children step trees ↔ child ∈ children step trees' := by
    intro step child
    simp only [children, List.mem_filterMap, same]
  have inner : ∀ step, mergeAll? (children step trees) = mergeAll? (children step trees') := by
    intro step
    by_cases empty : children step trees = []
    · rw [empty, (eq_nil_iff_of_mem_iff (listed step)).mp empty]
    · apply mergeAll_eq_of_mem_iff _ _ _ _ (listed step)
      · intro child inside
        obtain ⟨tree, member, found⟩ := mem_children inside
        exact ⟨(simple tree member).1.step? found, (simple tree member).2.step? found⟩
      · intro child inside child' inside'
        obtain ⟨tree, member, found⟩ := mem_children inside
        obtain ⟨tree', member', found'⟩ := mem_children inside'
        exact (compatible tree member tree' member').step? found found'
  by_cases empty : trees = []
  · rw [empty, (eq_nil_iff_of_mem_iff same).mp empty]
  · obtain ⟨first, member⟩ := List.exists_mem_of_ne_nil trees empty
    have nonempty' : trees' ≠ [] := (eq_nil_iff_of_mem_iff same).not.mp empty
    have within : ∀ tree ∈ trees, tree.family = first.family := fun tree inside =>
      (compatible tree inside first member [] tree first rfl rfl).1
    cases family : first.family with
    | object =>
        exact mergeAll_objects_eq empty nonempty' same (fun tree inside =>
          ⟨(simple tree inside).1, (simple tree inside).2.own, (within tree inside).trans family⟩)
          inner
    | array =>
        exact mergeAll_arrays_eq empty nonempty' same (fun tree inside =>
          ⟨(simple tree inside).1, (within tree inside).trans family⟩) inner
    | _ =>
        have single : first.family.isStructural = false := by rw [family]; rfl
        refine mergeAll_scalars_eq empty nonempty' same single (fun tree inside =>
          ⟨(simple tree inside).1, within tree inside⟩) ?_
        intro tree inside tree' inside'
        exact (compatible tree inside tree' inside' [] tree tree' rfl rfl).2
termination_by sizeOf trees
decreasing_by
  exact sizeOf_children_lt empty

/-- Compatible trees merge into the same tree in every order, and none of them changes that tree
when merged into it again. -/
theorem mergeAll_of_compatible (trees : List Node)
    (simple : ∀ tree ∈ trees, tree.Elementary ∧ tree.Everywhere InKeyOrder)
    (compatible : trees.Pairwise Compatible) :
    (∀ permuted, trees.Perm permuted → mergeAll? permuted = mergeAll? trees) ∧
      ∀ tree ∈ trees, ∃ merged, mergeAll? trees = some merged ∧ mergeInto merged tree = merged := by
  have symmetric : Std.Symm Compatible := ⟨fun _ _ => Compatible.symm⟩
  have each : ∀ left ∈ trees, ∀ right ∈ trees, Compatible left right :=
    fun left member right member' =>
      compatible.forall_of_forall (fun tree _ => Compatible.refl tree) member member'
  refine ⟨?_, ?_⟩
  · intro permuted perm
    exact (mergeAll_eq_of_mem_iff trees permuted simple each fun _ => perm.mem_iff).symm
  · intro tree member
    have repeated : mergeAll? trees = mergeAll? (trees ++ [tree]) := by
      apply mergeAll_eq_of_mem_iff trees _ simple each
      intro other
      rw [List.mem_append, List.mem_singleton, or_iff_left_of_imp]
      rintro rfl
      exact member
    rw [mergeAll_append] at repeated
    cases merged : mergeAll? trees with
    | none =>
        rw [merged] at repeated
        cases repeated
    | some node =>
        rw [merged] at repeated
        exact ⟨node, rfl, (Option.some.inj repeated).symm⟩

/-- An integer that widens, a format that only one tree has, and an array without items. -/
theorem mergeAll_of_compatible_events :
    let first := object {}
      [("n", scalar {} .integer), ("t", scalar { format := some .date } .string)] ["n", "t"]
    let second := object {} [("n", scalar {} .number), ("xs", emptyArray {})] ["n"]
    let third := object {}
      [("t", scalar {} .string), ("xs", arrayOf {} (scalar {} .null))] ["xs"]
    let merged := object {}
      [("n", scalar {} .number), ("t", scalar { format := some .date } .string),
        ("xs", arrayOf {} (scalar {} .null))] ["n", "t", "xs"]
    (∀ tree ∈ [first, second, third], tree.Elementary ∧ tree.Everywhere InKeyOrder) ∧
      [first, second, third].Pairwise Compatible ∧
        mergeAll? [first, second, third] = some merged ∧
          mergeAll? [third, second, first] = some merged ∧ mergeInto merged first = merged := by
  intro first second third merged
  have pairs : ["n", "t"].Pairwise (· < ·) ∧ ["n", "xs"].Pairwise (· < ·) ∧
    ["t", "xs"].Pairwise (· < ·) := by decide
  obtain ⟨pair, pair', pair''⟩ := pairs
  have single : ∀ name : String, [name].Pairwise (· < ·) := List.pairwise_singleton _
  have elementary : first.Elementary ∧ second.Elementary ∧ third.Elementary := by
    refine ⟨.object _ _ pair ?_, .object _ _ pair' ?_, .object _ _ pair'' ?_⟩
    · simpa using ⟨.scalar _ _, .scalar _ _⟩
    · simpa using ⟨.scalar _ _, .emptyArray⟩
    · simpa using ⟨.scalar _ _, .arrayOf _ (.scalar _ _)⟩
  have ordered : first.Everywhere InKeyOrder ∧ second.Everywhere InKeyOrder ∧
      third.Everywhere InKeyOrder := by
    have leaf : ∀ label type, (scalar label type).Everywhere InKeyOrder :=
      fun label type => .scalar label type (inKeyOrder_of_not_object rfl)
    refine ⟨.object _ _ _ (inKeyOrder_object _ pair pair) ?_,
      .object _ _ _ (inKeyOrder_object _ pair' (single _)) ?_,
      .object _ _ _ (inKeyOrder_object _ pair'' (single _)) ?_⟩
    · simpa using ⟨leaf _ _, leaf _ _⟩
    · simpa using ⟨leaf _ _, .emptyArray _ (inKeyOrder_of_not_object rfl)⟩
    · simpa using ⟨leaf _ _, .arrayOf _ _ (inKeyOrder_of_not_object rfl) (leaf _ _)⟩
  have simple : ∀ tree ∈ [first, second, third], tree.Elementary ∧ tree.Everywhere InKeyOrder := by
    simpa using
      ⟨⟨elementary.1, ordered.1⟩, ⟨elementary.2.1, ordered.2.1⟩, elementary.2.2, ordered.2.2⟩
  have compatible : [first, second, third].Pairwise Compatible := by
    have leaf : ∀ label type type', type.toValueType.family = type'.toValueType.family →
        Compatible (scalar label type) (scalar {} type') := by
      intro label type type' family
      refine .of_step? family (fun _ _ _ given => by cases given) ?_
      intro step child child' found
      cases step <;> cases found
    have arrays : Compatible (emptyArray {}) (arrayOf {} (scalar {} .null)) := by
      refine .of_step? rfl (fun _ _ given _ => by cases given) ?_
      intro step child child' found
      cases step <;> cases found
    simp only [List.pairwise_cons, List.forall_mem_cons]
    refine ⟨⟨.object _ _ ?_, .object _ _ ?_, by simp⟩, ⟨.object _ _ ?_, by simp⟩, by simp⟩
    · simpa using leaf {} .integer .number rfl
    · simpa using leaf { format := some .date } .string .string rfl
    · simpa using arrays
  obtain ⟨orders, again⟩ := mergeAll_of_compatible [first, second, third] simple compatible
  have joined : mergeAll? [first, second, third] = some merged := by rfl
  obtain ⟨node, joined', kept⟩ := again first List.mem_cons_self
  obtain rfl := Option.some.inj (joined.symm.trans joined')
  have reversed : [first, second, third].Perm [third, second, first] := (List.reverse_perm _).symm
  exact ⟨simple, compatible, joined, (orders _ reversed).trans joined, kept⟩

end EventSchema.Node
