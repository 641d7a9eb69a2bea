import EventSchema.Proofs.SoundStages
/-!
The alternatives of unions. Merging elements makes unions of two alternatives and sorts them; what is
merged into an alternative later leaves it in its place. An alternative is a union itself only where
an element that has a union is merged into items of another type.
-/
namespace EventSchema

theorem ValueType.lt_iff_family_lt {left right : ValueType} (different : left.family ≠ right.family) :
    left < right ↔ left.family < right.family := by
  revert different
  cases left <;> cases right <;> decide

namespace Node

theorem lt_iff_of_family {first second other : Node} (different : first.family ≠ second.family)
    (same : other.family = first.family) : other.type < second.type ↔ first.type < second.type := by
  have different' : other.family ≠ second.family := same ▸ different
  rw [ValueType.lt_iff_family_lt different, ValueType.lt_iff_family_lt different']
  exact iff_of_eq (congrArg (· < second.family) same)

theorem lt_iff_of_family' {first second other : Node} (different : first.family ≠ second.family)
    (same : other.family = second.family) : first.type < other.type ↔ first.type < second.type := by
  have different' : first.family ≠ other.family := same ▸ different
  rw [ValueType.lt_iff_family_lt different, ValueType.lt_iff_family_lt different']
  exact iff_of_eq (congrArg (first.family < ·) same)

theorem sortBranches_of_lt {first second : Node} (later : second.type < first.type) :
    sortBranches [first, second] = [second, first] := by
  rcases sortBranches_pair first second with same | swapped
  · have sorted : (sortBranches [first, second]).Pairwise fun left right =>
        decide (left.type.rank ≤ right.type.rank) = true := by
      apply List.pairwise_mergeSort
      · intro left middle right less less'
        simp only [decide_eq_true_eq] at less less' ⊢
        omega
      · intro left right
        simp only [Bool.or_eq_true, decide_eq_true_eq]
        omega
    rw [same] at sorted
    have least : first.type.rank ≤ second.type.rank := by simpa using sorted
    exact absurd least (Nat.not_le.mpr later)
  · exact swapped

theorem apart_cases {first second : Node} (different : first.family ≠ second.family) :
    (first.type < second.type ∧ apart first second = union {} [first, second]) ∨
      second.type < first.type ∧ apart first second = union {} [second, first] := by
  have unequal : first.type.rank ≠ second.type.rank := fun same =>
    different (congrArg ValueType.family (ValueType.rank_injective _ _ same))
  rcases Nat.lt_or_gt_of_ne unequal with less | greater
  · exact .inl ⟨less, apart_of_rank_le (Nat.le_of_lt less)⟩
  · exact .inr ⟨greater, congrArg (union {}) (sortBranches_of_lt greater)⟩

theorem plain_mergeElement {target element : Node} (plain : target.plainType? ≠ none)
    (same : target.family = element.family) : (mergeElement target element).plainType? ≠ none := by
  cases target with
  | union _ _ => exact absurd rfl plain
  | scalar label type =>
      have same' : type.toValueType.family = element.family := same
      simp only [mergeElement, same', ne_eq, not_true_eq_false, if_false]
      cases element <;> simp [plainType?]
  | object label properties required =>
      have same' : element.family = .object := same.symm
      simp only [mergeElement, same', ne_eq, not_true_eq_false, if_false]
      cases element <;> simp [plainType?]
  | emptyArray label | arrayOf label items | mixedArray label =>
      have same' : element.family = .array := same.symm
      simp only [mergeElement, same', ne_eq, not_true_eq_false, if_false]
      cases element <;> simp [plainType?]

theorem mem_mergeElementProperties {properties element : List (String × Node)} {entry : String × Node}
    (member : entry ∈ mergeElementProperties properties element) :
    entry ∈ properties ∨ ∃ child child', (entry.1, child) ∈ properties ∧ (entry.1, child') ∈ element ∧
      entry.2 = mergeElement child child' := by
  induction properties with
  | nil => simp [mergeElementProperties] at member
  | cons first rest ih =>
      rw [mergeElementProperties] at member
      rcases List.mem_cons.mp member with rfl | later
      · cases found : Keyed.lookup first.1 element with
        | none => exact .inl List.mem_cons_self
        | some child' =>
            exact .inr ⟨first.2, child', List.mem_cons_self, Keyed.mem_of_lookup found, rfl⟩
      · rcases ih later with old | ⟨child, child', listed, listed', same⟩
        · exact .inl (List.mem_cons_of_mem first old)
        · exact .inr ⟨child, child', List.mem_cons_of_mem first listed, listed', same⟩

section Lasting

/-- What holds of plain nodes anyway holds of all nodes after merging a fitting element too, if it holds
of a union of a plain node and a fitting one, and goes on to hold of a union when a fitting element is
merged into an alternative of its family. -/
structure Lasting (holds fits : Node → Prop) : Prop where
  plain : ∀ node : Node, node.plainType? ≠ none → holds node
  fitting : ∀ node, fits node → node.Everywhere holds
  inner : ∀ (node child : Node) (step : Step), fits node → node.step? step = some child → fits child
  parted : ∀ target element : Node, target.plainType? ≠ none → target.family ≠ element.family →
    fits element → holds (apart target element)
  joined : ∀ label front branch back element, holds (union label (front ++ branch :: back)) →
    fits element → (mergeElement branch element).family = branch.family →
      ((mergeElement branch element).plainType? = none → branch.plainType? = none) →
        holds (union label (front ++ mergeElement branch element :: back))

namespace Lasting

variable {mixed : Prop} {holds fits : Node → Prop}

theorem everywhere_apart (lasting : Lasting holds fits) {target element : Node}
    (plain : target.plainType? ≠ none) (different : target.family ≠ element.family)
    (everywhere : target.Everywhere holds) (fitting : fits element) :
    (apart target element).Everywhere holds := by
  refine .union _ _ (lasting.parted target element plain different fitting) ?_
  intro branch member
  rcases mem_addBranch member with one | rfl
  · exact List.mem_singleton.mp one ▸ everywhere
  · exact lasting.fitting branch fitting

theorem everywhere_of_plain (lasting : Lasting holds fits) {target element : Node}
    (plain : target.plainType? ≠ none) (everywhere : target.Everywhere holds) (fitting : fits element)
    (same : target.family = element.family → (mergeElement target element).Everywhere holds) :
    (mergeElement target element).Everywhere holds := by
  by_cases family : target.family = element.family
  · exact same family
  · rw [mergeElement_of_different plain family]
    exact lasting.everywhere_apart plain family everywhere fitting

theorem everywhere_joined (lasting : Lasting holds fits) {label : Label} (front back : List Node)
    {branch element : Node} (everywhere : (union label (front ++ branch :: back)).Everywhere holds)
    (wellFormed : branch.WellFormed mixed) (latter : element.WellFormed mixed)
    (same : branch.family = element.family) (fitting : fits element)
    (inner : (mergeElement branch element).Everywhere holds) :
    (union label (front ++ mergeElement branch element :: back)).Everywhere holds := by
  have family := (mergeElement_wellFormed branch element wellFormed latter).2 same
  refine .union _ _ (lasting.joined label front branch back element everywhere.own fitting family ?_) ?_
  · intro parted
    by_contra plain
    exact plain_mergeElement plain same parted
  · intro other member
    rcases List.mem_append.mp member with before | member
    · exact everywhere.branch (List.mem_append_left _ before)
    · rcases List.mem_cons.mp member with rfl | after
      · exact inner
      · exact everywhere.branch (List.mem_append_right front (List.mem_cons_of_mem branch after))

theorem everywhere_mergeElement (lasting : Lasting holds fits) {target element : Node}
    (wellFormed : target.WellFormed mixed) (latter : element.WellFormed mixed)
    (everywhere : target.Everywhere holds) (fitting : fits element) :
    (mergeElement target element).Everywhere holds := by
  have leaf : ∀ node : Node, node.plainType? ≠ none → holds node := lasting.plain
  induction wellFormed generalizing element with
  | scalar label type =>
      refine lasting.everywhere_of_plain (by simp [plainType?]) everywhere fitting fun same => ?_
      have same' : type.toValueType.family = element.family := same
      simp only [mergeElement, same', ne_eq, not_true_eq_false, if_false]
      cases element <;> exact .scalar _ _ (leaf _ (by simp [plainType?]))
  | object label properties required _ _ ih =>
      refine lasting.everywhere_of_plain (by simp [plainType?]) everywhere fitting fun same => ?_
      have same' : element.family = .object := same.symm
      simp only [mergeElement, same', ne_eq, not_true_eq_false, if_false]
      cases everywhere with
      | object _ _ _ _ children =>
          cases latter with
          | object label' properties' required' increasing children' =>
              have fits' : ∀ entry ∈ properties', fits entry.2 := fun entry member =>
                lasting.inner _ _ (.property entry.1) fitting (Keyed.lookup_of_mem increasing member)
              refine .object _ _ _ (leaf _ (by simp [plainType?])) ?_
              intro entry member
              rcases mem_addProperties member with old | new
              · rcases mem_mergeElementProperties old with former |
                  ⟨child, child', listed, listed', merged⟩
                · exact children entry former
                · rw [merged]
                  exact ih _ listed (children' _ listed') (children _ listed) (fits' _ listed')
              · exact lasting.fitting entry.2 (fits' entry new)
          | _ => exact .object _ _ _ (leaf _ (by simp [plainType?])) children
  | emptyArray label =>
      refine lasting.everywhere_of_plain (by simp [plainType?]) everywhere fitting fun same => ?_
      have same' : element.family = .array := same.symm
      simp only [mergeElement, same', ne_eq, not_true_eq_false, if_false]
      cases element with
      | arrayOf _ items =>
          have inner := lasting.fitting items (lasting.inner _ _ .items fitting rfl)
          exact .arrayOf _ items (leaf _ (by simp [plainType?])) inner
      | mixedArray _ => exact .mixedArray _ (leaf _ (by simp [plainType?]))
      | _ => exact .emptyArray _ (leaf _ (by simp [plainType?]))
  | arrayOf label items _ ih =>
      refine lasting.everywhere_of_plain (by simp [plainType?]) everywhere fitting fun same => ?_
      have same' : element.family = .array := same.symm
      simp only [mergeElement, same', ne_eq, not_true_eq_false, if_false]
      cases everywhere with
      | arrayOf _ _ _ inner =>
          cases latter with
          | arrayOf _ items' wellFormed' =>
              have fits' := lasting.inner _ items' .items fitting rfl
              exact .arrayOf _ _ (leaf _ (by simp [plainType?])) (ih wellFormed' inner fits')
          | mixedArray _ _ => exact .mixedArray _ (leaf _ (by simp [plainType?]))
          | _ => exact .arrayOf _ items (leaf _ (by simp [plainType?])) inner
  | mixedArray label _ =>
      refine lasting.everywhere_of_plain (by simp [plainType?]) everywhere fitting fun same => ?_
      have same' : element.family = .array := same.symm
      simp only [mergeElement, same', ne_eq, not_true_eq_false, if_false]
      exact .mixedArray _ (leaf _ (by simp [plainType?]))
  | union label first second _ former behind one other =>
      by_cases same : first.family = element.family
      · simp only [mergeElement, mergeElementBranches, same, if_true, Option.getD_some]
        have inner := one latter (everywhere.branch List.mem_cons_self) fitting
        exact lasting.everywhere_joined [] [second] everywhere former latter same fitting inner
      · by_cases same' : second.family = element.family
        · simp only [mergeElement, mergeElementBranches, same, same', if_true, if_false,
            Option.map_some, Option.getD_some]
          have inner := other latter (everywhere.branch (by simp)) fitting
          exact lasting.everywhere_joined [first] [] everywhere behind latter same' fitting inner
        · simp only [mergeElement, mergeElementBranches, same, same', if_false, Option.map_none,
            Option.getD_none, addBranch_pair]
          exact everywhere

variable {settings : Settings}

theorem everywhere_inferElements (lasting : Lasting holds fits) (elements : List Json) {depth : Nat}
    {target items : Node} (wellFormed : target.WellFormed False)
    (everywhere : target.Everywhere holds)
    (each : ∀ element ∈ elements, ∀ tree, infer settings depth element = .ok tree →
      tree.WellFormed False ∧ fits tree)
    (inferred : inferElements settings depth (some target) elements = .ok (some items)) :
    items.Everywhere holds := by
  induction elements generalizing target with
  | nil =>
      cases inferred
      exact everywhere
  | cons element rest ih =>
      obtain ⟨first, others⟩ := List.forall_mem_cons.mp each
      obtain ⟨next, read, remaining⟩ := inferElements_cons inferred
      obtain ⟨latter, fitting⟩ := first next read
      have merged := lasting.everywhere_mergeElement wellFormed latter everywhere fitting
      exact ih (mergeElement_wellFormed target next wellFormed latter).1 merged others remaining

theorem everywhere_infer (lasting : Lasting holds fits) {value : Json} (ordered : value.Ordered)
    (later : ∀ first rest, Json.Within (.array (first :: rest)) value → ∀ element ∈ rest,
      ∀ depth tree, infer settings depth element = .ok tree → tree.Everywhere holds → fits tree)
    {depth : Nat} {tree : Node} (inferred : infer settings depth value = .ok tree) :
    tree.Everywhere holds := by
  induction ordered generalizing depth tree with
  | null | bool _ | string _ =>
      cases bounded_eq_ok inferred
      exact .scalar _ _ (lasting.plain _ (by simp [plainType?]))
  | number number =>
      cases number <;> cases bounded_eq_ok inferred <;>
        exact .scalar _ _ (lasting.plain _ (by simp [plainType?]))
  | array elements ordered ih =>
      obtain ⟨merged, read, rfl⟩ := infer_array inferred
      cases merged with
      | none => exact .emptyArray _ (lasting.plain _ (by simp [plainType?]))
      | some items =>
          refine .arrayOf _ _ (lasting.plain _ (by simp [plainType?])) ?_
          cases elements with
          | nil => cases read
          | cons first rest =>
              obtain ⟨head, tail⟩ := List.forall_mem_cons.mp ordered
              obtain ⟨next, own, remaining⟩ := inferElements_cons read
              have parts : ∀ element ∈ first :: rest, ∀ {depth tree},
                  infer settings depth element = .ok tree → tree.Everywhere holds :=
                fun element listed _ _ => ih element listed fun first' rest' within =>
                  later first' rest' (.element _ listed within)
              apply lasting.everywhere_inferElements rest
                (infer_wellFormed settings first _ next head own)
                (parts first List.mem_cons_self own) _ remaining
              intro element listed tree own'
              have everywhere := parts element (List.mem_cons_of_mem first listed) own'
              exact ⟨infer_wellFormed settings element _ tree (tail element listed) own',
                later first rest (.self _) element listed _ tree own' everywhere⟩
  | object members increasing each ih =>
      have wellFormed :=
        infer_wellFormed settings _ depth tree (.object members increasing each) inferred
      obtain ⟨properties, read, rfl⟩ := infer_object inferred
      refine .object _ _ _ (lasting.plain _ (by simp [plainType?])) ?_
      intro entry member
      cases wellFormed with
      | object _ _ _ increasing' _ =>
          have found := Keyed.lookup_of_mem increasing' member
          rcases lookup_inferMembers entry.1 members _ properties read with ⟨-, absent⟩ |
            ⟨value, child, present, found', own⟩
          · rw [found] at absent
            cases absent
          · obtain rfl : entry.2 = child := Option.some.inj (found.symm.trans found')
            have listed := Keyed.mem_of_lookup present
            apply ih _ listed _ own
            intro first rest within
            exact later first rest (.member entry.1 members listed within)

end Lasting

end Lasting

def Flat (node : Node) : Prop :=
  node.Everywhere fun part => ∀ label branches, part = union label branches →
    ∀ branch ∈ branches, branch.plainType? ≠ none

theorem UnionFree.flat {node : Node} (free : node.UnionFree) : node.Flat := by
  apply free.everywhere.imp
  intro part plain label branches same
  subst same
  exact absurd rfl plain

theorem flat_lasting : Lasting (fun part => ∀ label branches, part = union label branches →
    ∀ branch ∈ branches, branch.plainType? ≠ none) UnionFree where
  plain := by
    intro node plain label branches same
    subst same
    exact absurd rfl plain
  fitting _ free := free.flat
  inner := by
    intro node child step free next
    cases step with
    | property name =>
        obtain ⟨label, properties, required, rfl, found⟩ :=
          (step?_property_eq_some_iff name node child).mp next
        cases free with
        | object _ _ _ children => exact children _ (Keyed.mem_of_lookup found)
    | items =>
        obtain ⟨label, rfl⟩ := (step?_items_eq_some_iff node child).mp next
        cases free with
        | arrayOf _ _ inner => exact inner
  parted := by
    intro target element plain _ free label branches same branch listed
    obtain ⟨-, rfl⟩ := Node.union.inj same
    rcases mem_addBranch listed with one | rfl
    · exact List.mem_singleton.mp one ▸ plain
    · exact free.plain
  joined := by
    intro label front branch back element own _ _ kept label' branches same other listed
    obtain ⟨-, rfl⟩ := Node.union.inj same
    rcases List.mem_append.mp listed with before | listed
    · exact own label _ rfl other (List.mem_append_left _ before)
    · rcases List.mem_cons.mp listed with rfl | after
      · exact fun parted => own label _ rfl branch (by simp) (kept parted)
      · exact own label _ rfl other (List.mem_append_right front (List.mem_cons_of_mem branch after))

theorem infer_flat {settings : Settings} {value : Json} (ordered : value.Ordered)
    (later : LaterUnionFree settings value) {depth : Nat} {tree : Node}
    (inferred : infer settings depth value = .ok tree) : tree.Flat :=
  flat_lasting.everywhere_infer ordered
    (fun first rest within element listed depth tree own _ =>
      later first rest within element listed depth tree own) inferred

/-- A union has two alternatives, of different families and in the order of their types, and at most one
of them is a union itself. -/
def Paired (node : Node) : Prop :=
  ∀ label branches, node = union label branches → ∃ first second, branches = [first, second] ∧
    first.family ≠ second.family ∧ first.type < second.type ∧
      (first.plainType? ≠ none ∨ second.plainType? ≠ none)

theorem paired_apart {target element : Node} (plain : target.plainType? ≠ none)
    (different : target.family ≠ element.family) : (apart target element).Paired := by
  intro label branches same
  rcases apart_cases different with ⟨less, sorted⟩ | ⟨greater, sorted⟩
  · obtain ⟨-, rfl⟩ := Node.union.inj (sorted.symm.trans same)
    exact ⟨target, element, rfl, different, less, .inl plain⟩
  · obtain ⟨-, rfl⟩ := Node.union.inj (sorted.symm.trans same)
    exact ⟨element, target, rfl, different.symm, greater, .inr plain⟩

/-- What is merged into an alternative may widen its type, but not so far that the order changes. -/
theorem paired_joined {label : Label} {front back : List Node} {branch merged : Node}
    (paired : (union label (front ++ branch :: back)).Paired) (family : merged.family = branch.family)
    (kept : merged.plainType? = none → branch.plainType? = none) :
    (union label (front ++ merged :: back)).Paired := by
  obtain ⟨first, second, listed, different, less, plain⟩ := paired label _ rfl
  intro label' branches same
  obtain ⟨-, rfl⟩ := Node.union.inj same
  cases front with
  | nil =>
      obtain ⟨rfl, rfl⟩ := List.cons.inj listed
      refine ⟨merged, second, rfl, family ▸ different, ?_, plain.imp_left (mt kept)⟩
      exact (lt_iff_of_family different family).mpr less
  | cons former front =>
      obtain ⟨rfl, listed⟩ := List.cons.inj listed
      obtain ⟨rfl, rfl, rfl⟩ : front = [] ∧ branch = second ∧ back = [] := by
        simpa [List.append_eq_singleton_iff] using listed
      refine ⟨former, merged, rfl, family ▸ different, ?_, plain.imp_right (mt kept)⟩
      exact (lt_iff_of_family' different family).mpr less

theorem paired_lasting : Lasting Paired (Everywhere Paired) where
  plain := by
    intro node plain label branches same
    subst same
    exact absurd rfl plain
  fitting _ everywhere := everywhere
  inner _ _ _ everywhere next := everywhere.step? next
  parted _ _ plain different _ := paired_apart plain different
  joined _ _ _ _ _ paired _ family kept := paired_joined paired family kept

/-- The unions of a sample's tree are pairs of alternatives, and no alternative is a union itself if
elements of arrays after the first have no unions. -/
theorem alternatives_ofSample (settings : Settings) (sample : Json) (tree : Node)
    (ordered : sample.Ordered) (inferred : ofSample settings sample = .ok tree) :
    tree.Everywhere Paired ∧ (LaterUnionFree settings sample → tree.Flat) := by
  have read := ((ofSample_eq_ok_iff settings sample tree).mp inferred).2
  have every := paired_lasting.everywhere_infer ordered (fun _ _ _ _ _ _ _ _ own => own) read
  exact ⟨every, fun later => infer_flat ordered later read⟩

/-- A union among the elements of the first array takes a further null. -/
theorem alternatives_ofSample_nested :
    let sample := Json.object [("xs", .array [.array [.null, .bool true], .array [.null]])]
    let items := union {} [scalar {} .boolean, scalar {} .null]
    let tree := object {} [("xs", arrayOf {} (arrayOf {} items))] ["xs"]
    sample.Ordered ∧ ofSample {} sample = .ok tree ∧ LaterUnionFree {} sample ∧
      tree.Everywhere Paired ∧ tree.Flat := by
  intro sample items tree
  have ordered : sample.Ordered := Json.ordered_of_sorted [sample] (by rfl) sample (by simp)
  have parted : apart (scalar {} .null) (scalar {} .boolean) = items :=
    congrArg (union {}) (sortBranches_of_lt (by decide))
  have inferred : ofSample {} sample = .ok tree := by
    simp [sample, tree, items, ofSample, Json.isObject, infer, bounded, inferMembers, inferElements,
      addElement, ofItems, mergeElement, mergeElementBranches, family, type, format?, label,
      ScalarType.toValueType, ValueType.family, Keyed.keys, parted, bind, Except.bind, pure,
      Except.pure, Functor.map, Except.map]
  have leaf : ∀ value ∈ [Json.null, .bool true], LaterUnionFree {} value := by
    intro value listed first rest inside
    rcases List.mem_pair.mp listed with rfl | rfl <;> cases inside
  have bool : ∀ depth tree, infer {} depth (.bool true) = .ok tree → tree.UnionFree := by
    intro depth tree own
    cases bounded_eq_ok own
    exact .scalar _ _
  have array : ∀ depth tree, infer {} depth (.array [.null]) = .ok tree → tree.UnionFree := by
    intro depth tree own
    obtain ⟨items, read, rfl⟩ := infer_array own
    obtain ⟨next, own, remaining⟩ := inferElements_cons read
    cases bounded_eq_ok own
    cases remaining
    exact .arrayOf _ _ (.scalar _ _)
  have lone : LaterUnionFree {} (.array [.null]) :=
    (laterUnionFree_array_iff _).mpr ⟨by simp, by simpa using leaf .null (by simp)⟩
  have pair : LaterUnionFree {} (.array [.null, .bool true]) :=
    (laterUnionFree_array_iff _).mpr ⟨by simpa using bool, leaf⟩
  have nested : LaterUnionFree {} (.array [.array [.null, .bool true], .array [.null]]) :=
    (laterUnionFree_array_iff _).mpr ⟨by simpa using array, by simpa using ⟨pair, lone⟩⟩
  have later : LaterUnionFree {} sample :=
    (laterUnionFree_object_iff _).mpr (by simpa using nested)
  obtain ⟨every, flat⟩ := alternatives_ofSample {} sample tree ordered inferred
  exact ⟨ordered, inferred, later, every, flat later⟩

/-- A union that comes to items of another type is made an alternative beside them. -/
theorem not_flat_union :
    let sample := Json.object [("xs", .array [.array [.bool true], .array [.object [], .null]])]
    let inner := union {} [object {} [] [], scalar {} .null]
    let items := union {} [scalar {} .boolean, inner]
    let tree := object {} [("xs", arrayOf {} (arrayOf {} items))] ["xs"]
    sample.Ordered ∧ ofSample {} sample = .ok tree ∧ ¬ tree.Flat := by
  intro sample inner items tree
  have ordered : sample.Ordered := Json.ordered_of_sorted [sample] (by rfl) sample (by simp)
  have first : apart (object {} [] []) (scalar {} .null) = inner := apart_of_rank_le (by decide)
  have second : apart (scalar {} .boolean) inner = items := apart_of_rank_le (by decide)
  have different : ValueType.boolean ≠ inner.family := by decide
  have inferred : ofSample {} sample = .ok tree := by
    simp [sample, tree, ofSample, Json.isObject, infer, bounded, inferMembers, inferElements,
      addElement, ofItems, mergeElement, family, type, ScalarType.toValueType, ValueType.family,
      Keyed.keys, first, second, bind, Except.bind, pure, Except.pure, Functor.map, Except.map]
    exact different
  refine ⟨ordered, inferred, ?_⟩
  intro flat
  have reached : tree.get? [.property "xs", .items, .items] = some items := rfl
  have inside : items.Flat := Everywhere.get? flat reached
  exact absurd rfl (inside.own {} _ rfl inner (by simp))

end Node

end EventSchema
