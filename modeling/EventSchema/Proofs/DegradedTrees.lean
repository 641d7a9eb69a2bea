import EventSchema.Proofs.Degrading
import EventSchema.Proofs.Resolving

namespace EventSchema.Node

theorem isMixedArray_bare (node : Node) : node.bare.isMixedArray = node.isMixedArray := by
  cases node <;> rfl

theorem bare_eq_union_iff (node : Node) (label : Label) (branches : List Node) :
    node.bare = union label branches ↔ node = union label branches := by
  cases node <;> simp [bare]

theorem WellFormed.not_mixed {node : Node} (wellFormed : node.WellFormed False) :
    node.isMixedArray = false := by
  cases wellFormed with
  | mixedArray _ impossible => exact impossible.elim
  | scalar _ _ | object _ _ _ _ _ | emptyArray _ | arrayOf _ _ _ | union _ _ _ _ _ _ => rfl

theorem isMixedArray_forgetItems {node : Node} (array : node.plainType? = some .array) :
    node.forgetItems.isMixedArray = true := by
  cases node with
  | scalar _ type => cases type <;> cases array
  | object _ _ _ | union _ _ => cases array
  | emptyArray _ | arrayOf _ _ | mixedArray _ => rfl

theorem forgetItems_of_not_array {node : Node} (notArray : node.plainType? ≠ some .array) :
    node.forgetItems = node := by
  cases node with
  | emptyArray _ | arrayOf _ _ | mixedArray _ => exact absurd rfl notArray
  | scalar _ _ | object _ _ _ | union _ _ => rfl

structure Marked (places : List Path) (path : Path) (node : Node) : Prop where
  placed : node.isMixedArray = true → path ∈ places
  mixed : path ∈ places → node.plainType? = some .array → node.isMixedArray = true
  branches : ∀ label branches, node = union label branches →
    ∀ branch ∈ branches, branch.WellFormed False

namespace Marked

variable {places : List Path} {path : Path} {node : Node}

theorem congr {node' : Node} (marked : Marked places path node) (same : node.bare = node'.bare) :
    Marked places path node' := by
  have plain : node.plainType? = node'.plainType? := by
    rw [← plainType?_bare, same, plainType?_bare]
  have mixed : node.isMixedArray = node'.isMixedArray := by
    rw [← isMixedArray_bare, same, isMixedArray_bare]
  refine ⟨mixed ▸ marked.placed, plain ▸ mixed ▸ marked.mixed, ?_⟩
  intro label branches union
  refine marked.branches label branches ((bare_eq_union_iff node label branches).mp ?_)
  rw [same]
  exact (bare_eq_union_iff node' label branches).mpr union

theorem relabel (label : Label) (marked : Marked places path node) :
    Marked places path (node.relabel label) := by
  rcases marked with ⟨placed, mixed, alternatives⟩
  cases node with
  | union own branches =>
      refine ⟨placed, mixed, ?_⟩
      intro label' branches' same
      cases same
      exact alternatives own branches rfl
  | _ => exact ⟨placed, mixed, fun _ _ same => by cases same⟩

theorem of_wellFormed (wellFormed : node.WellFormed False)
    (elsewhere : path ∈ places → node.plainType? ≠ some .array) : Marked places path node := by
  refine ⟨fun mixed => ?_, fun member array => absurd array (elsewhere member), ?_⟩
  · rw [wellFormed.not_mixed] at mixed
    cases mixed
  · intro label branches same branch member
    subst same
    exact wellFormed.branch member

end Marked

def MarkedFrom (places : List Path) (base : Path) (tree : Node) : Prop :=
  ∀ path node, tree.get? path = some node → Marked places (base ++ path) node

theorem markedFrom_degradeAll (places : List Path) (tree : Node)
    (wellFormed : tree.WellFormed False) : MarkedFrom places [] (tree.degradeAll places) := by
  intro path node present
  have shown := map_get?_degradeAll bare bare_update_cons places path tree
    (uncut_of_get?_degradeAll present)
  rw [present] at shown
  rcases Option.map_eq_some_iff.mp shown.symm with ⟨own, here, same⟩
  have inner := wellFormed.get? here
  refine Marked.congr ?_ same
  by_cases member : path ∈ places
  · rw [if_pos member]
    by_cases array : own.plainType? = some .array
    · have mixed := isMixedArray_forgetItems array
      refine ⟨fun _ => member, fun _ _ => mixed, ?_⟩
      intro label branches union
      rw [union] at mixed
      cases mixed
    · rw [forgetItems_of_not_array array]
      exact .of_wellFormed inner fun _ => array
  · rw [if_neg member]
    exact .of_wellFormed inner fun inside => absurd inside member

namespace MarkedFrom

variable {places : List Path} {base : Path} {tree : Node}

theorem relabel (label : Label) (marked : MarkedFrom places base tree) :
    MarkedFrom places base (tree.relabel label) := by
  intro path node present
  cases path with
  | nil =>
      obtain rfl : tree.relabel label = node := Option.some.inj present
      exact (marked [] tree rfl).relabel label
  | cons step path =>
      rw [get?_relabel_cons] at present
      exact marked _ node present

theorem get? {path : Path} {node : Node} (marked : MarkedFrom places [] tree)
    (present : tree.get? path = some node) : MarkedFrom places path node := by
  intro rest inner below
  refine marked (path ++ rest) inner ?_
  rw [get?_append, present]
  exact below

theorem of_wellFormed (wellFormed : tree.WellFormed False)
    (apart : ∀ place ∈ places, ¬ base <+: place) : MarkedFrom places base tree := by
  intro path node present
  refine .of_wellFormed (wellFormed.get? present) fun member => ?_
  exact absurd (List.prefix_append base path) (apart _ member)

theorem ofType (type : ValueType) (free : type = .array → base ∉ places) :
    MarkedFrom places base (Node.ofType type) := by
  intro path node present
  cases path with
  | nil =>
      obtain rfl : Node.ofType type = node := Option.some.inj present
      rw [List.append_nil]
      refine .of_wellFormed (WellFormed.ofType type) fun member array => ?_
      rw [plainType?_ofType] at array
      exact free (Option.some.inj array) member
  | cons step path =>
      rw [get?_cons, step?_ofType] at present
      cases present

theorem update {change : Node → Node} {place : Path} (marked : MarkedFrom places [] tree)
    (changed : ∀ node, tree.get? place = some node → MarkedFrom places place (change node)) :
    MarkedFrom places [] (tree.update change place) := by
  intro path node present
  by_cases inside : place <+: path
  · rcases inside with ⟨rest, rfl⟩
    rw [get?_update_below] at present
    rcases Option.bind_eq_some_iff.mp present with ⟨old, here, below⟩
    exact changed old here rest node below
  · have shown := map_get?_update_outside change bare bare_update_cons place path tree inside
    rcases exists_of_map_get? shown present with ⟨old, here, same⟩
    exact (marked path old here).congr same

theorem retype {type : ValueType} {template : Option Node} (marked : MarkedFrom places base tree)
    (lent : ∀ sample, template = some sample → MarkedFrom places base sample)
    (noUnion : tree.plainType? = none → ∀ place ∈ places, ¬ base <+: place)
    (offered : type = .array → base ∈ places →
      ∃ sample, template = some sample ∧ sample.type = .array) :
    MarkedFrom places base (tree.retype type template) := by
  by_cases needed : type = .array ∧ base ∈ places
  · rcases needed with ⟨rfl, member⟩
    rcases offered rfl member with ⟨sample, rfl, own⟩
    have plain : tree.plainType? = some tree.type := by
      cases shown : tree.plainType? with
      | none => exact absurd List.prefix_rfl (noUnion shown base member)
      | some type' => rw [((plainType?_eq_some_iff tree type').mp shown).2]
    rw [retype_of_plain _ _ tree plain]
    split
    · exact marked
    · have borrowed : startingShape .array (some sample) = sample := by
        simp [startingShape, own, ValueType.isStructural]
      rw [borrowed]
      exact (lent sample rfl).relabel _
  · rcases retype_cases type template tree with ⟨kept, -⟩ |
      ⟨label, branches, branch, label', rfl, member, -, same⟩ | ⟨sample, label, given, -, same⟩ |
      ⟨label, same⟩
    · rw [kept]
      exact marked
    · have alternatives := (marked [] _ rfl).branches label branches rfl
      rw [same]
      exact (of_wellFormed (alternatives branch member) (noUnion rfl)).relabel label'
    · rw [same]
      exact (lent sample given).relabel label
    · rw [same]
      exact (ofType type fun array member => needed ⟨array, member⟩).relabel label

end MarkedFrom

theorem update_property_eq_arrayOf_iff (change : Node → Node) (name : String) (rest : Path)
    (node : Node) (label : Label) (items : Node) :
    node.update change (.property name :: rest) = arrayOf label items ↔
      node = arrayOf label items := by
  cases node with
  | object own properties required =>
      simp only [Node.update]
      split <;> simp
  | _ => simp [Node.update]

theorem get?_degrade_eq_arrayOf_iff {place : Path} (named : Step.items ∉ place) (path : Path)
    (root : Node) (label : Label) (items : Node) :
    (root.degrade place).get? path = some (arrayOf label items) ↔
      root.get? path = some (arrayOf label items) ∧ path ≠ place ∧ ¬ place ++ [.items] <+: path := by
  rw [degrade_eq_update]
  by_cases inside : place <+: path
  · rcases inside with ⟨rest, rfl⟩
    rw [get?_update_below, get?_append]
    cases root.get? place with
    | none => simp
    | some node =>
        cases rest with
        | nil =>
            have different : node.forgetItems ≠ arrayOf label items := by
              cases node <;> simp [forgetItems]
            simp [different]
        | cons step rest =>
            have first : place ++ [Step.items] <+: place ++ step :: rest ↔ step = .items := by
              rw [List.prefix_append_right_inj]
              simp [List.cons_prefix_cons, eq_comm]
            simp only [Option.bind_some, get?_cons, step?_forgetItems, first]
            split <;> simp_all
  · have uncut : ¬ place ++ [.items] <+: path := fun cut =>
      inside ((List.prefix_append place _).trans cut)
    have different : path ≠ place := fun same => inside (same ▸ List.prefix_rfl)
    simp only [uncut, different, ne_eq, not_false_eq_true, and_true]
    by_cases above : path <+: place
    · rcases above with ⟨_ | ⟨step, rest⟩, rfl⟩
      · simp at inside
      · cases step with
        | items => simp at named
        | property name =>
            rw [get?_update_above, Option.map_eq_some_iff]
            simp only [update_property_eq_arrayOf_iff, exists_eq_right]
    · rw [get?_update_apart forgetItems place path root above inside]

/-- Degrading keeps, with their items, the arrays that are neither at a place nor inside an array at
one, for no place is inside an array. -/
theorem get?_degradeAll_eq_arrayOf_iff (places : List Path)
    (named : ∀ place ∈ places, Step.items ∉ place) (path : Path) (root : Node) (label : Label)
    (items : Node) :
    (root.degradeAll places).get? path = some (arrayOf label items) ↔
      root.get? path = some (arrayOf label items) ∧ path ∉ places ∧ ¬ Cut places path := by
  rw [degradeAll]
  induction places generalizing root with
  | nil => simp [Cut]
  | cons place rest ih =>
      rcases List.forall_mem_cons.mp named with ⟨first, others⟩
      rw [List.foldl_cons, ih others, get?_degrade_eq_arrayOf_iff first]
      simp only [Cut, List.mem_cons, exists_eq_or_imp, not_or]
      tauto

end EventSchema.Node
