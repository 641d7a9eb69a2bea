import EventSchema.Proofs.Shape
import EventSchema.Proofs.WellFormed
import EventSchema.Survey.Homogeneity
/-!
Which arrays are degraded, and what degrading leaves: the paths are the outermost ones at which two
trees have arrays of different shape, and a tree loses what lies under the items there and keeps the
kind of every other node.
-/
namespace EventSchema

namespace Node

def describesItems : Node → Prop
  | arrayOf _ _ => True
  | mixedArray _ => True
  | _ => False

theorem describesItems_iff (node : Node) :
    node.describesItems ↔
      (∃ label items, node = arrayOf label items) ∨ ∃ label, node = mixedArray label := by
  cases node <;> simp [describesItems]

theorem mem_arraysFromProperties (base : Path) (properties : List (String × Node))
    (entry : Path × Node) :
    entry ∈ arraysFromProperties base properties ↔
      ∃ name child, (name, child) ∈ properties ∧ entry ∈ arraysFrom (base.child name) child := by
  induction properties with
  | nil => simp [arraysFromProperties]
  | cons first rest ih =>
      rcases first with ⟨name, child⟩
      simp only [arraysFromProperties, List.mem_append, ih, List.mem_cons, Prod.mk.injEq]
      constructor
      · intro listed
        rcases listed with here | ⟨name', child', later, inside⟩
        · exact ⟨name, child, .inl ⟨rfl, rfl⟩, here⟩
        · exact ⟨name', child', .inr later, inside⟩
      · intro listed
        rcases listed with ⟨name', child', ⟨rfl, rfl⟩ | later, inside⟩
        · exact .inl inside
        · exact .inr ⟨name', child', later, inside⟩

theorem get?_of_mem_arraysFrom {mixed : Prop} (root : Node) (wellFormed : root.WellFormed mixed)
    (base path : Path) (node : Node) (listed : (path, node) ∈ root.arraysFrom base) :
    ∃ rest, path = base ++ rest ∧ root.get? rest = some node ∧ node.describesItems := by
  induction wellFormed generalizing base with
  | object label properties required increasing _ ih =>
      rcases (mem_arraysFromProperties base properties (path, node)).mp
        (by simpa only [arraysFrom] using listed) with ⟨name, child, member, inside⟩
      rcases ih (name, child) member (base.child name) inside with ⟨rest, rfl, present, described⟩
      refine ⟨.property name :: rest, by simp [Path.child], ?_, described⟩
      simp [get?_cons, step?, Keyed.lookup_of_mem increasing member, present]
  | arrayOf label items _ ih =>
      simp only [arraysFrom, List.mem_cons, Prod.mk.injEq] at listed
      rcases listed with ⟨rfl, rfl⟩ | inside
      · exact ⟨[], by simp, rfl, trivial⟩
      · rcases ih base.items inside with ⟨rest, rfl, present, described⟩
        exact ⟨.items :: rest, by simp [Path.items], by simp [get?_cons, step?, present], described⟩
  | mixedArray label _ =>
      simp only [arraysFrom, List.mem_singleton, Prod.mk.injEq] at listed
      rcases listed with ⟨rfl, rfl⟩
      exact ⟨[], by simp, rfl, trivial⟩
  | scalar _ _ | emptyArray _ | union _ _ _ _ _ _ =>
      simp only [arraysFrom, List.not_mem_nil] at listed

theorem mem_arraysFrom_of_get? (base rest : Path) (root node : Node)
    (present : root.get? rest = some node) (described : node.describesItems) :
    (base ++ rest, node) ∈ root.arraysFrom base := by
  induction rest generalizing base root with
  | nil =>
      rw [get?_nil, Option.some.injEq] at present
      subst present
      cases root with
      | arrayOf label items => simp [arraysFrom]
      | mixedArray label => simp [arraysFrom]
      | scalar _ _ | object _ _ _ | emptyArray _ | union _ _ => exact described.elim
  | cons step rest ih =>
      rcases Option.bind_eq_some_iff.mp present with ⟨child, first, later⟩
      cases step with
      | property name =>
          rcases (step?_property_eq_some_iff name root child).mp first with
            ⟨label, properties, required, rfl, member⟩
          rw [arraysFrom, mem_arraysFromProperties]
          refine ⟨name, child, Keyed.mem_of_lookup member, ?_⟩
          simpa [Path.child] using ih (base.child name) child later
      | items =>
          rcases (step?_items_eq_some_iff root child).mp first with ⟨label, rfl⟩
          rw [arraysFrom]
          exact List.mem_cons_of_mem _ (by simpa [Path.items] using ih base.items child later)

theorem mem_arrays_iff {mixed : Prop} (root : Node) (wellFormed : root.WellFormed mixed)
    (path : Path) (node : Node) :
    (path, node) ∈ root.arrays ↔ root.get? path = some node ∧ node.describesItems := by
  constructor
  · intro listed
    rcases get?_of_mem_arraysFrom root wellFormed Path.root path node listed with
      ⟨rest, rfl, present, described⟩
    exact ⟨present, described⟩
  · intro here
    rcases here with ⟨present, described⟩
    exact mem_arraysFrom_of_get? Path.root path root node present described

end Node

namespace Comparison

theorem disagree_iff (nodes : List Node) :
    disagree nodes = true ↔ ∃ left ∈ nodes, ∃ right ∈ nodes, left.sameShape right = false := by
  cases nodes with
  | nil => simp [disagree]
  | cons first others =>
      simp only [disagree, List.any_eq_true, Bool.not_eq_true']
      constructor
      · intro found
        rcases found with ⟨other, member, apart⟩
        exact ⟨first, List.mem_cons_self, other, List.mem_cons_of_mem _ member, apart⟩
      · intro pair
        rcases pair with ⟨left, one, right, two, apart⟩
        by_contra agreed
        push Not at agreed
        have each : ∀ node ∈ first :: others, first.sameShape node = true := by
          intro node member
          rcases List.mem_cons.mp member with rfl | other
          · exact node.sameShape_self
          · exact Bool.ne_false_iff.mp (agreed node other)
        have same := Node.sameShape_of_common first left right (each left one) (each right two)
        rw [same] at apart
        cases apart

theorem observed_eq_gathered (trees : List Node) :
    observed trees = Keyed.gathered (trees.flatMap Node.arrays) := rfl

/-- Two of the trees list arrays of different shape at the path. -/
def Differ (trees : List Node) (path : Path) : Prop :=
  ∃ left ∈ trees, ∃ right ∈ trees, ∃ first second, (path, first) ∈ left.arrays ∧
    (path, second) ∈ right.arrays ∧ first.sameShape second = false

theorem differ_iff (trees : List Node) (path : Path) :
    Differ trees path ↔ ∃ nodes, (path, nodes) ∈ observed trees ∧ disagree nodes = true := by
  have listed : ∀ node, node ∈ Keyed.paired path (trees.flatMap Node.arrays) ↔
      ∃ tree ∈ trees, (path, node) ∈ tree.arrays := by
    intro node
    rw [Keyed.mem_paired, List.mem_flatMap]
  rw [observed_eq_gathered]
  constructor
  · intro pair
    rcases pair with ⟨left, one, right, two, first, second, former, latter, apart⟩
    have member := (listed first).mpr ⟨left, one, former⟩
    refine ⟨Keyed.paired path (trees.flatMap Node.arrays), ?_, ?_⟩
    · apply Keyed.mem_of_lookup
      rw [Keyed.lookup_gathered, if_neg (List.ne_nil_of_mem member)]
    · exact (disagree_iff _).mpr
        ⟨first, member, second, (listed second).mpr ⟨right, two, latter⟩, apart⟩
  · intro found
    rcases found with ⟨nodes, member, disagreed⟩
    have found := Keyed.lookup_of_mem (Keyed.increasing_gathered _) member
    rw [Keyed.lookup_gathered] at found
    split at found
    · cases found
    · rw [Option.some.injEq] at found
      subst found
      rcases (disagree_iff _).mp disagreed with ⟨first, former, second, latter, apart⟩
      rcases (listed first).mp former with ⟨left, one, inside⟩
      rcases (listed second).mp latter with ⟨right, two, inside'⟩
      exact ⟨left, one, right, two, first, second, inside, inside', apart⟩

end Comparison

def Path.Outermost (holds : Path → Prop) (path : Path) : Prop :=
  holds path ∧ ∀ outer, outer <+: path → holds outer → outer = path

theorem Path.exists_outermost (holds : Path → Prop) (path : Path) (here : holds path) :
    ∃ outer, outer <+: path ∧ Path.Outermost holds outer := by
  induction size : path.length using Nat.strong_induction_on generalizing path with
  | h length ih =>
      by_cases smaller : ∃ further, further <+: path ∧ holds further ∧ further ≠ path
      · rcases smaller with ⟨further, inside, holding, different⟩
        have shorter : further.length < length := by
          have bound := inside.length_le
          have unequal : further.length ≠ path.length :=
            fun equal => different (inside.eq_of_length equal)
          omega
        rcases ih further.length shorter further holding rfl with ⟨outer, inside', found⟩
        exact ⟨outer, inside'.trans inside, found⟩
      · refine ⟨path, List.prefix_rfl, here, ?_⟩
        intro further inside holding
        by_contra different
        exact smaller ⟨further, inside, holding, different⟩

namespace Comparison

theorem divergent_append (before : List (Path × List Node)) (path : Path) (nodes : List Node) :
    divergent (before ++ [(path, nodes)]) =
      if (divergent before).any path.startsWith || !disagree nodes then divergent before
      else divergent before ++ [path] := by
  rw [divergent, List.foldl_append]
  rfl

theorem divergent_sublist (entries : List (Path × List Node)) :
    (divergent entries).Sublist (Keyed.keys entries) := by
  induction entries using List.reverseRecOn with
  | nil => exact List.Sublist.refl _
  | append_singleton before entry ih =>
      rcases entry with ⟨path, nodes⟩
      have keys : Keyed.keys (before ++ [(path, nodes)]) = Keyed.keys before ++ [path] := by
        simp [Keyed.keys]
      rw [divergent_append, keys]
      split
      · exact ih.trans (List.sublist_append_left _ _)
      · exact ih.append (List.Sublist.refl _)

def DisagreesAt (entries : List (Path × List Node)) (path : Path) : Prop :=
  ∃ nodes, (path, nodes) ∈ entries ∧ disagree nodes = true

theorem disagreesAt_append (before : List (Path × List Node)) (last path : Path)
    (nodes : List Node) :
    DisagreesAt (before ++ [(last, nodes)]) path ↔
      DisagreesAt before path ∨ path = last ∧ disagree nodes = true := by
  rw [DisagreesAt]
  simp only [List.mem_append, List.mem_singleton, Prod.mk.injEq]
  constructor
  · intro found
    rcases found with ⟨nodes', earlier | ⟨rfl, rfl⟩, disagreed⟩
    · exact .inl ⟨nodes', earlier, disagreed⟩
    · exact .inr ⟨rfl, disagreed⟩
  · intro either
    rcases either with ⟨nodes', earlier, disagreed⟩ | ⟨rfl, disagreed⟩
    · exact ⟨nodes', .inl earlier, disagreed⟩
    · exact ⟨nodes, .inr ⟨rfl, rfl⟩, disagreed⟩

theorem outermost_append_of_before {before : List (Path × List Node)} {last path : Path}
    {nodes : List Node} (earlier : ∀ outer, DisagreesAt before outer → outer < last)
    (disagreed : DisagreesAt before path) :
    Path.Outermost (DisagreesAt (before ++ [(last, nodes)])) path ↔
      Path.Outermost (DisagreesAt before) path := by
  simp only [Path.Outermost, disagreesAt_append]
  constructor
  · intro outermost
    rcases outermost with ⟨-, outermost⟩
    exact ⟨disagreed, fun outer inside earlier' => outermost outer inside (.inl earlier')⟩
  · intro outermost
    rcases outermost with ⟨-, outermost⟩
    refine ⟨.inl disagreed, ?_⟩
    intro outer inside either
    rcases either with earlier' | ⟨rfl, -⟩
    · exact outermost outer inside earlier'
    · exact absurd inside (Path.not_prefix_of_lt outer path (earlier path disagreed))

theorem outermost_append_of_last {before : List (Path × List Node)} {last path : Path}
    {nodes : List Node} (agreed : ¬ DisagreesAt before path) :
    Path.Outermost (DisagreesAt (before ++ [(last, nodes)])) path ↔
      path = last ∧ disagree nodes = true ∧
        ∀ outer, outer <+: last → ¬ DisagreesAt before outer := by
  simp only [Path.Outermost, disagreesAt_append, agreed, false_or]
  constructor
  · intro outermost
    rcases outermost with ⟨⟨rfl, differing⟩, outermost⟩
    refine ⟨rfl, differing, ?_⟩
    intro outer inside earlier
    exact agreed (outermost outer inside (.inl earlier) ▸ earlier)
  · intro taken
    rcases taken with ⟨rfl, differing, uncovered⟩
    refine ⟨⟨rfl, differing⟩, ?_⟩
    intro outer inside either
    rcases either with earlier | ⟨same, -⟩
    · exact absurd earlier (uncovered outer inside)
    · exact same

theorem covered_iff {entries : List (Path × List Node)} (path : Path)
    (kept : ∀ outer, outer ∈ divergent entries ↔ Path.Outermost (DisagreesAt entries) outer) :
    (divergent entries).any path.startsWith = true ↔
      ∃ outer, outer <+: path ∧ DisagreesAt entries outer := by
  simp only [List.any_eq_true, Path.startsWith, List.isPrefixOf_iff_prefix]
  constructor
  · intro found
    rcases found with ⟨outer, member, inside⟩
    exact ⟨outer, inside, ((kept outer).mp member).1⟩
  · intro found
    rcases found with ⟨outer, inside, disagreed⟩
    rcases Path.exists_outermost _ outer disagreed with ⟨further, inside', found⟩
    exact ⟨further, (kept further).mpr found, inside'.trans inside⟩

/-- Of entries in the order of their paths the outermost that disagree are kept: an entry comes
after all those that could cover it. -/
theorem mem_divergent (entries : List (Path × List Node)) (increasing : Keyed.Increasing entries)
    (path : Path) : path ∈ divergent entries ↔ Path.Outermost (DisagreesAt entries) path := by
  induction entries using List.reverseRecOn generalizing path with
  | nil => simp [divergent, Path.Outermost, DisagreesAt]
  | append_singleton before entry ih =>
      rcases entry with ⟨last, nodes⟩
      have ordered : (Keyed.keys before ++ [last]).Pairwise (· < ·) := by
        simpa [Keyed.Increasing, Ordered.Increasing, Keyed.keys] using increasing
      rcases List.pairwise_append.mp ordered with ⟨former, -, apart⟩
      have earlier : ∀ outer, DisagreesAt before outer → outer < last := by
        intro outer found
        rcases found with ⟨nodes', member, -⟩
        exact apart outer (List.mem_map_of_mem member) last List.mem_cons_self
      have skipped_iff : ((divergent before).any last.startsWith || !disagree nodes) = true ↔
          ¬ (disagree nodes = true ∧ ∀ outer, outer <+: last → ¬ DisagreesAt before outer) := by
        rw [Bool.or_eq_true, covered_iff last (ih former), Bool.not_eq_true', ← Bool.not_eq_true]
        grind
      rw [divergent_append]
      by_cases disagreed : DisagreesAt before path
      · have different : path ≠ last := by
          intro same
          subst same
          exact irrefl_of (· < ·) path (earlier path disagreed)
        rw [outermost_append_of_before earlier disagreed, ← ih former path]
        split
        · rfl
        · rw [List.mem_append, List.mem_singleton, or_iff_left different]
      · have absent : path ∉ divergent before := fun member =>
          disagreed ((ih former path).mp member).1
        rw [outermost_append_of_last disagreed]
        split
        · rename_i skipped
          have untaken := skipped_iff.mp skipped
          exact iff_of_false absent fun taken => untaken taken.2
        · rename_i unskipped
          have taken := not_not.mp (mt skipped_iff.mpr unskipped)
          rw [List.mem_append, or_iff_right absent, List.mem_singleton, and_iff_left taken]

/-- Arrays are degraded at the outermost paths at which trees differ. -/
theorem mem_degraded_iff (trees : List Node) (path : Path) :
    path ∈ divergent (observed trees) ↔ Path.Outermost (Differ trees) path := by
  have same : DisagreesAt (observed trees) = Differ trees := by
    funext outer
    exact propext (differ_iff trees outer).symm
  have increasing : Keyed.Increasing (observed trees) := Keyed.increasing_gathered _
  rw [mem_divergent _ increasing, same]

theorem degraded_increasing (trees : List Node) :
    Ordered.Increasing (divergent (observed trees)) :=
  List.Pairwise.sublist (divergent_sublist _) (Keyed.increasing_gathered _)

section Inferred

variable {trees : List Node} (wellFormed : ∀ tree ∈ trees, tree.WellFormed False)

include wellFormed

theorem differ_iff_get? (path : Path) :
    Differ trees path ↔ ∃ left ∈ trees, ∃ right ∈ trees, ∃ label items label' items',
      left.get? path = some (.arrayOf label items) ∧
        right.get? path = some (.arrayOf label' items') ∧ items.sameShape items' = false := by
  have listed : ∀ tree ∈ trees, ∀ node, (path, node) ∈ tree.arrays ↔
      ∃ label items, node = .arrayOf label items ∧ tree.get? path = some node := by
    intro tree member node
    rw [Node.mem_arrays_iff tree (wellFormed tree member)]
    constructor
    · intro here
      rcases here with ⟨present, described⟩
      cases (wellFormed tree member).get? present with
      | arrayOf label items _ => exact ⟨label, items, rfl, present⟩
      | mixedArray _ impossible => exact impossible.elim
      | scalar _ _ | object _ _ _ _ _ | emptyArray _ | union _ _ _ _ _ _ => exact described.elim
    · intro described
      rcases described with ⟨label, items, rfl, present⟩
      exact ⟨present, trivial⟩
  constructor
  · intro pair
    rcases pair with ⟨left, one, right, two, first, second, former, latter, apart⟩
    rcases (listed left one first).mp former with ⟨label, items, rfl, here⟩
    rcases (listed right two second).mp latter with ⟨label', items', rfl, there⟩
    exact ⟨left, one, right, two, label, items, label', items', here, there,
      by simpa [Node.sameShape] using apart⟩
  · intro pair
    rcases pair with ⟨left, one, right, two, label, items, label', items', here, there, apart⟩
    exact ⟨left, one, right, two, _, _, (listed left one _).mpr ⟨label, items, rfl, here⟩,
      (listed right two _).mpr ⟨label', items', rfl, there⟩, by simpa [Node.sameShape] using apart⟩

theorem items_not_mem_degraded (place : Path) (degraded : place ∈ divergent (observed trees)) :
    Step.items ∉ place := by
  rcases (mem_degraded_iff trees place).mp degraded with ⟨differing, outermost⟩
  intro inside
  rcases List.append_of_mem inside with ⟨outer, rest, rfl⟩
  obtain ⟨left, one, right, two, label, items, label', items', here, there, apart⟩ :=
    (differ_iff_get? wellFormed _).mp differing
  rcases Node.exists_array_of_get? here with ⟨ownLabel, own, former, found⟩
  rcases Node.exists_array_of_get? there with ⟨otherLabel, other, latter, found'⟩
  have different : own.sameShape other = false := by
    by_contra same
    obtain ⟨array, present, equal⟩ := Node.get?_of_sameShape rest own other _
      (Bool.not_eq_false _ ▸ same) found
    rw [found', Option.some.injEq] at present
    subst present
    have equal' : items.sameShape items' = true := by simpa [Node.sameShape] using equal
    rw [equal'] at apart
    cases apart
  have further := (differ_iff_get? wellFormed outer).mpr
    ⟨left, one, right, two, ownLabel, own, otherLabel, other, former, latter, different⟩
  have same := outermost outer (List.prefix_append _ _) further
  have length := congrArg List.length same
  simp at length

theorem array_of_mem_degraded (place : Path) (degraded : place ∈ divergent (observed trees)) :
    ∃ tree ∈ trees, ∃ label items, tree.get? place = some (.arrayOf label items) := by
  rcases (mem_degraded_iff trees place).mp degraded with ⟨differing, -⟩
  obtain ⟨left, one, -, -, label, items, -, -, here, -, -⟩ :=
    (differ_iff_get? wellFormed place).mp differing
  exact ⟨left, one, label, items, here⟩

theorem sameShape_of_not_degraded (path : Path)
    (kept : ∀ place ∈ divergent (observed trees), ¬ place <+: path) (left right : Node)
    (label label' : Label) (items items' : Node) (one : left ∈ trees) (two : right ∈ trees)
    (here : left.get? path = some (.arrayOf label items))
    (there : right.get? path = some (.arrayOf label' items')) : items.sameShape items' = true := by
  by_contra apart
  have differing := (differ_iff_get? wellFormed path).mpr ⟨left, one, right, two, label, items,
    label', items', here, there, Bool.eq_false_of_not_eq_true apart⟩
  rcases Path.exists_outermost _ path differing with ⟨outer, inside, found⟩
  exact kept outer ((mem_degraded_iff trees outer).mpr found) inside

end Inferred

end Comparison

namespace Node

def forgetItems : Node → Node
  | emptyArray label | arrayOf label _ | mixedArray label => mixedArray { label with format := none }
  | scalar label type => scalar label type
  | object label properties required => object label properties required
  | union label branches => union label branches

theorem degrade_eq_update (place : Path) (root : Node) :
    root.degrade place = root.update forgetItems place := by
  rw [degrade]
  congr 1
  funext node
  cases node <;> rfl

@[simp] theorem plainType?_forgetItems (node : Node) :
    node.forgetItems.plainType? = node.plainType? := by
  cases node <;> rfl

theorem step?_forgetItems (node : Node) (step : Step) :
    node.forgetItems.step? step = if step = .items then none else node.step? step := by
  cases node <;> cases step <;> rfl

def degradeAll (places : List Path) (root : Node) : Node :=
  places.foldl (fun tree place => tree.degrade place) root

def Cut (places : List Path) (path : Path) : Prop :=
  ∃ place ∈ places, place ++ [.items] <+: path

@[simp] theorem forgetItems_forgetItems (node : Node) :
    node.forgetItems.forgetItems = node.forgetItems := by
  cases node <;> rfl

section View

variable {α : Type} (view : Node → α)
  (below : ∀ change step rest node, view (node.update change (step :: rest)) = view node)

include below

theorem view_forgetItems_update_cons (change : Node → Node) (step : Step) (rest : Path)
    (node : Node) :
    view (node.update change (step :: rest)).forgetItems = view node.forgetItems := by
  rcases update_cons_cases change step rest node with same |
    ⟨label, properties, _, required, rfl, same⟩ | ⟨_, _, _, rfl, same⟩
  · rw [same]
  · have kept := below change step rest (object label properties required)
    rw [same] at kept ⊢
    exact kept
  · rw [same]
    rfl

/-- What a node shows that does not depend on what lies below it is changed by degrading only at the
place itself, unless the node was under the items. -/
theorem map_get?_degrade (place path : Path) (root : Node) :
    ((root.degrade place).get? path).map view =
      if place ++ [.items] <+: path then none
      else (root.get? path).map fun node =>
        view (if path = place then node.forgetItems else node) := by
  rw [degrade_eq_update]
  by_cases inside : place <+: path
  · rcases inside with ⟨rest, rfl⟩
    rw [get?_update_below, get?_append]
    simp only [List.prefix_append_right_inj]
    cases root.get? place with
    | none => simp
    | some node =>
        cases rest with
        | nil => simp
        | cons step rest =>
            have first : [Step.items] <+: step :: rest ↔ step = .items := by
              simp [List.cons_prefix_cons, eq_comm]
            simp only [Option.bind_some, get?_cons, step?_forgetItems, first]
            split <;> simp
  · have uncut : ¬ place ++ [.items] <+: path := fun cut =>
      inside ((List.prefix_append place _).trans cut)
    have different : path ≠ place := fun same => inside (same ▸ List.prefix_rfl)
    simp only [if_neg uncut, if_neg different]
    exact map_get?_update_outside forgetItems view below place path root inside

theorem map_get?_degradeAll (places : List Path) (path : Path) (root : Node)
    (uncut : ¬ Cut places path) :
    ((root.degradeAll places).get? path).map view =
      (root.get? path).map fun node =>
        view (if path ∈ places then node.forgetItems else node) := by
  rw [degradeAll]
  induction places generalizing root with
  | nil => simp
  | cons place rest ih =>
      have later : ¬ Cut rest path := fun ⟨other, member, cut⟩ =>
        uncut ⟨other, List.mem_cons_of_mem _ member, cut⟩
      have here : ¬ place ++ [.items] <+: path := fun cut =>
        uncut ⟨place, List.mem_cons_self, cut⟩
      have below' : ∀ change step path' node,
          view (if path ∈ rest then (update change (step :: path') node).forgetItems
            else update change (step :: path') node) =
              view (if path ∈ rest then node.forgetItems else node) := by
        intro change step path' node
        split
        · exact view_forgetItems_update_cons view below change step path' node
        · exact below change step path' node
      rw [List.foldl_cons, ih _ later, map_get?_degrade _ below', if_neg here]
      congr 1
      funext node
      by_cases first : path = place <;> by_cases other : path ∈ rest <;> simp [first, other]

theorem map_get?_degradeAll_same (own : ∀ node, view node.forgetItems = view node)
    (places : List Path) (path : Path) (root : Node) (uncut : ¬ Cut places path) :
    ((root.degradeAll places).get? path).map view = (root.get? path).map view := by
  rw [map_get?_degradeAll view below places path root uncut]
  congr 1
  funext node
  split
  · exact own node
  · rfl

end View

theorem get?_degrade_of_none (place path : Path) (root : Node) (absent : root.get? path = none) :
    (root.degrade place).get? path = none := by
  have shown := map_get?_degrade (fun _ => ()) (fun _ _ _ _ => rfl) place path root
  rw [absent] at shown
  simpa using shown

theorem get?_degradeAll_of_cut (places : List Path) (path : Path) (root : Node)
    (cut : Cut places path) : (root.degradeAll places).get? path = none := by
  have kept : ∀ (others : List Path) (tree : Node), tree.get? path = none →
      (tree.degradeAll others).get? path = none := by
    intro others
    induction others with
    | nil => exact fun _ absent => absent
    | cons place rest ih => exact fun tree absent => ih _ (get?_degrade_of_none place path tree absent)
  rcases cut with ⟨place, member, inside⟩
  rcases List.append_of_mem member with ⟨before, after, rfl⟩
  have split : root.degradeAll (before ++ place :: after) =
      ((root.degradeAll before).degrade place).degradeAll after := by
    simp [degradeAll]
  have shown := map_get?_degrade (fun _ => ()) (fun _ _ _ _ => rfl) place path
    (root.degradeAll before)
  rw [if_pos inside] at shown
  rw [split]
  exact kept after _ (Option.map_eq_none_iff.mp shown)

theorem uncut_of_get?_degradeAll {places : List Path} {path : Path} {root node : Node}
    (present : (root.degradeAll places).get? path = some node) : ¬ Cut places path := by
  intro cut
  rw [get?_degradeAll_of_cut places path root cut] at present
  cases present

theorem plainType?_get?_degradeAll (places : List Path) (path : Path) (root : Node)
    (uncut : ¬ Cut places path) :
    ((root.degradeAll places).get? path).map plainType? = (root.get? path).map plainType? :=
  map_get?_degradeAll_same plainType? plainType?_update_cons plainType?_forgetItems places path root
    uncut

theorem degradeAll_wellFormed (places : List Path) (root : Node)
    (wellFormed : root.WellFormed True) : (root.degradeAll places).WellFormed True := by
  rw [degradeAll]
  induction places generalizing root with
  | nil => exact wellFormed
  | cons place rest ih =>
      refine ih (root.degrade place) ?_
      rw [degrade_eq_update]
      apply wellFormed.update
      intro part inner
      cases part with
      | emptyArray _ | arrayOf _ _ | mixedArray _ => exact .mixedArray _ trivial
      | scalar _ _ | object _ _ _ | union _ _ => exact inner

end Node

theorem Comparison.compare_eq (trees : List Node) (merged : Node) :
    compare trees merged =
      { perSample := trees.map (Node.degradeAll (divergent (observed trees)))
        merged := merged.degradeAll (divergent (observed trees))
        degraded := divergent (observed trees) } := rfl

theorem Comparison.compare_wellFormed {trees : List Node}
    (wellFormed : ∀ tree ∈ trees, tree.WellFormed False) (merged : Node) :
    ∀ tree ∈ (compare trees merged).perSample, tree.WellFormed True := by
  rw [compare_eq]
  intro tree member
  rcases List.mem_map.mp member with ⟨former, inferred, rfl⟩
  exact Node.degradeAll_wellFormed _ former
    ((wellFormed former inferred).weaken fun impossible => impossible.elim)

end EventSchema
