import EventSchema.Proofs.Gathering
import EventSchema.Proofs.SoundStages
/-!
Which keys of samples an object under names has in the finished schema. The resolutions are followed
along the names: at each of them the node is what was merged there, unless a conflict has to borrow an
object from a sample.
-/
namespace EventSchema

theorem filter_eq_append {α : Type} {elements : List α} {first wide : α → Bool}
    (initial : elements.Pairwise fun earlier later => first later = true → first earlier = true)
    (implied : ∀ element ∈ elements, first element = true → wide element = true) :
    elements.filter wide =
      elements.filter first ++ elements.filter fun element => wide element && !first element := by
  induction elements with
  | nil => rfl
  | cons head tail ih =>
      obtain ⟨before, initial'⟩ := List.pairwise_cons.mp initial
      obtain ⟨own, implied'⟩ := List.forall_mem_cons.mp implied
      have rest := ih initial' implied'
      by_cases here : first head = true
      · simp [here, own here, rest]
      · have none : tail.filter first = [] := by
          apply List.filter_eq_nil_iff.mpr
          intro element member later
          exact here (before element member later)
        rw [none, List.nil_append] at rest
        have none' : (head :: tail).filter first = [] := by
          rw [List.filter_cons_of_neg here, none]
        rw [none', List.nil_append]
        simp only [List.filter_cons, here, rest, Bool.not_false, Bool.and_true]

namespace Node

theorem isObject_update_cons (change : Node → Node) (step : Step) (rest : Path) (node : Node) :
    (node.update change (step :: rest)).isObject = node.isObject := by
  rcases update_cons_cases change step rest node with same | ⟨_, _, _, _, rfl, same⟩ |
    ⟨_, _, _, rfl, same⟩ <;> rw [same] <;> rfl

theorem isObject_forgetItems (node : Node) : node.forgetItems.isObject = node.isObject := by
  cases node <;> rfl

theorem isObject_requireProperty (name : String) (isRequired : Bool) (node : Node) :
    (Conflict.requireProperty name isRequired node).isObject = node.isObject := by
  cases node <;> rfl

theorem isObject_iff (node : Node) : node.isObject = true ↔ node.plainType? = some .object := by
  cases node with
  | scalar label type => cases type <;> simp [isObject, plainType?, type, ScalarType.toValueType]
  | _ => simp [isObject, plainType?, type]

def outline (names : List String) (found : Option Node) : Option Bool :=
  (found.bind (get? (names.map .property))).map isObject

theorem offer_store (name : String) (node : Node) : node.store.offer name = node.offer name := by
  have plain := (Prod.mk.inj (form_store node)).1
  have leads := (Prod.mk.inj (demand_store name node)).2
  rw [offer, plain, leads]
  rfl

theorem mergeAll_isSome (trees : List Node) : (mergeAll? trees).isSome = !trees.isEmpty := by
  cases trees <;> rfl

def Alike (first second : Option Node) : Prop :=
  ∀ names, outline names first = outline names second

namespace Alike

variable {first second third : Option Node}

theorem refl (found : Option Node) : Alike found found := fun _ => rfl

theorem symm (alike : Alike first second) : Alike second first := fun names => (alike names).symm

theorem trans (alike : Alike first second) (alike' : Alike second third) : Alike first third :=
  fun names => (alike names).trans (alike' names)

theorem isObject (alike : Alike first second) :
    first.map Node.isObject = second.map Node.isObject := by
  have top : ∀ found : Option Node, outline [] found = found.map Node.isObject := by
    intro found
    cases found <;> rfl
  rw [← top, ← top]
  exact alike []

theorem isSome (alike : Alike first second) : first.isSome = second.isSome := by
  simpa using congrArg Option.isSome alike.isObject

theorem step (alike : Alike first second) (name : String) :
    Alike (first.bind (step? (.property name))) (second.bind (step? (.property name))) := by
  intro names
  have below := alike (name :: names)
  have nested : ∀ found : Option Node, outline (name :: names) found =
      outline names (found.bind (step? (.property name))) := by
    intro found
    simp only [outline, List.map_cons, Option.bind_assoc]
    rfl
  rwa [nested, nested] at below

end Alike

theorem alike_degraded (places : List Path) (names : List String) (root : Node) :
    Alike ((root.degradeAll places).get? (names.map .property))
      (root.get? (names.map .property)) := by
  intro further
  have below : ∀ tree : Node, (tree.get? (names.map .property)).bind (get? (further.map .property)) =
      tree.get? ((names ++ further).map .property) := by
    intro tree
    rw [List.map_append, get?_append]
  rw [outline, outline, below, below]
  exact map_get?_degradeAll_same isObject isObject_update_cons isObject_forgetItems places _ root
    (uncut_names places _)

end Node

namespace Conflict

open Node

theorem classify_sorted (table : Occurrences)
    (ordered : table.entries.Pairwise fun first second => first.path < second.path) :
    (classify table).Pairwise fun earlier later => ¬ later.path < earlier.path := by
  rw [classify]
  refine List.pairwise_flatMap.mpr ⟨fun entry _ => ?_, ?_⟩
  · apply List.pairwise_of_forall_mem_list
    intro earlier former later latter
    rw [path_of_mem_ofOccurrence former, path_of_mem_ofOccurrence latter]
    exact irrefl_of (· < ·) entry.path
  · apply ordered.imp
    intro first second less earlier former later latter
    rw [path_of_mem_ofOccurrence former, path_of_mem_ofOccurrence latter]
    exact asymm_of (· < ·) less

theorem resolveAll_append (perSample : List Node) (first second : List Conflict) (tree : Node) :
    resolveAll perSample (first ++ second) tree =
      resolveAll perSample second (resolveAll perSample first tree) :=
  List.foldl_append

theorem get?_resolve_apart (perSample : List Node) (tree : Node) (conflict : Conflict) (path : Path)
    (outside : ¬ path <+: conflict.path)
    (apart : conflict.settles? = none ∨ ¬ conflict.path <+: path) :
    (resolve perSample tree conflict).get? path = tree.get? path := by
  by_cases settled : conflict.settles? = none
  · rw [settles?] at settled
    rw [resolve]
    cases resolution : conflict.resolution with
    | dataType type => simp [resolution] at settled
    | nullField => simp [resolution] at settled
    | format format action => rfl
    | optional isRequired =>
        cases above : conflict.path.parent? with
        | none => rfl
        | some parent =>
            cases last : conflict.path.lastName? with
            | none => rfl
            | some name =>
                rw [Path.eq_append_of_last above last] at outside
                change (tree.update (requireProperty name isRequired) parent).get? path = _
                by_cases inside : parent <+: path
                · obtain ⟨rest, rfl⟩ := inside
                  cases rest with
                  | nil => exact absurd (by simp) outside
                  | cons step rest =>
                      rw [get?_update_below, get?_append]
                      congr 1
                      funext node
                      rw [get?_cons, get?_cons, step?_requireProperty]
                · apply get?_update_apart _ parent path tree _ inside
                  exact fun below => outside (below.trans (List.prefix_append parent _))
  · rw [resolve_of_settles perSample tree conflict settled]
    exact get?_update_apart _ conflict.path path tree outside (apart.resolve_left settled)

theorem get?_resolveAll_apart (perSample : List Node) (conflicts : List Conflict) (tree : Node)
    (path : Path) (outside : ∀ conflict ∈ conflicts, ¬ path <+: conflict.path)
    (apart : ∀ conflict ∈ conflicts, conflict.settles? = none ∨ ¬ conflict.path <+: path) :
    (resolveAll perSample conflicts tree).get? path = tree.get? path := by
  apply resolveAll_induction (fun tree' => tree'.get? path = tree.get? path) perSample conflicts tree
    rfl
  intro conflict member tree' same
  rw [get?_resolve_apart perSample tree' conflict path (outside conflict member)
    (apart conflict member), same]

theorem get?_resolveAll_quiet (perSample : List Node) (conflicts : List Conflict) (tree : Node)
    (path : Path) (quiet : ∀ conflict ∈ conflicts, conflict.path = path ∧ conflict.settles? = none) :
    ((resolveAll perSample conflicts tree).get? path).map isObject =
        (tree.get? path).map isObject ∧
      ∀ step, (resolveAll perSample conflicts tree).get? (path ++ [step]) =
        (tree.get? path).bind (step? step) := by
  constructor
  · apply map_get?_resolveAll isObject isObject_update_cons
    · intro conflict _ name _ isRequired node
      exact isObject_requireProperty name isRequired node
    · exact fun conflict member => .inl (quiet conflict member).2
  · intro step
    rw [get?_resolveAll_apart, get?_append]
    · congr 1
      funext node
      exact get?_single step node
    · intro conflict member inside
      rw [(quiet conflict member).1] at inside
      simpa using inside.length_le
    · exact fun conflict member => .inl (quiet conflict member).2

end Conflict

namespace Run

open Conflict

def before (run : Run) (path : Path) : Node :=
  resolveAll run.comparison.perSample (run.conflicts.filter fun conflict => conflict.path < path)
    run.comparison.merged

def through (run : Run) (path : Path) : Node :=
  resolveAll run.comparison.perSample
    (run.conflicts.filter fun conflict => !decide (path < conflict.path)) run.comparison.merged

section Regular

variable {run : Run} (regular : run.Regular)

include regular

theorem through_eq {entry : Occurrence} (listed : entry ∈ run.occurrences.entries) :
    run.through entry.path = resolveAll run.comparison.perSample
      ((onType? entry).toList ++ besidesType run.occurrences entry) (run.before entry.path) := by
  obtain ⟨former, latter, split, earlier, later⟩ := conflicts_split regular listed
  have own : ∀ conflict ∈ (onType? entry).toList ++ besidesType run.occurrences entry,
      conflict.path = entry.path := by
    intro conflict member
    rcases List.mem_append.mp member with onType | beside
    · exact (mem_onType (Option.mem_toList.mp onType)).1
    · exact (besidesType_cases beside).1
  have past : run.conflicts.filter (fun conflict => decide (conflict.path < entry.path)) = former := by
    rw [split, List.filter_append, List.filter_append, List.filter_eq_self.mpr,
      List.filter_eq_nil_iff.mpr, List.filter_eq_nil_iff.mpr, List.append_nil, List.append_nil]
    · intro conflict member
      simpa using asymm_of (· < ·) (later conflict member)
    · intro conflict member
      simp [own conflict member]
    · intro conflict member
      simpa using earlier conflict member
  have present : run.conflicts.filter (fun conflict => !decide (entry.path < conflict.path)) =
      former ++ ((onType? entry).toList ++ besidesType run.occurrences entry) := by
    rw [split, List.filter_append, List.filter_append, List.filter_eq_self.mpr,
      List.filter_eq_self.mpr, List.filter_eq_nil_iff.mpr, List.append_nil]
    · intro conflict member
      simpa using later conflict member
    · intro conflict member
      simp [own conflict member]
    · intro conflict member
      simpa using asymm_of (· < ·) (earlier conflict member)
  rw [through, present, resolveAll_append, before, past]

theorem conflicts_sorted :
    run.conflicts.Pairwise fun earlier later => ¬ later.path < earlier.path := by
  rw [regular.classified]
  exact classify_sorted _ (ordered_entries regular)

theorem initial_through (path : Path) : run.conflicts.Pairwise fun first second =>
    (!decide (path < second.path)) = true → (!decide (path < first.path)) = true := by
  apply (conflicts_sorted regular).imp
  intro first second notLess notAfter
  simp only [Bool.not_eq_true', decide_eq_false_iff_not] at notAfter ⊢
  intro greater
  rcases Path.eq_or_lt_of_not_lt notLess with same | sooner
  · exact notAfter (same ▸ greater)
  · exact notAfter (trans_of (· < ·) greater sooner)

theorem before_eq {path later : Path} (less : path < later) :
    run.before later = resolveAll run.comparison.perSample
      (run.conflicts.filter fun conflict =>
        decide (conflict.path < later) && decide (path < conflict.path)) (run.through path) := by
  have implied : ∀ conflict ∈ run.conflicts, (!decide (path < conflict.path)) = true →
      decide (conflict.path < later) = true := by
    intro conflict _ notAfter
    simp only [Bool.not_eq_true', decide_eq_false_iff_not] at notAfter
    rw [decide_eq_true_iff]
    rcases Path.eq_or_lt_of_not_lt notAfter with same | sooner
    · exact same ▸ less
    · exact trans_of (· < ·) sooner less
  rw [before, filter_eq_append (initial_through regular path) implied, resolveAll_append, through]
  simp only [Bool.not_not]

theorem resolved_eq (path : Path) :
    run.resolved = resolveAll run.comparison.perSample
      (run.conflicts.filter fun conflict => decide (path < conflict.path)) (run.through path) := by
  have parts : run.conflicts =
      run.conflicts.filter (fun conflict => !decide (path < conflict.path)) ++
        run.conflicts.filter fun conflict => decide (path < conflict.path) := by
    have split : run.conflicts.filter (fun _ => true) = _ :=
      filter_eq_append (initial_through regular path) (fun _ _ _ => rfl)
    simpa only [List.filter_true, Bool.true_and, Bool.not_not] using split
  rw [regular.resolved, through, ← resolveAll_append, ← parts]

theorem map_get?_through (key : String) (path : Path) :
    (run.resolved.get? path).map (Node.offer key) =
      ((run.through path).get? path).map (Node.offer key) := by
  rw [resolved_eq regular path]
  apply map_get?_resolveAll (Node.offer key) (Node.offer_update_cons key)
  · intro conflict _ name _ isRequired node
    exact Node.offer_requireProperty key name isRequired node
  · intro conflict member
    have less : path < conflict.path := by simpa using (List.mem_filter.mp member).2
    exact .inr (Path.not_prefix_of_lt conflict.path path less)

theorem get?_before (path : Path) (name : String) :
    (run.before (path ++ [.property name])).get? (path ++ [.property name]) =
      (run.through path).get? (path ++ [.property name]) := by
  rw [before_eq regular (Path.lt_append path (.property name) [])]
  apply get?_resolveAll_apart
  · intro conflict member
    obtain ⟨-, between⟩ := List.mem_filter.mp member
    simp only [Bool.and_eq_true, decide_eq_true_eq] at between
    exact Path.not_prefix_of_lt _ conflict.path between.1
  · intro conflict member
    obtain ⟨-, between⟩ := List.mem_filter.mp member
    simp only [Bool.and_eq_true, decide_eq_true_eq] at between
    refine .inr fun inside => ?_
    rcases List.prefix_concat_iff.mp inside with same | above
    · exact irrefl_of (· < ·) (path ++ [.property name]) (same ▸ between.1)
    · exact Path.not_prefix_of_lt conflict.path path between.2 above

section Names

variable (names : List String)

theorem merged_wellFormed :
    ∀ node ∈ (Node.gathered run.inferred names).merged, node.WellFormed False := by
  intro node member
  have inside := Gathered.merged_subset run.inferred names member
  change node ∈ (Node.gathered run.inferred names).all at inside
  rw [Node.all_gathered] at inside
  obtain ⟨tree, inferred, present⟩ := List.mem_filterMap.mp inside
  exact (regular.wellFormed tree inferred).get? present

/-- The object that a conflict borrows is the first of all samples. -/
theorem alike_template :
    Node.Alike (template? run.comparison.perSample (names.map .property) .object)
      ((Node.gathered run.inferred names).all.find? Node.isObject) := by
  have plain : ∀ tree ∈ run.inferred, ∀ node,
      (tree.degradeAll run.comparison.degraded).get? (names.map .property) = some node →
        decide (node.type = .object) = node.isObject := by
    intro tree inferred node present
    have noUnion := not_unionAt_names regular names _ List.prefix_rfl
    rw [Bool.eq_iff_iff, decide_eq_true_iff, Node.isObject_iff, Node.plainType?_eq_some_iff]
    refine (and_iff_right ?_).symm
    intro union
    exact noUnion ⟨_, (mem_perSample regular _).mpr ⟨tree, inferred, rfl⟩, node, present, union⟩
  have perSample : run.comparison.perSample =
      run.inferred.map (Node.degradeAll run.comparison.degraded) := by
    rw [regular.compared, Comparison.compare_eq]
  rw [Node.all_gathered, template?, perSample, List.filterMap_map]
  generalize run.inferred = trees at plain
  induction trees with
  | nil => exact Node.Alike.refl none
  | cons tree rest ih =>
      obtain ⟨own, others⟩ := List.forall_mem_cons.mp plain
      have alike := Node.alike_degraded run.comparison.degraded names tree
      have kind := alike.isObject
      rw [List.filterMap_cons, List.filterMap_cons, Function.comp_apply]
      revert alike kind own
      generalize (tree.degradeAll run.comparison.degraded).get? (names.map .property) = degraded
      generalize tree.get? (names.map .property) = former
      intro own alike kind
      cases degraded with
      | none =>
          cases former with
          | none => exact ih others
          | some node => cases kind
      | some node =>
          cases former with
          | none => cases kind
          | some node' =>
              have same : decide (node.type = .object) = node'.isObject :=
                (own node rfl).trans (Option.some.inj kind)
              simp only [List.find?_cons]
              rw [same]
              cases node'.isObject with
              | true => exact alike
              | false => exact ih others

theorem alike_child_of_merged {found : Option Node}
    (alike : Node.Alike found (Node.mergedAt? run.inferred names))
    (object : found.map Node.isObject = some true) (key : String) :
    Node.Alike (found.bind (Node.step? (.property key)))
      (Node.mergedAt? run.inferred (names ++ [key])) := by
  obtain ⟨kind, children⟩ := Node.step?_mergeAll_latest (merged_wellFormed regular names)
  rw [alike.isObject] at object
  obtain ⟨merged, joined, own⟩ := Option.map_eq_some_iff.mp object
  rw [Node.mergedAt?, Node.merged_gathered,
    Gathered.counted_of_latest ((kind merged joined).mp own), ← children key]
  exact alike.step key

theorem alike_child_of_template {node sample : Node}
    (alike : Node.Alike (some node) (Node.mergedAt? run.inferred names))
    (other : node.isObject = false)
    (lent : template? run.comparison.perSample (names.map .property) .object = some sample)
    (key : String) :
    Node.Alike (sample.step? (.property key))
      (Node.mergedAt? run.inferred (names ++ [key])) := by
  obtain ⟨kind, -⟩ := Node.step?_mergeAll_latest (merged_wellFormed regular names)
  have none : Gathered.latest Node.isObject (Node.gathered run.inferred names).merged = [] := by
    by_contra some
    have same := alike.isObject
    rw [Node.mergedAt?] at same
    cases joined : Node.mergeAll? (Node.gathered run.inferred names).merged with
    | none => simp [joined] at same
    | some merged =>
        rw [joined, Option.map_some, Option.map_some, other, (kind merged joined).mpr some] at same
        cases same
  have borrowed := (alike_template regular names).step key
  rw [lent, Option.bind_some] at borrowed
  rw [Node.mergedAt?, Node.merged_gathered, Gathered.counted_of_none none]
  cases first : (Node.gathered run.inferred names).all.find? Node.isObject with
  | none => simpa [first, Node.mergeAll?] using borrowed
  | some object =>
      rw [first, Option.bind_some] at borrowed
      cases child : object.step? (.property key) <;>
        simpa [child, Node.mergeAll?] using borrowed

theorem plain_before {node : Node}
    (present : (run.before (names.map .property)).get? (names.map .property) = some node) :
    node.plainType? ≠ none := by
  have drawn : AllDrawn run.comparison.perSample run.conflicts (run.before (names.map .property)) := by
    apply resolveAll_allDrawn _ fun conflict member => (List.mem_filter.mp member).1
    rw [regular.compared]
    exact allDrawn_compare regular.wellFormed regular.joined
  have noUnion := not_unionAt_names regular names
  intro union
  apply noUnion _ List.prefix_rfl
  exact (drawn _ node (fun other _ _ above _ => noUnion other.path above) present).unionAt union

/-- A conflict that settles on an object keeps the one that was merged, or borrows one. -/
theorem alike_child_of_settled {conflict : Conflict} {type : ValueType} {node : Node}
    (member : conflict ∈ run.conflicts) (place : conflict.path = names.map .property)
    (settles : conflict.settles? = some type) (plain : node.plainType? ≠ none)
    (alike : Node.Alike (some node) (Node.mergedAt? run.inferred names))
    (object : (settling run.comparison.perSample conflict node).isObject = true) (key : String) :
    Node.Alike ((settling run.comparison.perSample conflict node).step? (.property key))
      (Node.mergedAt? run.inferred (names ++ [key])) := by
  obtain rfl : type = .object := by
    rw [← type_settling run.comparison.perSample conflict type node settles]
    exact ((Node.plainType?_eq_some_iff _ _).mp ((Node.isObject_iff _).mp object)).2
  have resolution : conflict.resolution = .dataType .object := by
    cases resolution : conflict.resolution <;> simp_all [settles?]
  have noUnion := not_unionAt_names regular names _ List.prefix_rfl
  obtain ⟨sample, lent, own⟩ :=
    template_of_dataType regular member resolution (by simp) (place ▸ noUnion)
  obtain ⟨label, made⟩ := settling_object resolution plain lent own
  rw [place] at lent
  rw [made, Node.step?_relabel]
  by_cases already : node.type = .object
  · have object : node.isObject = true :=
      (Node.isObject_iff node).mpr ((Node.plainType?_eq_some_iff _ _).mpr ⟨plain, already⟩)
    rw [if_pos already]
    exact alike_child_of_merged regular names alike (by rw [Option.map_some, object]) key
  · rw [if_neg already]
    apply alike_child_of_template regular names alike _ lent key
    rw [Bool.eq_false_iff]
    intro object
    exact already ((Node.plainType?_eq_some_iff _ _).mp ((Node.isObject_iff _).mp object)).2

/-- What the resolutions at one place make of an object there. -/
theorem alike_through {entry : Occurrence} (listed : entry ∈ run.occurrences.entries)
    (place : entry.path = names.map .property)
    (alike : Node.Alike ((run.before (names.map .property)).get? (names.map .property))
      (Node.mergedAt? run.inferred names))
    (object : ((run.through (names.map .property)).get? (names.map .property)).map Node.isObject =
      some true) (key : String) :
    Node.Alike ((run.through (names.map .property)).get? (names.map .property ++ [.property key]))
      (Node.mergedAt? run.inferred (names ++ [key])) := by
  let settled := resolveAll run.comparison.perSample (onType? entry).toList
    (run.before (names.map .property))
  have stages : run.through (names.map .property) = resolveAll run.comparison.perSample
      (besidesType run.occurrences entry) settled := by
    rw [← place, through_eq regular listed, resolveAll_append, place]
  -- the conflict on the type comes first at its path, and none after it settles anything there
  have quiet : ∀ conflict ∈ besidesType run.occurrences entry,
      conflict.path = names.map .property ∧ conflict.settles? = none := by
    intro conflict member
    obtain ⟨own, -, silent⟩ := besidesType_cases member
    exact ⟨own.trans place, silent⟩
  obtain ⟨same, below⟩ := get?_resolveAll_quiet run.comparison.perSample _ settled _ quiet
  have kind : (settled.get? (names.map .property)).map Node.isObject = some true := by
    rw [← same, ← stages]
    exact object
  rw [stages, below]
  clear stages same below object
  cases found : onType? entry with
  | none =>
      have same : settled = run.before (names.map .property) := by
        simp [settled, found, resolveAll]
      rw [same] at kind ⊢
      exact alike_child_of_merged regular names alike kind key
  | some conflict =>
      have own := (mem_onType found).1.trans place
      obtain ⟨type, settles, -⟩ := decidesFor_of_onType (increasing_types regular listed) found
      have same : settled.get? (names.map .property) =
          ((run.before (names.map .property)).get? (names.map .property)).map
            (settling run.comparison.perSample conflict) := by
        simp only [settled, found, Option.toList_some, resolveAll, List.foldl_cons, List.foldl_nil]
        rw [resolve_of_settles _ _ conflict (by simp [settles]), own]
        simpa [Option.map_eq_bind, Function.comp_def] using Node.get?_update_below
          (settling run.comparison.perSample conflict) (names.map .property) [] (run.before _)
      rw [same] at kind ⊢
      obtain ⟨changed, present, isObject⟩ := Option.map_eq_some_iff.mp kind
      obtain ⟨node, here, rfl⟩ := Option.map_eq_some_iff.mp present
      rw [here] at alike ⊢
      exact alike_child_of_settled regular names (onType_mem_conflicts regular listed found) own
        settles (plain_before regular names here) alike isObject key

/-- Along names an object leads on as the objects do that are counted there. -/
theorem alike_counted
    (object : ((run.through (names.map .property)).get? (names.map .property)).map Node.isObject =
      some true) (key : String) :
    Node.Alike ((run.through (names.map .property)).get? (names.map .property ++ [.property key]))
      (Node.mergedAt? run.inferred (names ++ [key])) := by
  induction names using List.reverseRecOn generalizing key with
  | nil =>
      -- no conflict is about the root, so it is still the merged one
      have none : run.conflicts.filter (fun conflict => !decide (([] : Path) < conflict.path)) = [] := by
        apply List.filter_eq_nil_iff.mpr
        intro conflict member
        obtain ⟨entry, listed, place, -⟩ := mem_conflicts regular member
        obtain ⟨tabular, -⟩ := (mem_table_iff regular _).mp (List.mem_map_of_mem listed)
        obtain ⟨first, rest, same⟩ := tabular.head_property
        have later : ([] : Path) < conflict.path := by
          rw [← place, same]
          exact Path.lt_append [] (.property first) rest
        simp [later]
      have start : run.through [] = run.comparison.merged := by
        rw [through, none]
        rfl
      rw [List.map_nil, start] at object ⊢
      have alike : Node.Alike (some run.comparison.merged) (Node.mergeAll? run.inferred) := by
        rw [regular.joined, regular.compared, Comparison.compare_eq]
        exact Node.alike_degraded _ [] run.merged
      have child := alike_child_of_merged regular [] alike object key
      simpa using child
  | append_singleton names name ih =>
      have spelled : (names ++ [name]).map Step.property =
          names.map .property ++ [.property name] := by simp
      have listed : (names ++ [name]).map Step.property ∈
          run.occurrences.entries.map Occurrence.path := by
        have kept := congrArg Option.isSome
          (map_get?_through regular key ((names ++ [name]).map .property))
        have there := congrArg Option.isSome object
        simp only [Option.isSome_map, Option.isSome_some] at kept there
        obtain ⟨child, found⟩ := Option.isSome_iff_exists.mp (kept.trans there)
        rw [spelled] at found ⊢
        obtain ⟨node, own, above, next, -⟩ := Node.exists_step_of_get? found
        exact recorded_of_names regular names name above (by simp [Node.leadsTo, next])
      obtain ⟨entry, listed, place⟩ := List.mem_map.mp listed
      apply alike_through regular (names ++ [name]) listed place _ object key
      rw [spelled, get?_before regular]
      apply ih
      have before : ((run.before entry.path).get? entry.path).isSome = true := by
        have kept := isSome_get?_resolveAll run.comparison.perSample
          ((onType? entry).toList ++ besidesType run.occurrences entry) (run.before entry.path)
          entry.path ?_
        · rw [← kept, ← through_eq regular listed, place]
          simpa using congrArg Option.isSome object
        · intro conflict member _ _
          rcases List.mem_append.mp member with onType | beside
          · exact (mem_onType (Option.mem_toList.mp onType)).1
          · exact (besidesType_cases beside).1
      rw [place, spelled, get?_before regular] at before
      obtain ⟨child, found⟩ := Option.isSome_iff_exists.mp before
      obtain ⟨node, own, above, next, -⟩ := Node.exists_step_of_get? found
      rw [above, Option.map_some, (Node.isObject_iff node).mpr (Node.plainType?_of_step? next)]

theorem exists_counted_iff (key : String) :
    (∃ node ∈ (Node.gathered run.inferred names).counted Node.isObject, node.leadsTo key = true) ↔
      ∃ value ∈ Json.counted run.samples names, (value.member? key).isSome = true := by
  obtain ⟨settings, each⟩ := inferred_forall₂ regular
  let related : Json → Node → Prop :=
    fun value node => ∃ depth, Node.infer settings depth value = .ok node
  have objects : ∀ value node, related value node → value.isObject = node.isObject := by
    intro value node read
    obtain ⟨depth, inferred⟩ := read
    exact Node.isObject_infer inferred
  have children : ∀ value node, related value node → ∀ name,
      Option.Rel related (value.member? name) (node.step? (.property name)) := by
    intro value node read name
    obtain ⟨depth, inferred⟩ := read
    rcases Node.step?_infer name inferred with ⟨absent, none⟩ | ⟨part, child, present, some, inner⟩
    · rw [absent, none]
      exact .none
    · rw [present, some]
      exact .some ⟨depth + 1, inner⟩
  have started : List.Forall₂ related run.samples run.inferred :=
    each.imp fun _ _ read => ⟨0, read⟩
  obtain ⟨all, merged⟩ := Gathered.forall₂_atNames objects children started names
  have counted : List.Forall₂ related (Json.counted run.samples names)
      ((Node.gathered run.inferred names).counted Node.isObject) :=
    Gathered.forall₂_counted objects all merged
  have known : ∀ value node, related value node →
      (value.member? key).isSome = node.leadsTo key := by
    intro value node read
    have below := children value node read key
    rw [Node.leadsTo]
    generalize value.member? key = part at below
    generalize node.step? (.property key) = child at below
    cases below <;> rfl
  revert counted
  generalize Json.counted run.samples names = values
  generalize (Node.gathered run.inferred names).counted Node.isObject = nodes
  intro counted
  induction counted with
  | nil => simp
  | @cons value node _ _ head _ ih =>
      simp only [List.mem_cons, exists_eq_or_imp, ih, known value node head]

end Names

end Regular

/-- An object of the finished schema has exactly the keys that the counted objects of the samples
have. -/
theorem stored_keys_iff (settings : Settings) (source : Source) (samples : List Json) (run : Run)
    (ordered : ∀ sample ∈ samples, sample.Ordered)
    (finished : generate settings source samples = .ok run) (names : List String) (label : Label)
    (properties : List (String × Node)) (required : List String)
    (present : run.stored.get? (names.map .property) = some (.object label properties required))
    (key : String) :
    key ∈ Keyed.keys properties ↔
      ∃ value ∈ Json.counted run.samples names, (value.member? key).isSome = true := by
  have regular := regular_of_generate ordered finished
  have kept := map_get?_stored regular (Node.offer key) (Node.offer_update_cons key)
    (Node.offer_relabel key) (Node.offer_store key) (names.map .property)
  rw [present, map_get?_through regular key, Option.map_some] at kept
  obtain ⟨node, here, same⟩ := Option.map_eq_some_iff.mp kept.symm
  obtain ⟨plain, leads⟩ := Prod.mk.inj same
  have object : ((run.through (names.map .property)).get? (names.map .property)).map Node.isObject =
      some true := by
    rw [here, Option.map_some, (Node.isObject_iff node).mpr plain]
  have below := (alike_counted regular names object key).isSome
  rw [Node.get?_append, here, Option.bind_some, Node.get?_single, Node.mergedAt?, Node.merged_gathered,
    Node.mergeAll_isSome] at below
  have counted : key ∈ Keyed.keys properties ↔
      ∃ node ∈ (Node.gathered run.inferred names).counted Node.isObject, node.leadsTo key = true := by
    have shown : (Node.object label properties required).leadsTo key = true ↔
        key ∈ Keyed.keys properties := Keyed.lookup_isSome_iff key properties
    rw [← shown, ← leads, Node.leadsTo, below]
    simp only [Bool.not_eq_true', List.isEmpty_eq_false_iff_exists_mem, List.mem_filterMap,
      Node.leadsTo, Option.isSome_iff_exists]
    constructor
    · intro found
      obtain ⟨child, node, member, next⟩ := found
      exact ⟨node, member, child, next⟩
    · intro found
      obtain ⟨node, member, child, next⟩ := found
      exact ⟨child, node, member, next⟩
  rw [counted]
  exact exists_counted_iff regular names key

/-- The first sample's object is given up for the last one's null, and lends its shape again; what
the second sample has is lost. -/
theorem stored_keys_iff_first :
    let samples := [Json.object [("a", .object [("b", .bool true)])],
      .object [("a", .object [("c", .bool true)])], .object [("a", .null)]]
    ∃ run label properties required, (∀ sample ∈ samples, sample.Ordered) ∧
      generate {} { dataset := "events" } samples = .ok run ∧
        run.stored.get? (["a"].map .property) = some (.object label properties required) ∧
          ∀ key, key ∈ Keyed.keys properties ↔ key = "b" := by
  intro samples
  have ordered : ∀ sample ∈ samples, sample.Ordered := Json.ordered_of_sorted samples (by rfl)
  have finished : ∃ run, generate {} { dataset := "events" } samples = .ok run ∧
      run.samples = samples ∧ ∃ label properties required,
        run.stored.get? [.property "a"] = some (.object label properties required) :=
    ⟨_, rfl, rfl, _, _, _, rfl⟩
  obtain ⟨run, made, same, label, properties, required, present⟩ := finished
  refine ⟨run, label, properties, required, ordered, made, present, fun key => ?_⟩
  have known := stored_keys_iff {} { dataset := "events" } samples run ordered made ["a"] label
    properties required present key
  have counted : Json.counted samples ["a"] = [.object [("b", .bool true)]] := by rfl
  rw [known, same, counted]
  simp [Json.member?, Keyed.lookup]

/-- An object that a conflict settles on need not have all keys of the objects there. -/
theorem stored_keys_lost :
    let samples := [Json.object [("a", .object [("b", .bool true)])],
      .object [("a", .object [("c", .bool true)])], .object [("a", .null)]]
    ¬ ∀ run, generate {} { dataset := "events" } samples = .ok run →
      ∀ names : List String, (∃ conflict ∈ run.conflicts, conflict.path = names.map .property ∧
          conflict.resolution = .dataType .object) →
        ∀ label properties required,
          run.stored.get? (names.map .property) = some (.object label properties required) →
            ∀ sample ∈ run.samples, ∀ members,
              Source.follow names sample = some (.object members) →
                ∀ key ∈ Keyed.keys members, key ∈ Keyed.keys properties := by
  intro samples every
  have finished : ∃ run, generate {} { dataset := "events" } samples = .ok run ∧
      run.samples = samples ∧
        (∃ conflict ∈ run.conflicts, conflict.path = ["a"].map .property ∧
          conflict.resolution = .dataType .object) ∧
          ∃ label properties required,
            run.stored.get? (["a"].map .property) = some (.object label properties required) ∧
              "c" ∉ Keyed.keys properties :=
    ⟨_, rfl, rfl, by decide, _, _, _, rfl, by decide⟩
  obtain ⟨run, made, same, settled, label, properties, required, present, lost⟩ := finished
  apply lost
  apply every run made ["a"] settled label properties required present
    (.object [("a", .object [("c", .bool true)])]) (by simp [same, samples]) [("c", .bool true)] rfl
  simp [Keyed.keys]

end Run

end EventSchema
