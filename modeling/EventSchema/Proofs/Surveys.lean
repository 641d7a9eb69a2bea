import EventSchema.Proofs.Finishing
import EventSchema.Proofs.Provenance
import EventSchema.Proofs.Runs

namespace EventSchema

namespace Path

/-- The container of a field is what its object lies in: the object itself, or the array around it. -/
theorem container_append_property (outer : Path) (name : String) :
    container (outer ++ [.property name]) = (outer.reverse.dropWhile (· = .items)).reverse := by
  rw [container, List.dropLast_concat]

theorem container_prefix (outer : Path) (name : String) :
    container (outer ++ [.property name]) <+: outer := by
  rw [container_append_property, ← List.reverse_suffix, List.reverse_reverse]
  exact List.dropWhile_suffix _

section Tabular

variable {path : Path} (tabular : Tabular path) (name : String)

include tabular

theorem container_child : container (path.child name) = path := by
  obtain ⟨front, last, rfl⟩ := tabular.last_property
  rw [child, container_append_property]
  simp

theorem container_items_child : container (path.items.child name) = path := by
  obtain ⟨front, last, rfl⟩ := tabular.last_property
  rw [child, items, container_append_property]
  simp

end Tabular

theorem Tabular.container {outer : Path} {name : String}
    (tabular : Tabular (outer ++ [.property name])) :
    Path.container (outer ++ [.property name]) = [] ∨
      Tabular (Path.container (outer ++ [.property name])) := by
  rcases tabular.outer_cases with ⟨rfl, -⟩ | inner | ⟨array, -, rfl, inner, -⟩
  · exact .inl rfl
  · exact .inr ((container_child inner name).symm ▸ inner)
  · exact .inr ((container_items_child inner name).symm ▸ inner)

end Path

namespace Run

open Conflict

variable {run : Run} (regular : run.Regular)

include regular

theorem perSample_wellFormed : ∀ tree ∈ run.comparison.perSample, tree.WellFormed True := by
  rw [regular.compared]
  exact Comparison.compare_wellFormed regular.wellFormed run.merged

theorem mem_perSample (tree : Node) :
    tree ∈ run.comparison.perSample ↔
      ∃ former ∈ run.inferred, former.degradeAll run.comparison.degraded = tree := by
  rw [regular.compared, Comparison.compare_eq]
  exact List.mem_map

theorem uncut_of_sampled {path : Path} {sample found : Node}
    (member : sample ∈ run.comparison.perSample) (present : sample.get? path = some found) :
    ¬ Node.Cut run.comparison.degraded path := by
  rcases (mem_perSample regular sample).mp member with ⟨former, -, rfl⟩
  exact Node.uncut_of_get?_degradeAll present

theorem perSample_of_inferred {tree node : Node} {path : Path} (inferred : tree ∈ run.inferred)
    (uncut : ¬ Node.Cut run.comparison.degraded path) (present : tree.get? path = some node) :
    ∃ sample ∈ run.comparison.perSample, ∃ found, sample.get? path = some found ∧
      found.plainType? = node.plainType? := by
  have kept := Node.plainType?_get?_degradeAll run.comparison.degraded path tree uncut
  rcases Node.exists_of_map_get? kept.symm present with ⟨found, here, same⟩
  exact ⟨_, (mem_perSample regular _).mpr ⟨tree, inferred, rfl⟩, found, here, same⟩

theorem inferred_of_perSample {sample found : Node} {path : Path}
    (member : sample ∈ run.comparison.perSample) (present : sample.get? path = some found) :
    ∃ tree ∈ run.inferred, ∃ node, tree.get? path = some node ∧
      node.plainType? = found.plainType? := by
  have uncut := uncut_of_sampled regular member present
  rcases (mem_perSample regular sample).mp member with ⟨former, inferred, rfl⟩
  have kept := Node.plainType?_get?_degradeAll run.comparison.degraded path former uncut
  rcases Node.exists_of_map_get? kept present with ⟨node, here, same⟩
  exact ⟨former, inferred, node, here, same⟩

theorem stored_wellFormed : run.stored.WellFormed True := by
  have merged := Node.mergeAll_wellFormed regular.wellFormed regular.joined
  have degraded : run.comparison.merged.WellFormed True := by
    rw [regular.compared, Comparison.compare_eq]
    exact Node.degradeAll_wellFormed _ run.merged
      (merged.weaken fun impossible => impossible.elim)
  rw [regular.stored, regular.resolved]
  exact Node.mapTypes_wellFormed _ (annotateAll_wellFormed _ _
    (resolveAll_wellFormed (perSample_wellFormed regular) _ _ degraded))

theorem mem_table_iff (path : Path) :
    path ∈ run.occurrences.entries.map Occurrence.path ↔
      Path.Tabular path ∧ ∃ tree ∈ run.comparison.perSample, ∃ node, tree.get? path = some node := by
  rw [regular.tabulated, Occurrences.mem_path_entries]
  constructor
  · intro recorded
    rcases recorded with ⟨fields, sampled, listed⟩
    rcases List.mem_map.mp sampled with ⟨tree, member, rfl⟩
    obtain ⟨tabular, found⟩ :=
      (tree.mem_fields_path_iff (perSample_wellFormed regular tree member) path).mp listed
    exact ⟨tabular, tree, member, found⟩
  · intro shown
    rcases shown with ⟨tabular, tree, member, found⟩
    exact ⟨tree.fields, List.mem_map_of_mem member,
      (tree.mem_fields_path_iff (perSample_wellFormed regular tree member) path).mpr
        ⟨tabular, found⟩⟩

theorem eq_occurrence {entry : Occurrence} (listed : entry ∈ run.occurrences.entries) :
    entry = Occurrences.occurrence (run.comparison.perSample.map Node.fields) entry.path := by
  rw [regular.tabulated] at listed
  exact ((Occurrences.mem_entries _ entry).mp listed).2

theorem eq_of_path {first second : Occurrence} (one : first ∈ run.occurrences.entries)
    (other : second ∈ run.occurrences.entries) (same : first.path = second.path) :
    first = second := by
  rw [regular.tabulated] at one other
  exact Occurrences.eq_of_path _ one other same

theorem presence_occurrence {path : Path} (tabular : Path.Tabular path) :
    (Occurrences.occurrence (run.comparison.perSample.map Node.fields) path).presence =
      run.comparison.perSample.countP fun tree => (tree.get? path).isSome := by
  rw [Occurrences.presence_eq_countP, List.countP_map]
  apply List.countP_congr
  intro tree member
  have listed := tree.mem_fields_path_iff (perSample_wellFormed regular tree member) path
  simp only [Function.comp_apply, decide_eq_true_eq, listed, tabular, true_and,
    Option.isSome_iff_exists]

theorem containerPresence_eq_countP {entry : Occurrence}
    (listed : entry ∈ run.occurrences.entries) :
    run.occurrences.containerPresence entry.path =
      run.comparison.perSample.countP fun tree => (tree.get? entry.path.container).isSome := by
  obtain ⟨tabular, tree, member, node, present⟩ :=
    (mem_table_iff regular entry.path).mp (List.mem_map_of_mem listed)
  obtain ⟨outer, name, place⟩ := tabular.last_property
  rw [place] at tabular present ⊢
  rw [Occurrences.containerPresence]
  rcases tabular.container with top | inner
  · simp [top, regular.tabulated, Occurrences.tabulate]
  · have inside := (Path.container_prefix outer name).trans (List.prefix_append _ [.property name])
    obtain ⟨above, here⟩ := Node.get?_of_prefix _ _ tree node inside present
    have recorded := (mem_table_iff regular _).mpr ⟨inner, tree, member, above, here⟩
    have nonempty : (Path.container (outer ++ [.property name])).isEmpty = false := by
      obtain ⟨first, rest, same⟩ := inner.head_property
      rw [same]
      rfl
    rw [nonempty, if_neg Bool.false_ne_true, ← presence_occurrence regular inner]
    rw [regular.tabulated] at recorded ⊢
    rw [Occurrences.at?_of_mem _ _ recorded]
    rfl

theorem increasing_types {entry : Occurrence} (listed : entry ∈ run.occurrences.entries) :
    Keyed.Increasing entry.types := by
  rw [eq_occurrence regular listed]
  exact Occurrences.increasing_histogram _

theorem mem_types_iff {entry : Occurrence} (listed : entry ∈ run.occurrences.entries)
    (type : ValueType) :
    type ∈ Keyed.keys entry.types ↔
      ∃ tree ∈ run.comparison.perSample, ∃ node, tree.get? entry.path = some node ∧
        type ∈ node.recordedTypes := by
  have tabular : Path.Tabular entry.path :=
    ((mem_table_iff regular entry.path).mp (List.mem_map_of_mem listed)).1
  have counted : type ∈ Keyed.keys entry.types ↔
      ∃ fields ∈ run.comparison.perSample.map Node.fields, ∃ field ∈ fields,
        field.path = entry.path ∧ field.type = type := by
    rw [← Occurrences.mem_types, ← eq_occurrence regular listed]
  rw [counted]
  constructor
  · intro recorded
    rcases recorded with ⟨fields, sampled, shown⟩
    rcases List.mem_map.mp sampled with ⟨tree, member, rfl⟩
    exact ⟨tree, member, ((tree.mem_fields_type_iff (perSample_wellFormed regular tree member)
      entry.path type).mp shown).2⟩
  · intro shown
    rcases shown with ⟨tree, member, shown⟩
    exact ⟨tree.fields, List.mem_map_of_mem member,
      (tree.mem_fields_type_iff (perSample_wellFormed regular tree member) entry.path type).mpr
        ⟨tabular, shown⟩⟩

/-- Where no conflict on the type arises, the nodes of all samples have one type, which is no
union and not null. -/
theorem plain_of_agreement {entry : Occurrence} (listed : entry ∈ run.occurrences.entries)
    (found : onType? entry = none) (tree : Node) (member : tree ∈ run.comparison.perSample)
    (node : Node) (present : tree.get? entry.path = some node) :
    ∃ type, node.plainType? = some type ∧ type ≠ .null ∧ Keyed.keys entry.types = [type] ∧
      entry.DecidesFor type := by
  have shown : ∀ type ∈ node.recordedTypes, type ∈ Keyed.keys entry.types := by
    intro type recorded
    exact (mem_types_iff regular listed type).mpr ⟨tree, member, node, present, recorded⟩
  cases plain : node.plainType? with
  | some type =>
      have own := shown type (by simp [Node.recordedTypes_of_plain plain])
      exact ⟨type, rfl, decidesFor_of_single found own⟩
  | none =>
      cases node with
      | union label branches =>
          have wellFormed := (perSample_wellFormed regular tree member).get? present
          rcases wellFormed.union_types with ⟨first, second, rfl, different⟩
          have one := shown first.type (by simp [Node.recordedTypes])
          have other := shown second.type (by simp [Node.recordedTypes])
          rw [(decidesFor_of_single found one).2.1, List.mem_singleton] at other
          exact absurd other.symm different
      | _ => cases plain

theorem conflicts_split {entry : Occurrence} (listed : entry ∈ run.occurrences.entries) :
    ∃ before after, run.conflicts =
        before ++ ((onType? entry).toList ++ besidesType run.occurrences entry) ++ after ∧
      (∀ conflict ∈ before, conflict.path < entry.path) ∧
        ∀ conflict ∈ after, entry.path < conflict.path := by
  rw [regular.classified, ← ofOccurrence_eq]
  apply classify_split _ _ _ listed
  rw [regular.tabulated]
  exact Occurrences.entries_pairwise _

theorem onType_mem_conflicts {entry : Occurrence} {conflict : Conflict}
    (listed : entry ∈ run.occurrences.entries) (found : onType? entry = some conflict) :
    conflict ∈ run.conflicts := by
  rw [regular.classified]
  refine (mem_classify _ conflict).mpr ⟨entry, listed, ?_⟩
  rw [ofOccurrence_eq]
  exact List.mem_append_left _ (Option.mem_toList.mpr found)

theorem mem_conflicts {conflict : Conflict} (member : conflict ∈ run.conflicts) :
    ∃ entry ∈ run.occurrences.entries, entry.path = conflict.path ∧
      (onType? entry = some conflict ∨ conflict ∈ besidesType run.occurrences entry) := by
  rw [regular.classified] at member
  rcases (mem_classify _ conflict).mp member with ⟨entry, listed, own⟩
  refine ⟨entry, listed, (path_of_mem_ofOccurrence own).symm, ?_⟩
  rw [ofOccurrence_eq, List.mem_append, Option.mem_toList] at own
  exact own

theorem entry_of_asked {conflict : Conflict} {isRequired : Bool} (member : conflict ∈ run.conflicts)
    (resolution : conflict.resolution = .optional isRequired) :
    ∃ entry ∈ run.occurrences.entries, entry.path = conflict.path ∧
      run.occurrences.sampleCount > 1 ∧ ofRequired? run.occurrences entry = some conflict := by
  obtain ⟨entry, listed, place, own⟩ := mem_conflicts regular member
  refine ⟨entry, listed, place, ?_⟩
  rcases own with onType | beside
  · rcases (mem_onType onType).2 with ⟨-, rfl⟩ | ⟨-, rfl⟩ <;> cases resolution
  · rcases mem_besidesType.mp beside with required | formatted
    · exact required
    · obtain ⟨-, -, format, action, other⟩ := mem_ofFormats formatted
      rw [resolution] at other
      cases other

theorem kind_of_dataType {conflict : Conflict} (member : conflict ∈ run.conflicts)
    {type : ValueType} (resolution : conflict.resolution = .dataType type) :
    conflict.kind = .dataType := by
  rcases mem_conflicts regular member with ⟨entry, -, -, onType | beside⟩
  · rcases (mem_onType onType).2 with ⟨-, rfl⟩ | ⟨-, rfl⟩
    · cases resolution
    · rfl
  · have settled := (besidesType_cases beside).2.2
    simp [settles?, resolution] at settled

theorem allDrawn_resolved :
    AllDrawn run.comparison.perSample run.conflicts run.resolved := by
  rw [regular.resolved]
  apply resolveAll_allDrawn run.conflicts (fun _ member => member)
  rw [regular.compared]
  exact allDrawn_compare regular.wellFormed regular.joined

/-- What is drawn at a listed path is in the table: it is a sample's, or has an entry that is in
conflict. -/
theorem recorded_of_drawn {path : Path} {node : Node} (tabular : Path.Tabular path)
    (drawn : Drawn run.comparison.perSample run.conflicts path node) :
    path ∈ run.occurrences.entries.map Occurrence.path := by
  rcases drawn with ⟨tree, member, sample, there, -⟩ | ⟨⟨conflict, member, place, -⟩, -⟩
  · exact (mem_table_iff regular path).mpr ⟨tabular, tree, member, sample, there⟩
  · rcases mem_conflicts regular member with ⟨entry, listed, place', -⟩
    exact List.mem_map.mpr ⟨entry, listed, place'.trans place⟩

theorem map_get?_stored {α : Type} (view : Node → α)
    (below : ∀ change step rest node, view (node.update change (step :: rest)) = view node)
    (relabelled : ∀ label node, view (node.relabel label) = view node)
    (stored : ∀ node : Node, view node.store = view node) (path : Path) :
    (run.stored.get? path).map view = (run.resolved.get? path).map view := by
  rw [regular.stored]
  exact map_get?_finished view below relabelled stored run.conflicts run.resolved path

end Run

end EventSchema
