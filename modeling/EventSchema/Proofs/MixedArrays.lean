import EventSchema.Proofs.DegradedTrees
import EventSchema.Proofs.NamedPaths
/-!
Where the finished schema has mixed arrays. Merging may put another kind of node in the place of a
degraded array; when a conflict makes an array of it again, it borrows the mixed array of a sample.
-/
namespace EventSchema

theorem Path.exists_names {path : Path} (named : Step.items ∉ path) :
    ∃ names : List String, path = names.map .property := by
  induction path with
  | nil => exact ⟨[], rfl⟩
  | cons step path ih =>
      rcases not_or.mp (mt List.mem_cons.mpr named) with ⟨different, later⟩
      rcases ih later with ⟨names, rfl⟩
      cases step with
      | property name => exact ⟨name :: names, rfl⟩
      | items => exact absurd rfl different

namespace Node

def form (node : Node) : Option ValueType × Bool := (node.plainType?, node.isMixedArray)

theorem form_update_cons (change : Node → Node) (step : Step) (rest : Path) (node : Node) :
    (node.update change (step :: rest)).form = node.form := by
  rcases update_cons_cases change step rest node with same | ⟨_, _, _, _, rfl, same⟩ |
    ⟨_, _, _, rfl, same⟩ <;> rw [same] <;> rfl

theorem form_relabel (label : Label) (node : Node) : (node.relabel label).form = node.form := by
  cases node <;> rfl

theorem form_store (node : Node) : node.store.form = node.form := by
  cases node <;> rfl

end Node

theorem Conflict.exists_template {perSample : List Node} {path : Path} {type : ValueType}
    {tree node : Node} (sampled : tree ∈ perSample) (present : tree.get? path = some node)
    (own : node.type = type) :
    ∃ sample, template? perSample path type = some sample ∧ sample.type = type := by
  have found : (template? perSample path type).isSome := by
    rw [template?, List.find?_isSome]
    exact ⟨node, List.mem_filterMap.mpr ⟨tree, sampled, present⟩, decide_eq_true own⟩
  rcases Option.isSome_iff_exists.mp found with ⟨sample, lent⟩
  have fits := lent
  rw [template?] at fits
  exact ⟨sample, lent, by simpa using List.find?_some fits⟩

namespace Run

open Conflict

variable {run : Run} (regular : run.Regular)

include regular

theorem names_of_degraded {place : Path} (degraded : place ∈ run.comparison.degraded) :
    ∃ names : List String, place = names.map .property := by
  rw [regular.compared, Comparison.compare_eq] at degraded
  exact Path.exists_names (Comparison.items_not_mem_degraded regular.wellFormed place degraded)

theorem perSample_marked (sample : Node) (member : sample ∈ run.comparison.perSample) :
    Node.MarkedFrom run.comparison.degraded [] sample := by
  rcases (mem_perSample regular sample).mp member with ⟨tree, inferred, rfl⟩
  exact Node.markedFrom_degradeAll _ tree (regular.wellFormed tree inferred)

theorem merged_marked : Node.MarkedFrom run.comparison.degraded [] run.comparison.merged := by
  rw [regular.compared, Comparison.compare_eq]
  exact Node.markedFrom_degradeAll _ run.merged
    (Node.mergeAll_wellFormed regular.wellFormed regular.joined)

/-- Where a conflict settles on a type other than null, and no sample has a union, some sample has a
node of that type. -/
theorem template_of_dataType {conflict : Conflict} {type : ValueType}
    (member : conflict ∈ run.conflicts) (resolution : conflict.resolution = .dataType type)
    (concrete : type ≠ .null) (noUnion : ¬ UnionAt run.comparison.perSample conflict.path) :
    ∃ sample, template? run.comparison.perSample conflict.path type = some sample ∧
      sample.type = type := by
  rcases mem_conflicts regular member with ⟨entry, listed, own, onType | beside⟩
  · rcases (mem_onType onType).2 with ⟨-, rfl⟩ | ⟨several, rfl⟩
    · cases resolution
    · have settled : majorityType entry.types = type := by simpa [ofTypes] using resolution
      have decided := decidesFor_majorityType entry (increasing_types regular listed) several
      rw [settled, Occurrence.DecidesFor] at decided
      split at decided
      · exact absurd decided concrete
      · rcases decided with ⟨-, most, counted, -⟩
        have shown : type ∈ Keyed.keys entry.types := List.mem_map.mpr ⟨_, counted, rfl⟩
        rcases (mem_types_iff regular listed type).mp shown with
          ⟨tree, sampled, node, present, recorded⟩
        rw [own] at present
        cases plain : node.plainType? with
        | none => exact absurd ⟨tree, sampled, node, present, plain⟩ noUnion
        | some other =>
            rw [Node.recordedTypes_of_plain plain, List.mem_singleton] at recorded
            have same : node.type = type := by
              rw [((Node.plainType?_eq_some_iff node other).mp plain).2, recorded]
            exact exists_template sampled present same
  · have settled := (besidesType_cases beside).2.2
    simp [settles?, resolution] at settled

/-- A union lies above no degraded path, for no sample has one on the way along names. -/
theorem not_above_degraded {tree node : Node} {path : Path}
    (drawn : AllDrawn run.comparison.perSample run.conflicts tree)
    (present : tree.get? path = some node) (union : node.plainType? = none) :
    ∀ place ∈ run.comparison.degraded, ¬ path <+: place := by
  intro place degraded inside
  rcases names_of_degraded regular degraded with ⟨names, rfl⟩
  have clear : Clear run.comparison.perSample run.conflicts path := by
    intro other _ _ above _
    exact not_unionAt_names regular names other.path (above.trans inside)
  exact not_unionAt_names regular names path inside ((drawn path node clear present).unionAt union)

theorem resolve_marked {tree : Node} {conflict : Conflict} (member : conflict ∈ run.conflicts)
    (drawn : AllDrawn run.comparison.perSample run.conflicts tree)
    (marked : Node.MarkedFrom run.comparison.degraded [] tree) :
    Node.MarkedFrom run.comparison.degraded [] (resolve run.comparison.perSample tree conflict) := by
  by_cases settled : conflict.settles? = none
  · intro path node present
    have shown := map_get?_resolve Node.bare Node.bare_update_cons run.comparison.perSample tree
      conflict path (fun name _ => bare_requireProperty name) (.inl settled)
    rcases Node.exists_of_map_get? shown present with ⟨old, here, same⟩
    exact (marked path old here).congr same
  · rw [resolve_of_settles run.comparison.perSample tree conflict settled]
    refine marked.update ?_
    intro node here
    have own := marked.get? here
    have noUnion := not_above_degraded regular drawn here
    rw [settling]
    split
    · rename_i type resolution
      rcases retypeNode_eq run.comparison.perSample conflict type node with ⟨label, same⟩
      rw [same]
      refine (own.retype ?_ noUnion ?_).relabel label
      · intro sample lent
        rcases template_cases lent with ⟨other, sampled, there⟩
        exact (perSample_marked regular other sampled).get? there
      · intro array degraded
        subst array
        rcases names_of_degraded regular degraded with ⟨names, place⟩
        refine template_of_dataType regular member resolution (by simp) ?_
        exact not_unionAt_names regular names _ (place ▸ List.prefix_rfl)
    · rcases nullNode_eq node with ⟨label, same⟩
      rw [same]
      exact (own.retype (fun _ lent => by cases lent) noUnion fun null => by cases null).relabel label
    · exact own
    · exact own

theorem resolved_marked : Node.MarkedFrom run.comparison.degraded [] run.resolved := by
  have both := resolveAll_induction
    (fun tree => AllDrawn run.comparison.perSample run.conflicts tree ∧
      Node.MarkedFrom run.comparison.degraded [] tree)
    run.comparison.perSample run.conflicts run.comparison.merged
    ⟨by rw [regular.compared]; exact allDrawn_compare regular.wellFormed regular.joined,
      merged_marked regular⟩
  rw [regular.resolved]
  refine (both ?_).2
  intro conflict member tree former
  rcases former with ⟨drawn, marked⟩
  exact ⟨resolve_allDrawn member drawn, resolve_marked regular member drawn marked⟩

theorem not_items_of_sampled {place path : Path} (degraded : place ∈ run.comparison.degraded)
    (recorded : path ∈ run.occurrences.entries.map Occurrence.path) :
    ¬ place ++ [.items] <+: path := by
  intro inside
  obtain ⟨-, tree, sampled, node, present⟩ := (mem_table_iff regular path).mp recorded
  exact uncut_of_sampled regular sampled present ⟨place, degraded, inside⟩

omit regular

/-- The arrays of the finished schema are mixed exactly at the degraded paths. Those are paths of
names, and nothing is recorded or in conflict inside the arrays there. -/
theorem stored_mixed_iff_degraded (settings : Settings) (source : Source) (samples : List Json)
    (run : Run) (ordered : ∀ sample ∈ samples, sample.Ordered)
    (finished : generate settings source samples = .ok run) :
    (∀ path node, run.stored.get? path = some node → node.plainType? = some .array →
      (node.isMixedArray = true ↔ path ∈ run.comparison.degraded)) ∧
    ∀ place ∈ run.comparison.degraded,
      (∀ step ∈ place, ∃ name, step = .property name) ∧
        (∀ entry ∈ run.occurrences.entries, ¬ place ++ [.items] <+: entry.path) ∧
          ∀ conflict ∈ run.conflicts, ¬ place ++ [.items] <+: conflict.path := by
  have regular := regular_of_generate ordered finished
  refine ⟨fun path node present array => ?_, fun place degraded => ⟨?_, ?_, ?_⟩⟩
  · have kept := map_get?_stored regular Node.form Node.form_update_cons Node.form_relabel
      Node.form_store path
    rcases Node.exists_of_map_get? kept present with ⟨old, here, same⟩
    rcases Prod.mk.inj same with ⟨plain, mixed⟩
    have marked := resolved_marked regular path old here
    rw [← mixed]
    rw [← plain] at array
    exact ⟨marked.placed, fun degraded => marked.mixed degraded array⟩
  · intro step member
    rcases names_of_degraded regular degraded with ⟨names, rfl⟩
    rcases List.mem_map.mp member with ⟨name, -, same⟩
    exact ⟨name, same.symm⟩
  · intro entry listed
    exact not_items_of_sampled regular degraded (List.mem_map_of_mem listed)
  · intro conflict member
    rcases mem_conflicts regular member with ⟨entry, listed, own, -⟩
    exact own ▸ not_items_of_sampled regular degraded (List.mem_map_of_mem listed)

/-- The last sample leaves a boolean in the place of the degraded array, and the finished schema has a
mixed array there all the same. -/
theorem stored_mixed_iff_degraded_overwritten :
    let samples := [Json.object [("a", .array [.bool true])], .object [("a", .array [.null])],
      .object [("a", .bool true)]]
    ∃ run node, (∀ sample ∈ samples, sample.Ordered) ∧
      generate {} { dataset := "events" } samples = .ok run ∧
        (run.comparison.merged.get? [.property "a"]).map Node.type = some .boolean ∧
          run.comparison.degraded = [[.property "a"]] ∧
            run.stored.get? [.property "a"] = some node ∧ node.plainType? = some .array ∧
              node.isMixedArray = true ∧
                ∀ entry ∈ run.occurrences.entries, ¬ [.property "a", .items] <+: entry.path := by
  intro samples
  have ordered : ∀ sample ∈ samples, sample.Ordered := Json.ordered_of_sorted samples (by rfl)
  have finished : ∃ run, generate {} { dataset := "events" } samples = .ok run ∧
      (run.comparison.merged.get? [.property "a"]).map Node.type = some .boolean ∧
        run.comparison.degraded = [[.property "a"]] ∧
          (run.stored.get? [.property "a"]).map Node.plainType? = some (some .array) :=
    ⟨_, rfl, by rfl, by decide, by rfl⟩
  rcases finished with ⟨run, made, merged, degraded, stored⟩
  rcases Option.map_eq_some_iff.mp stored with ⟨node, present, array⟩
  have described := stored_mixed_iff_degraded {} { dataset := "events" } samples run ordered made
  have member : [Step.property "a"] ∈ run.comparison.degraded := by simp [degraded]
  exact ⟨run, node, ordered, made, merged, degraded, present, array,
    (described.1 _ node present array).mpr member, (described.2 _ member).2.1⟩

end Run

end EventSchema
