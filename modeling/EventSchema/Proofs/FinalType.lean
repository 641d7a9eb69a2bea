import EventSchema.Proofs.Surveys
/-!
The type of a field in the finished schema is the one that the counts of the table decide for. The
merged tree has left there the type that came last, but either all samples agree, and then no other
type can have come in from above, or a conflict settles the type, and no later one changes it.
-/
namespace EventSchema.Run

open Conflict

section Regular

variable {run : Run} (regular : run.Regular)

include regular

/-- After the conflict on the type at a path no further conflict changes the type there. -/
theorem type_of_onType {entry : Occurrence} {conflict : Conflict} {type : ValueType} {node : Node}
    (listed : entry ∈ run.occurrences.entries) (found : onType? entry = some conflict)
    (settled : conflict.settles? = some type) (present : run.resolved.get? entry.path = some node) :
    node.type = type := by
  rcases conflicts_split regular listed with ⟨before, after, split, -, later⟩
  have place : conflict.path = entry.path := (mem_onType found).1
  have afterwards : ∀ other ∈ besidesType run.occurrences entry ++ after,
      other.settles? = none ∨ ¬ other.path <+: entry.path := by
    intro other member
    rcases List.mem_append.mp member with beside | further
    · exact .inl (besidesType_cases beside).2.2
    · exact .inr (Path.not_prefix_of_lt other.path entry.path (later other further))
  have stages : run.resolved = resolveAll run.comparison.perSample
      (besidesType run.occurrences entry ++ after)
      (resolve run.comparison.perSample
        (resolveAll run.comparison.perSample before run.comparison.merged) conflict) := by
    rw [regular.resolved, split, found]
    simp [resolveAll]
  have kept := map_get?_resolveAll Node.type Node.type_update_cons run.comparison.perSample _
    (resolve run.comparison.perSample
      (resolveAll run.comparison.perSample before run.comparison.merged) conflict) entry.path
    (fun _ _ name _ => type_requireProperty name) afterwards
  rw [← stages] at kept
  rcases Node.exists_of_map_get? kept present with ⟨node', here, same⟩
  rw [resolve_of_settles _ _ conflict (by simp [settled]), ← place] at here
  rcases Node.get?_update_self _ here with ⟨old, -, rfl⟩
  rw [← same, type_settling _ _ type _ settled]

theorem type_of_agreement {entry : Occurrence} {node : Node}
    (listed : entry ∈ run.occurrences.entries) (found : onType? entry = none)
    (drawn : Drawn run.comparison.perSample run.conflicts entry.path node) :
    entry.DecidesFor node.type := by
  rcases drawn with ⟨tree, member, sample, present, same⟩ | ⟨⟨conflict, member, place, settled⟩, -⟩
  · obtain ⟨type, plain, -, -, decided⟩ :=
      plain_of_agreement regular listed found tree member sample present
    rw [((node.plainType?_eq_some_iff type).mp (same.symm.trans plain)).2]
    exact decided
  · rcases mem_conflicts regular member with ⟨entry', listed', place', own⟩
    rcases eq_of_path regular listed' listed (place'.trans place) with rfl
    rcases own with onType | beside
    · rw [found] at onType
      cases onType
    · exact absurd (besidesType_cases beside).2.2 settled

end Regular

/-- In the finished schema a field has the type that the counts in the table decide for, whatever
the merged tree had left there, as long as no sample has a union above it. -/
theorem stored_type_decided (settings : Settings) (source : Source) (samples : List Json) (run : Run)
    (ordered : ∀ sample ∈ samples, sample.Ordered)
    (finished : generate settings source samples = .ok run) (entry : Occurrence)
    (listed : entry ∈ run.occurrences.entries) (node : Node)
    (present : run.stored.get? entry.path = some node)
    (noUnion : ∀ outer, outer <+: entry.path → outer ≠ entry.path →
      ∀ tree ∈ run.comparison.perSample, ∀ label branches,
        tree.get? outer ≠ some (.union label branches)) :
    entry.DecidesFor node.type := by
  have regular := regular_of_generate ordered finished
  have kept := map_get?_stored regular Node.type Node.type_update_cons Node.type_relabel
    Node.type_store entry.path
  rcases Node.exists_of_map_get? kept present with ⟨resolved, here, same⟩
  rw [← same]
  cases found : onType? entry with
  | some conflict =>
      obtain ⟨type, settled, decided⟩ :=
        decidesFor_of_onType (increasing_types regular listed) found
      rw [type_of_onType regular listed found settled here]
      exact decided
  | none =>
      have clear : Clear run.comparison.perSample run.conflicts entry.path := by
        intro conflict _ _ inside different unionAt
        rcases unionAt with ⟨tree, member, union, there, notPlain⟩
        cases union with
        | union label branches => exact noUnion _ inside different tree member label branches there
        | _ => cases notPlain
      exact type_of_agreement regular listed found
        (allDrawn_resolved regular entry.path resolved clear here)

/-- The later sample leaves null in the merged tree, and the field is a boolean all the same. -/
theorem stored_type_decided_boolean :
    let samples := [Json.object [("a", .object [("b", .bool true)])],
      .object [("a", .object [("b", .null)])]]
    let path : Path := [.property "a", .property "b"]
    ∃ run entry node, (∀ sample ∈ samples, sample.Ordered) ∧
      generate {} { dataset := "events" } samples = .ok run ∧
        (run.merged.get? path).map Node.type = some .null ∧
          entry ∈ run.occurrences.entries ∧ entry.path = path ∧
            run.stored.get? entry.path = some node ∧ node.type = .boolean ∧
              entry.DecidesFor node.type := by
  intro samples path
  have ordered : ∀ sample ∈ samples, sample.Ordered := Json.ordered_of_sorted samples (by rfl)
  have finished : ∃ run, generate {} { dataset := "events" } samples = .ok run ∧
      (run.merged.get? path).map Node.type = some .null ∧
        path ∈ run.occurrences.entries.map Occurrence.path ∧
          (run.stored.get? path).map Node.type = some .boolean ∧
            ∀ tree ∈ run.comparison.perSample, ∀ outer ∈ [[], [Step.property "a"]],
              (tree.get? outer).bind Node.plainType? = some .object :=
    ⟨_, rfl, by rfl, by decide, by rfl, by decide⟩
  rcases finished with ⟨run, made, merged, listed, stored, plain⟩
  rcases List.mem_map.mp listed with ⟨entry, member, place⟩
  rcases Option.map_eq_some_iff.mp stored with ⟨node, present, type⟩
  rw [← place] at present
  refine ⟨run, entry, node, ordered, made, merged, member, place, present, type, ?_⟩
  refine stored_type_decided {} { dataset := "events" } samples run ordered made entry member node
    present ?_
  intro outer inside different tree sampled label branches union
  rw [place] at inside different
  have above : outer = [] ∨ outer = [.property "a"] := by
    rcases List.prefix_cons_iff.mp inside with top | ⟨rest, rfl, inside'⟩
    · exact .inl top
    · rcases List.prefix_cons_iff.mp inside' with rfl | ⟨rest', rfl, inside''⟩
      · exact .inr rfl
      · rw [List.prefix_nil.mp inside''] at different
        exact absurd rfl different
  have shown := plain tree sampled outer (by simpa using above)
  rw [union] at shown
  cases shown

end EventSchema.Run
