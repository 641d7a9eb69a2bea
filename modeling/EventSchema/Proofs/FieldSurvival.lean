import EventSchema.Proofs.Agreement

namespace EventSchema.Run

open Conflict

section Regular

variable {run : Run} (regular : run.Regular) {path : Path} (undisputed : run.Undisputed path)

include regular undisputed

theorem recorded_of_resolved (tabular : Path.Tabular path) {node : Node}
    (present : run.resolved.get? path = some node) :
    path ∈ run.occurrences.entries.map Occurrence.path := by
  have clear : Clear run.comparison.perSample run.conflicts path := by
    intro conflict member typed inside different _
    rcases typed with ⟨type, resolution⟩
    exact different (undisputed conflict member (kind_of_dataType regular member resolution) inside)
  exact recorded_of_drawn regular tabular (allDrawn_resolved regular path node clear present)

theorem resolved_of_sampled (tabular : Path.Tabular path) {sample found : Node}
    (member : sample ∈ run.comparison.perSample) (present : sample.get? path = some found) :
    ∃ node, run.resolved.get? path = some node := by
  rcases merged_of_sampled regular tabular member present undisputed with ⟨node, merged⟩
  have above := settled_above regular member present undisputed
  have kept := isSome_get?_resolveAll run.comparison.perSample run.conflicts run.comparison.merged
    path above
  rw [← regular.resolved, merged] at kept
  exact Option.isSome_iff_exists.mp kept

end Regular

/-- Where no types are in conflict above a path, the finished schema has a record at the path
exactly when the table of occurrences has. -/
theorem stored_fields_iff_recorded (settings : Settings) (source : Source) (samples : List Json)
    (run : Run) (ordered : ∀ sample ∈ samples, sample.Ordered)
    (finished : generate settings source samples = .ok run) (path : Path)
    (undisputed : ∀ conflict ∈ run.conflicts, conflict.kind = .dataType →
      conflict.path <+: path → conflict.path = path) :
    path ∈ run.stored.fields.map Field.path ↔
      path ∈ run.occurrences.entries.map Occurrence.path := by
  have regular := regular_of_generate ordered finished
  have kept := map_get?_stored regular (fun _ => ()) (fun _ _ _ _ => rfl) (fun _ _ => rfl)
    (fun _ => rfl) path
  rw [run.stored.mem_fields_path_iff (stored_wellFormed regular) path]
  constructor
  · intro shown
    rcases shown with ⟨tabular, node, present⟩
    rcases Node.exists_of_map_get? kept present with ⟨resolved, here, -⟩
    exact recorded_of_resolved regular undisputed tabular here
  · intro recorded
    rcases (mem_table_iff regular path).mp recorded with ⟨tabular, sample, member, found, present⟩
    rcases resolved_of_sampled regular undisputed tabular member present with ⟨node, resolved⟩
    rcases Node.exists_of_map_get? kept.symm resolved with ⟨stored, here, -⟩
    exact ⟨tabular, stored, here⟩

/-- An array that is empty in one sample does not hide the fields of its items, nor does a conflict
elsewhere. -/
theorem stored_fields_iff_recorded_items :
    let samples := [Json.object [("a", .array [.object [("b", .bool true)]]), ("c", .bool true)],
      .object [("a", .array []), ("c", .array [])]]
    let path : Path := [.property "a", .items, .property "b"]
    ∃ run, (∀ sample ∈ samples, sample.Ordered) ∧
      generate {} { dataset := "events" } samples = .ok run ∧
        (∃ conflict ∈ run.conflicts, conflict.kind = .dataType) ∧
          (∀ conflict ∈ run.conflicts, conflict.kind = .dataType → conflict.path <+: path →
            conflict.path = path) ∧
            path ∈ run.occurrences.entries.map Occurrence.path ∧
              (path ∈ run.stored.fields.map Field.path ↔
                path ∈ run.occurrences.entries.map Occurrence.path) := by
  intro samples path
  have ordered : ∀ sample ∈ samples, sample.Ordered := Json.ordered_of_sorted samples (by rfl)
  have finished : ∃ run, generate {} { dataset := "events" } samples = .ok run ∧
      (∃ conflict ∈ run.conflicts, conflict.kind = .dataType) ∧
        (∀ conflict ∈ run.conflicts, conflict.kind = .dataType → conflict.path <+: path →
          conflict.path = path) ∧
          path ∈ run.occurrences.entries.map Occurrence.path :=
    ⟨_, rfl, by decide, by decide, by decide⟩
  rcases finished with ⟨run, made, conflicting, undisputed, recorded⟩
  exact ⟨run, ordered, made, conflicting, undisputed, recorded,
    stored_fields_iff_recorded {} { dataset := "events" } samples run ordered made path undisputed⟩

end EventSchema.Run
