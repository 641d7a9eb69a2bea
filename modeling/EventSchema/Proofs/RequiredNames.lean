import EventSchema.Proofs.NamedPaths
import EventSchema.Proofs.Permanence

namespace EventSchema

theorem countP_le_countP_iff {α : Type} (narrow wide : α → Bool) (elements : List α)
    (implied : ∀ element ∈ elements, narrow element = true → wide element = true) :
    elements.countP wide ≤ elements.countP narrow ↔
      ∀ element ∈ elements, wide element = true → narrow element = true := by
  induction elements with
  | nil => simp
  | cons first rest ih =>
      rcases List.forall_mem_cons.mp implied with ⟨head, tail⟩
      have fewer : rest.countP narrow ≤ rest.countP wide := List.countP_mono_left tail
      have step := ih tail
      rw [List.forall_mem_cons, ← step, List.countP_cons, List.countP_cons]
      cases here : wide first <;> cases there : narrow first <;>
        simp only [here, there, forall_const, Bool.false_eq_true, if_true, if_false, false_implies,
          true_and, false_and, iff_false, Nat.not_le, Nat.add_zero] at head ⊢
      all_goals omega

namespace Conflict

theorem ofRequired?_of_declared {table : Occurrences} {entry : Occurrence}
    (declared : entry.required > entry.optional) :
    (ofRequired? table entry = none ↔
        entry.presence > 1 ∧ entry.presence ≥ table.containerPresence entry.path) ∧
      ∀ conflict, ofRequired? table entry = some conflict →
        conflict.resolution = .optional false := by
  rw [ofRequired?]
  by_cases actual : entry.presence > 1 ∧ entry.presence ≥ table.containerPresence entry.path
  · simp [declared, actual]
  · have flag : (decide (entry.presence > 1) &&
        decide (entry.presence ≥ table.containerPresence entry.path)) = false := by
      simpa using actual
    simp only [declared, decide_true, flag, actual, Bool.true_eq_false, if_false, reduceCtorEq,
      true_and, Option.some.injEq]
    intro conflict made
    subst made
    rfl

end Conflict

namespace Run

open Conflict

section Regular

variable {run : Run} (regular : run.Regular)

include regular

theorem declared_of_names (names : List String) (name : String) {entry : Occurrence}
    (listed : entry ∈ run.occurrences.entries)
    (place : entry.path = names.map .property ++ [.property name]) :
    entry.required > entry.optional := by
  have same := eq_occurrence regular listed
  have each : ∀ fields ∈ run.comparison.perSample.map Node.fields, ∀ field ∈ fields,
      field.path = entry.path → field.isRequired = true := by
    intro fields sampled field member there
    rcases List.mem_map.mp sampled with ⟨tree, inSamples, rfl⟩
    obtain ⟨label, properties, required, container, has, flag⟩ := Node.isRequired_of_mem_fields
      (perSample_wellFormed regular tree inSamples) member (there.trans place)
    have declares := declares_sample regular names name tree inSamples _ container
    rw [flag, decide_eq_true_iff]
    exact (Node.declares_object name label properties required).mp declares has
  rcases Occurrences.required_of_forall _ entry.path each with ⟨required, optional⟩
  have tabular : Path.Tabular entry.path := place ▸ Path.Tabular.of_names names name
  have present : 0 < (Occurrences.occurrence (run.comparison.perSample.map Node.fields)
      entry.path).presence := by
    rw [presence_occurrence regular tabular, List.countP_pos_iff]
    obtain ⟨-, tree, member, node, here⟩ :=
      (mem_table_iff regular entry.path).mp (List.mem_map_of_mem listed)
    exact ⟨tree, member, by simp [here]⟩
  rw [same, required, optional]
  exact present

theorem presence_of_names (names : List String) (name : String) :
    (Occurrences.occurrence (run.comparison.perSample.map Node.fields)
      (names.map .property ++ [.property name])).presence =
        run.samples.countP fun sample => (Source.follow (names ++ [name]) sample).isSome := by
  have spelled : names.map Step.property ++ [.property name] =
      (names ++ [name]).map Step.property := by simp
  rw [presence_occurrence regular (Path.Tabular.of_names names name), spelled]
  exact countP_perSample regular (names ++ [name])

theorem containerPresence_of_names (names : List String) (name : String) {entry : Occurrence}
    (listed : entry ∈ run.occurrences.entries)
    (place : entry.path = names.map .property ++ [.property name]) :
    run.occurrences.containerPresence entry.path =
      run.samples.countP fun sample => (Source.follow names sample).isSome := by
  calc
    run.occurrences.containerPresence entry.path =
        run.comparison.perSample.countP fun tree => (tree.get? entry.path.container).isSome :=
      containerPresence_eq_countP regular listed
    _ = run.comparison.perSample.countP fun tree => (tree.get? (names.map .property)).isSome := by
      rw [place, Path.container_names]
    _ = run.samples.countP fun sample => (Source.follow names sample).isSome :=
      countP_perSample regular names

/-- No conflict asks against a name exactly when the samples bear out that it is required. -/
theorem ofRequired?_of_names (names : List String) (name : String) {entry : Occurrence}
    (listed : entry ∈ run.occurrences.entries)
    (place : entry.path = names.map .property ++ [.property name]) :
    ofRequired? run.occurrences entry = none ↔
      2 ≤ run.samples.countP (fun sample => (Source.follow (names ++ [name]) sample).isSome) ∧
        ∀ sample ∈ run.samples, (Source.follow names sample).isSome = true →
          (Source.follow (names ++ [name]) sample).isSome = true := by
  have declared := declared_of_names regular names name listed place
  have presence : entry.presence =
      run.samples.countP fun sample => (Source.follow (names ++ [name]) sample).isSome := by
    rw [eq_occurrence regular listed, place]
    exact presence_of_names regular names name
  rw [(ofRequired?_of_declared declared).1, presence,
    containerPresence_of_names regular names name listed place]
  exact and_congr Iff.rfl (countP_le_countP_iff _ _ run.samples
    fun sample _ => Source.isSome_follow_of_append names name sample)

theorem ordered_entries :
    run.occurrences.entries.Pairwise fun first second => first.path < second.path := by
  rw [regular.tabulated]
  exact Occurrences.entries_pairwise _

section Asked

variable {path : Path} {name : String} {entry : Occurrence}
  (listed : entry ∈ run.occurrences.entries) (place : entry.path = path ++ [.property name])

include listed place

theorem not_asked_of_silent (silent : ofRequired? run.occurrences entry = none) :
    ∀ conflict ∈ run.conflicts, ¬ conflict.AsksAt path name := by
  intro conflict member asks
  obtain ⟨⟨isRequired, resolution⟩, there⟩ := asks
  obtain ⟨entry', listed', place', -, found⟩ := entry_of_asked regular member resolution
  obtain rfl := eq_of_path regular listed' listed (place'.trans (there.trans place.symm))
  rw [silent] at found
  cases found

theorem requires_iff_asked (several : run.occurrences.sampleCount > 1) {conflict : Conflict}
    (found : ofRequired? run.occurrences entry = some conflict) {isRequired : Bool}
    (resolution : conflict.resolution = .optional isRequired) {label : Label}
    {properties : List (String × Node)} {required : List String}
    (present : run.resolved.get? path = some (.object label properties required)) :
    name ∈ required ↔ isRequired = true := by
  have member : conflict ∈ classify run.occurrences := by
    refine (mem_classify _ conflict).mpr ⟨entry, listed, ?_⟩
    rw [ofOccurrence_eq, besidesType, if_pos several, found]
    simp
  obtain ⟨before, after, split⟩ := List.append_of_mem member
  have asked : conflict.path = path ++ [.property name] :=
    (mem_ofRequired found).2.1.trans place
  rw [regular.resolved, regular.classified] at present
  exact asked_last (ordered_entries regular) split _ _ resolution asked present

end Asked

theorem requires_of_not_asked (names : List String) (name : String) {entry : Occurrence}
    (listed : entry ∈ run.occurrences.entries)
    (place : entry.path = names.map .property ++ [.property name])
    (silent : ofRequired? run.occurrences entry = none) (node : Node)
    (present : run.resolved.get? (names.map .property) = some node) : node.Declares name := by
  have others := not_asked_of_silent regular listed place silent
  have drawn : AllDrawn run.comparison.perSample run.conflicts run.comparison.merged := by
    rw [regular.compared]
    exact allDrawn_compare regular.wellFormed regular.joined
  rw [regular.resolved] at present
  exact resolveAll_declares run.conflicts (fun _ member => member) drawn
    (not_unionAt_names regular names) (declares_sample regular names name) others
    (declares_merged regular names name) node present

/-- After a conflict has asked against the name no other one asks for it. -/
theorem not_requires_of_conflict (names : List String) (name : String) {entry : Occurrence}
    {conflict : Conflict} (listed : entry ∈ run.occurrences.entries)
    (place : entry.path = names.map .property ++ [.property name])
    (several : run.occurrences.sampleCount > 1)
    (found : ofRequired? run.occurrences entry = some conflict)
    (resolution : conflict.resolution = .optional false) (node : Node)
    (present : run.resolved.get? (names.map .property) = some node) :
    node.requires? name ≠ some true := by
  cases node with
  | object label properties required =>
      have asked := requires_iff_asked regular listed place several found resolution present
      simpa [Node.requires?, Node.required?] using asked
  | _ => simp [Node.requires?, Node.required?]

theorem requires_iff_not_asked (names : List String) (name : String) {entry : Occurrence}
    (listed : entry ∈ run.occurrences.entries)
    (place : entry.path = names.map .property ++ [.property name])
    (several : run.occurrences.sampleCount > 1) (node : Node)
    (present : run.resolved.get? (names.map .property) = some node)
    (leads : node.leadsTo name = true) :
    node.requires? name = some true ↔ ofRequired? run.occurrences entry = none := by
  constructor
  · intro demanded
    cases found : ofRequired? run.occurrences entry with
    | none => rfl
    | some conflict =>
        have declared := declared_of_names regular names name listed place
        have resolution := (ofRequired?_of_declared declared).2 conflict found
        exact absurd demanded
          (not_requires_of_conflict regular names name listed place several found resolution node
            present)
  · intro silent
    exact requires_of_not_asked regular names name listed place silent node present leads

theorem recorded_of_names (names : List String) (name : String) {node : Node}
    (present : run.resolved.get? (names.map .property) = some node)
    (leads : node.leadsTo name = true) :
    names.map .property ++ [.property name] ∈ run.occurrences.entries.map Occurrence.path := by
  rcases Option.isSome_iff_exists.mp leads with ⟨child, next⟩
  have below : run.resolved.get? (names.map .property ++ [.property name]) = some child := by
    rw [Node.get?_append, present, Option.bind_some, Node.get?_single, next]
  have spelled : names.map Step.property ++ [.property name] = (names ++ [name]).map .property := by
    simp
  have clear : Clear run.comparison.perSample run.conflicts
      (names.map .property ++ [.property name]) := by
    intro conflict _ _ above _
    rw [spelled] at above
    exact not_unionAt_names regular (names ++ [name]) conflict.path above
  exact recorded_of_drawn regular (Path.Tabular.of_names names name)
    (allDrawn_resolved regular _ child clear below)

end Regular

/-- In a schema of several samples an object under names requires one of its own names exactly when
more than one sample has a value there, and every sample that has a value for the object has one. -/
theorem stored_requires_iff (settings : Settings) (source : Source) (samples : List Json) (run : Run)
    (ordered : ∀ sample ∈ samples, sample.Ordered)
    (finished : generate settings source samples = .ok run) (several : 2 ≤ run.samples.length)
    (names : List String) (name : String) (label : Label) (properties : List (String × Node))
    (required : List String)
    (present : run.stored.get? (names.map .property) = some (.object label properties required))
    (has : name ∈ Keyed.keys properties) :
    name ∈ required ↔
      2 ≤ run.samples.countP (fun sample => (Source.follow (names ++ [name]) sample).isSome) ∧
        ∀ sample ∈ run.samples, (Source.follow names sample).isSome →
          (Source.follow (names ++ [name]) sample).isSome := by
  have regular := regular_of_generate ordered finished
  have kept := map_get?_stored regular (Node.demand name) (Node.demand_update_cons name)
    (Node.demand_relabel name) (Node.demand_store name) (names.map .property)
  rcases Node.exists_of_map_get? kept present with ⟨resolved, here, same⟩
  rcases Prod.mk.inj same with ⟨requires, leads⟩
  have leadsOn : resolved.leadsTo name = true := by
    rw [leads]
    exact (Keyed.lookup_isSome_iff name properties).mpr has
  have stated : name ∈ required ↔ resolved.requires? name = some true := by
    rw [requires]
    simp [Node.requires?, Node.required?]
  have recorded := recorded_of_names regular names name here leadsOn
  rcases List.mem_map.mp recorded with ⟨entry, listed, place⟩
  have sampled : run.occurrences.sampleCount > 1 := by
    rw [sampleCount_eq regular]
    exact several
  rw [stated, requires_iff_not_asked regular names name listed place sampled resolved here leadsOn]
  exact ofRequired?_of_names regular names name listed place

/-- One sample has no such object, which does not make the name optional. -/
theorem stored_requires_iff_nested :
    let samples := [Json.object [("a", .object [("b", .bool true), ("c", .null)])],
      .object [("a", .object [("b", .null)])], .object []]
    ∃ run label properties required, (∀ sample ∈ samples, sample.Ordered) ∧
      generate {} { dataset := "events" } samples = .ok run ∧ 2 ≤ run.samples.length ∧
        run.stored.get? [.property "a"] = some (.object label properties required) ∧
          "b" ∈ Keyed.keys properties ∧ "b" ∈ required ∧
            ("b" ∈ required ↔
              2 ≤ run.samples.countP (fun sample => (Source.follow ["a", "b"] sample).isSome) ∧
                ∀ sample ∈ run.samples, (Source.follow ["a"] sample).isSome →
                  (Source.follow ["a", "b"] sample).isSome) := by
  intro samples
  have ordered : ∀ sample ∈ samples, sample.Ordered := Json.ordered_of_sorted samples (by rfl)
  have finished : ∃ run, generate {} { dataset := "events" } samples = .ok run ∧
      2 ≤ run.samples.length ∧ ∃ label properties required,
        run.stored.get? [.property "a"] = some (.object label properties required) ∧
          "b" ∈ Keyed.keys properties ∧ "b" ∈ required :=
    ⟨_, rfl, by decide, _, _, _, rfl, by decide, by decide⟩
  rcases finished with ⟨run, made, several, label, properties, required, present, has, demanded⟩
  exact ⟨run, label, properties, required, ordered, made, several, present, has, demanded,
    stored_requires_iff {} { dataset := "events" } samples run ordered made several ["a"] "b" label
      properties required present has⟩

end Run

end EventSchema
