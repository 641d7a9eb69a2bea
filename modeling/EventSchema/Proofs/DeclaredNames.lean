import EventSchema.Proofs.FieldSurvival
import EventSchema.Proofs.SoundStages
/-!
Which names the objects of the finished schema require when samples do not all require what they
have, as the elements of an array may not. The counts of the table decide: samples bear the name out,
or some of them declare it and no conflict asks, because most of them do not.
-/
namespace EventSchema

namespace Node

theorem requires?_mergeAll (name : String) {trees : List Node} {merged : Node}
    (objects : ∀ tree ∈ trees, tree.plainType? = some .object)
    (finished : mergeAll? trees = some merged) :
    merged.plainType? = some .object ∧
      (merged.requires? name = some true ↔ ∃ tree ∈ trees, tree.requires? name = some true) := by
  induction trees using List.reverseRecOn generalizing merged with
  | nil => cases finished
  | append_singleton trees tree ih =>
      have former : ∀ tree ∈ trees, tree.plainType? = some .object := fun other member =>
        objects other (List.mem_append_left [tree] member)
      have last := objects tree (by simp)
      rw [mergeAll_append] at finished
      cases before : mergeAll? trees with
      | none =>
          have empty : trees = [] := by
            cases trees with
            | nil => rfl
            | cons first rest => cases before
          subst empty
          obtain rfl : tree = merged := Option.some.inj finished
          exact ⟨last, by simp⟩
      | some node =>
          obtain ⟨object, requires⟩ := ih former before
          rw [before] at finished
          obtain rfl : mergeInto node tree = merged := Option.some.inj finished
          obtain ⟨label, properties, required, rfl⟩ := exists_object_of_plain object
          obtain ⟨label', properties', required', rfl⟩ := exists_object_of_plain last
          refine ⟨rfl, ?_⟩
          have united : (mergeInto (.object label properties required)
              (.object label' properties' required')).requires? name = some true ↔
                name ∈ required ∨ name ∈ required' := by
            simp [mergeInto, requires?, required?, Ordered.mem_union]
          simp only [requires?, required?, Option.map_some, Option.some.injEq, decide_eq_true_eq]
            at requires
          rw [united, requires]
          simp [requires?, required?, or_and_right, exists_or]

end Node

namespace Occurrences

theorem required_pos_iff (samples : List (List Field)) (path : Path)
    (alike : ∀ fields ∈ samples, ∀ first ∈ fields, ∀ second ∈ fields, first.path = path →
      second.path = path → first.isRequired = second.isRequired) :
    0 < (occurrence samples path).required ↔
      ∃ fields ∈ samples, ∃ field ∈ fields, field.path = path ∧ field.isRequired = true := by
  have counted : (occurrence samples path).required =
      (firsts samples path).countP Field.isRequired := rfl
  rw [counted, List.countP_pos_iff]
  constructor
  · intro found
    obtain ⟨field, member, flag⟩ := found
    obtain ⟨place, fields, sampled, inside⟩ := mem_of_mem_firsts samples member
    exact ⟨fields, sampled, field, inside, place, flag⟩
  · intro found
    obtain ⟨fields, sampled, field, inside, place, flag⟩ := found
    have recorded : field ∈ fields.filter (·.path = path) :=
      List.mem_filter.mpr ⟨inside, decide_eq_true place⟩
    obtain ⟨first, rest, same⟩ := List.exists_cons_of_ne_nil (List.ne_nil_of_mem recorded)
    have own : first ∈ fields.filter (·.path = path) := by
      rw [same]
      exact List.mem_cons_self
    obtain ⟨inside', place'⟩ := List.mem_filter.mp own
    refine ⟨first, ?_, ?_⟩
    · refine List.mem_filterMap.mpr ⟨_, List.mem_map_of_mem sampled, ?_⟩
      rw [same]
      rfl
    · rw [alike fields sampled first inside' field inside (of_decide_eq_true place') place, flag]

end Occurrences

namespace Run

open Conflict

section Regular

variable {run : Run} (regular : run.Regular) {path : Path} {name : String} {entry : Occurrence}
  (listed : entry ∈ run.occurrences.entries) (place : entry.path = path ++ [.property name])

include regular listed place

theorem required_pos_iff :
    0 < entry.required ↔ ∃ tree ∈ run.comparison.perSample, ∃ node,
      tree.get? path = some node ∧ node.requires? name = some true := by
  have wellFormed := perSample_wellFormed regular
  have flagged : ∀ tree ∈ run.comparison.perSample, ∀ field ∈ tree.fields,
      field.path = entry.path → ∃ node, tree.get? path = some node ∧
        node.requires? name = some field.isRequired := by
    intro tree sampled field member there
    obtain ⟨label, properties, required, container, -, flag⟩ :=
      Node.isRequired_of_mem_fields (wellFormed tree sampled) member (there.trans place)
    exact ⟨_, container, by rw [flag]; rfl⟩
  have alike : ∀ fields ∈ run.comparison.perSample.map Node.fields, ∀ first ∈ fields,
      ∀ second ∈ fields, first.path = entry.path → second.path = entry.path →
        first.isRequired = second.isRequired := by
    intro fields sampled first one second other here there
    obtain ⟨tree, inSamples, rfl⟩ := List.mem_map.mp sampled
    obtain ⟨node, present, flag⟩ := flagged tree inSamples first one here
    obtain ⟨node', present', flag'⟩ := flagged tree inSamples second other there
    obtain rfl : node = node' := Option.some.inj (present.symm.trans present')
    exact Option.some.inj (flag.symm.trans flag')
  obtain ⟨tabular, -⟩ := (mem_table_iff regular entry.path).mp (List.mem_map_of_mem listed)
  rw [eq_occurrence regular listed, Occurrences.required_pos_iff _ entry.path alike]
  constructor
  · intro declared
    obtain ⟨fields, sampled, field, member, here, flag⟩ := declared
    obtain ⟨tree, inSamples, rfl⟩ := List.mem_map.mp sampled
    obtain ⟨node, present, requires⟩ := flagged tree inSamples field member here
    exact ⟨tree, inSamples, node, present, by rw [requires, flag]⟩
  · intro declared
    obtain ⟨tree, sampled, node, present, requires⟩ := declared
    obtain ⟨former, inferred, rfl⟩ := (mem_perSample regular tree).mp sampled
    have sound := (Node.degradeAll_sound run.comparison.degraded former
      (inferred_sound regular former inferred)).get? present
    cases node with
    | object label properties required =>
        have demanded : name ∈ required := by simpa [Node.requires?, Node.required?] using requires
        have known := sound.own.required label properties required rfl name demanded
        obtain ⟨child, found⟩ :=
          Option.isSome_iff_exists.mp ((Keyed.lookup_isSome_iff name properties).mpr known)
        have field := (Node.get?_append_property path name _ child).mpr
          ⟨label, properties, required, present, found⟩
        rw [← place] at field
        obtain ⟨record, member, here⟩ := List.mem_map.mp
          (((former.degradeAll run.comparison.degraded).mem_fields_path_iff
            (wellFormed _ sampled) entry.path).mpr ⟨tabular, child, field⟩)
        obtain ⟨node', present', flag⟩ := flagged _ sampled record member here
        refine ⟨_, List.mem_map_of_mem sampled, record, member, here, ?_⟩
        obtain rfl := Option.some.inj (present.symm.trans present')
        exact Option.some.inj (flag.symm.trans requires)
    | _ => simp [Node.requires?, Node.required?] at requires

theorem uncut_of_listed : ¬ Node.Cut run.comparison.degraded path := by
  obtain ⟨-, tree, sampled, field, found⟩ :=
    (mem_table_iff regular entry.path).mp (List.mem_map_of_mem listed)
  rw [place] at found
  obtain ⟨above, here⟩ := Node.get?_of_prefix _ _ tree field (List.prefix_append path _) found
  exact uncut_of_sampled regular sampled here

theorem demand_degraded (tree : Node) :
    ((tree.degradeAll run.comparison.degraded).get? path).map (Node.demand name) =
      (tree.get? path).map (Node.demand name) :=
  Node.map_get?_degradeAll_same (Node.demand name) (Node.demand_update_cons name)
    (Node.demand_forgetItems name) run.comparison.degraded path tree
    (uncut_of_listed regular listed place)

section Undisputed

variable (undisputed : run.Undisputed entry.path)

include undisputed

theorem demand_of_silent (silent : ofRequired? run.occurrences entry = none) :
    (run.resolved.get? path).map (Node.demand name) =
      (run.merged.get? path).map (Node.demand name) := by
  obtain ⟨-, tree, sampled, field, found⟩ :=
    (mem_table_iff regular entry.path).mp (List.mem_map_of_mem listed)
  have settled := settled_above regular sampled found undisputed
  have apart : ∀ conflict ∈ run.conflicts, conflict.settles? = none ∨ ¬ conflict.path <+: path := by
    intro conflict member
    rw [or_iff_not_imp_left]
    intro settles above
    have same := settled conflict member settles
      (place ▸ above.trans (List.prefix_append path [.property name]))
    have shorter := above.length_le
    have length := congrArg List.length (same.trans place)
    rw [List.length_append, List.length_singleton] at length
    omega
  have others : ∀ conflict ∈ run.conflicts, ∀ name', conflict.AsksAt path name' →
      ∀ isRequired node, (requireProperty name' isRequired node).demand name = node.demand name := by
    intro conflict member name' asks isRequired node
    apply Node.demand_requireProperty
    intro same
    subst same
    exact not_asked_of_silent regular listed place silent conflict member asks
  calc
    (run.resolved.get? path).map (Node.demand name) =
        (run.comparison.merged.get? path).map (Node.demand name) := by
      rw [regular.resolved]
      exact map_get?_resolveAll (Node.demand name) (Node.demand_update_cons name)
        run.comparison.perSample run.conflicts run.comparison.merged path others apart
    _ = ((run.merged.degradeAll run.comparison.degraded).get? path).map (Node.demand name) := by
      rw [regular.compared, Comparison.compare_eq]
    _ = (run.merged.get? path).map (Node.demand name) :=
      demand_degraded regular listed place run.merged

/-- Where no types are in conflict above, a merged object requires what some sample requires. -/
theorem merged_requires_iff {node : Node} (present : run.merged.get? path = some node) :
    node.requires? name = some true ↔ ∃ tree ∈ run.inferred, ∃ own,
      tree.get? path = some own ∧ own.requires? name = some true := by
  obtain ⟨tabular, tree, sampled, field, found⟩ :=
    (mem_table_iff regular entry.path).mp (List.mem_map_of_mem listed)
  rw [place] at tabular found undisputed
  have admitted : ∀ outer step rest, path = outer ++ step :: rest → ∀ tree ∈ run.inferred,
      ∀ node, tree.get? outer = some node → node.Admits step := by
    intro outer step rest split tree inferred node there
    rw [split, List.append_assoc, List.cons_append] at tabular found undisputed
    exact admits_above regular tabular sampled found undisputed inferred there
  have objects : ∀ node ∈ run.inferred.filterMap (Node.get? path),
      node.plainType? = some .object := by
    intro node member
    obtain ⟨former, inferred, there⟩ := List.mem_filterMap.mp member
    have admits := admits_above regular tabular sampled found undisputed inferred there
    cases node with
    | object _ _ _ => rfl
    | _ => exact admits.elim
  have joined := Node.get?_mergeAll regular.wellFormed admitted
  rw [regular.joined, Option.bind_some, present] at joined
  rw [(Node.requires?_mergeAll name objects joined.symm).2]
  constructor
  · intro declared
    obtain ⟨own, member, requires⟩ := declared
    obtain ⟨former, inferred, there⟩ := List.mem_filterMap.mp member
    exact ⟨former, inferred, own, there, requires⟩
  · intro declared
    obtain ⟨former, inferred, own, there, requires⟩ := declared
    exact ⟨own, List.mem_filterMap.mpr ⟨former, inferred, there⟩, requires⟩

theorem requires_iff_declared (silent : ofRequired? run.occurrences entry = none) {node : Node}
    (present : run.resolved.get? path = some node) :
    node.requires? name = some true ↔ 0 < entry.required := by
  have kept := demand_of_silent regular listed place undisputed silent
  obtain ⟨merged, here, same⟩ := Node.exists_of_map_get? kept present
  rw [← (Prod.mk.inj same).1, merged_requires_iff regular listed place undisputed here,
    required_pos_iff regular listed place]
  constructor
  · intro declared
    obtain ⟨former, inferred, own, there, requires⟩ := declared
    obtain ⟨own', there', same'⟩ :=
      Node.exists_of_map_get? (demand_degraded regular listed place former).symm there
    exact ⟨_, (mem_perSample regular _).mpr ⟨former, inferred, rfl⟩, own', there',
      (Prod.mk.inj same').1.trans requires⟩
  · intro declared
    obtain ⟨sample, sampled, own, there, requires⟩ := declared
    obtain ⟨former, inferred, rfl⟩ := (mem_perSample regular sample).mp sampled
    obtain ⟨own', there', same'⟩ :=
      Node.exists_of_map_get? (demand_degraded regular listed place former) there
    exact ⟨former, inferred, own', there', (Prod.mk.inj same').1.trans requires⟩

end Undisputed

end Regular

/-- Whether the samples bear out that a field is required: more than one has it, and as many as have
its container. -/
def BornOut (table : Occurrences) (entry : Occurrence) : Prop :=
  1 < entry.presence ∧ table.containerPresence entry.path ≤ entry.presence

instance (table : Occurrences) (entry : Occurrence) : Decidable (BornOut table entry) :=
  inferInstanceAs (Decidable (_ ∧ _))

theorem ofRequired?_iff_bornOut (table : Occurrences) (entry : Occurrence) :
    (ofRequired? table entry = none ↔ (entry.optional < entry.required ↔ BornOut table entry)) ∧
      ∀ conflict, ofRequired? table entry = some conflict →
        ∃ isRequired, conflict.resolution = .optional isRequired ∧
          (isRequired = true ↔ BornOut table entry) := by
  have flag : (decide (entry.presence > 1) &&
      decide (entry.presence ≥ table.containerPresence entry.path)) =
        decide (BornOut table entry) := by
    rw [Bool.eq_iff_iff, Bool.and_eq_true, decide_eq_true_iff, decide_eq_true_iff, decide_eq_true_iff]
    exact Iff.rfl
  rw [ofRequired?]
  by_cases declared : entry.required > entry.optional <;>
    by_cases actual : BornOut table entry <;> simp [declared, actual, flag]

/-- In a schema of several samples an object requires a name that is listed, with no types in conflict
above, exactly when the samples bear it out, or when some but not most of them declare it. -/
theorem stored_requires_iff_counted (settings : Settings) (source : Source) (samples : List Json)
    (run : Run) (ordered : ∀ sample ∈ samples, sample.Ordered)
    (finished : generate settings source samples = .ok run) (several : 2 ≤ run.samples.length)
    (entry : Occurrence) (listed : entry ∈ run.occurrences.entries) (path : Path) (name : String)
    (place : entry.path = path ++ [.property name])
    (undisputed : ∀ conflict ∈ run.conflicts, conflict.kind = .dataType →
      conflict.path <+: entry.path → conflict.path = entry.path)
    (label : Label) (properties : List (String × Node)) (required : List String)
    (present : run.stored.get? path = some (.object label properties required)) :
    name ∈ required ↔ BornOut run.occurrences entry ∨
      0 < entry.required ∧ entry.required ≤ entry.optional := by
  have regular := regular_of_generate ordered finished
  have sampled : run.occurrences.sampleCount > 1 := by
    rw [sampleCount_eq regular]
    exact several
  have kept := map_get?_stored regular (Node.demand name) (Node.demand_update_cons name)
    (Node.demand_relabel name) (Node.demand_store name) path
  obtain ⟨resolved, here, same⟩ := Node.exists_of_map_get? kept present
  have requires : resolved.requires? name = some (decide (name ∈ required)) :=
    (Prod.mk.inj same).1
  obtain ⟨silence, asking⟩ := ofRequired?_iff_bornOut run.occurrences entry
  cases found : ofRequired? run.occurrences entry with
  | none =>
      -- nobody asks, so the name stays required as soon as one sample requires it
      have agreed := silence.mp found
      have declared := requires_iff_declared regular listed place undisputed found here
      rw [requires, Option.some.injEq, decide_eq_true_iff] at declared
      rw [declared, ← agreed]
      omega
  | some conflict =>
      obtain ⟨isRequired, resolution, actual⟩ := asking conflict found
      have disagreed := mt silence.mpr (by simp [found])
      cases resolved with
      | object label' properties' required' =>
          have asked := requires_iff_asked regular listed place sampled found resolution here
          simp only [Node.requires?, Node.required?, Option.map_some, Option.some.injEq,
            decide_eq_decide] at requires
          rw [← requires, asked, actual]
          by_cases born : BornOut run.occurrences entry
          · simp [born]
          · have most : entry.optional < entry.required := by
              by_contra fewer
              exact disagreed ⟨fun less => absurd less fewer, fun yes => absurd yes born⟩
            simp only [born, false_or, false_iff]
            omega
      | _ => simp [Node.requires?, Node.required?] at requires

/-- The array of the second sample has no elements, so the name that the first requires is not borne
out. -/
theorem stored_requires_iff_counted_empty :
    let samples := [Json.object [("xs", .array [.object [("b", .bool true)]])],
      .object [("xs", .array [])]]
    let path : Path := [.property "xs", .items]
    ∃ run entry label properties required, (∀ sample ∈ samples, sample.Ordered) ∧
      generate {} { dataset := "events" } samples = .ok run ∧ 2 ≤ run.samples.length ∧
        entry ∈ run.occurrences.entries ∧ entry.path = path ++ [.property "b"] ∧
          run.stored.get? path = some (.object label properties required) ∧
            (∃ tree ∈ run.inferred, ∃ node, tree.get? path = some node ∧
              node.requires? "b" = some true) ∧
              ¬ BornOut run.occurrences entry ∧ "b" ∉ required := by
  intro samples path
  have ordered : ∀ sample ∈ samples, sample.Ordered := Json.ordered_of_sorted samples (by rfl)
  have finished : ∃ run, generate {} { dataset := "events" } samples = .ok run ∧
      2 ≤ run.samples.length ∧
        (∃ entry ∈ run.occurrences.entries, entry.path = path ++ [.property "b"] ∧
          ¬ BornOut run.occurrences entry ∧ entry.optional = 0) ∧
          (∀ conflict ∈ run.conflicts, conflict.kind ≠ .dataType) ∧
            (∃ label properties required,
              run.stored.get? path = some (.object label properties required)) ∧
              ∃ tree ∈ run.inferred, ∃ node, tree.get? path = some node ∧
                node.requires? "b" = some true :=
    ⟨_, rfl, by decide, by decide, by decide, ⟨_, _, _, rfl⟩,
      _, List.mem_cons_self, _, rfl, by decide⟩
  obtain ⟨run, made, several, ⟨entry, listed, place, unborn, never⟩, agreed,
    ⟨label, properties, required, present⟩, requires⟩ := finished
  have described := stored_requires_iff_counted {} { dataset := "events" } samples run ordered made
    several entry listed path "b" place
    (fun conflict member kind => absurd kind (agreed conflict member)) label properties required
    present
  refine ⟨run, entry, label, properties, required, ordered, made, several, listed, place, present,
    requires, unborn, ?_⟩
  rw [described, never]
  simp only [unborn, false_or]
  omega

/-- Of three samples two have the field and one of those does not require it in all elements: it counts
as optional in every respect, yet no conflict asks, and the requirement of one sample stays. -/
theorem stored_requires_not_bornOut :
    let samples := [Json.object [("xs", .array [.object [("b", .bool true)]])],
      .object [("xs", .array [.object [("b", .bool true)], .object []])],
      .object [("xs", .array [])]]
    let path : Path := [.property "xs", .items]
    ∃ run entry label properties required, (∀ sample ∈ samples, sample.Ordered) ∧
      generate {} { dataset := "events" } samples = .ok run ∧ 2 ≤ run.samples.length ∧
        entry ∈ run.occurrences.entries ∧ entry.path = path ++ [.property "b"] ∧
          entry.presence < run.occurrences.containerPresence entry.path ∧
            (∀ conflict ∈ run.conflicts, conflict.kind ≠ .dataType) ∧
              run.stored.get? path = some (.object label properties required) ∧ "b" ∈ required := by
  intro samples path
  have ordered : ∀ sample ∈ samples, sample.Ordered := Json.ordered_of_sorted samples (by rfl)
  have finished : ∃ run, generate {} { dataset := "events" } samples = .ok run ∧
      2 ≤ run.samples.length ∧
        (∃ entry ∈ run.occurrences.entries, entry.path = path ++ [.property "b"] ∧
          entry.presence < run.occurrences.containerPresence entry.path) ∧
          (∀ conflict ∈ run.conflicts, conflict.kind ≠ .dataType) ∧
            ∃ label properties required,
              run.stored.get? path = some (.object label properties required) ∧ "b" ∈ required :=
    ⟨_, rfl, by decide, by decide, by decide, _, _, _, rfl, by decide⟩
  obtain ⟨run, made, several, ⟨entry, listed, place, fewer⟩, agreed, label, properties, required,
    present, demanded⟩ := finished
  exact ⟨run, entry, label, properties, required, ordered, made, several, listed, place, fewer, agreed,
    present, demanded⟩

end Run

end EventSchema
