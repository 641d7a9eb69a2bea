import EventSchema.Proofs.Occurrences
import EventSchema.Proofs.Runs
/-!
What a run finds does not depend on the order of its samples. The merged tree does: where types
disagree it keeps the later one. What is found is taken from the trees of the samples instead, and
neither the comparison of arrays nor the counts of the table show in which order they came.
-/
namespace EventSchema

namespace Comparison

theorem differ_perm (trees trees' : List Node) (shuffled : trees.Perm trees') :
    Differ trees = Differ trees' := by
  funext path
  simp only [Differ, shuffled.mem_iff]

/-- Arrays are compared with the first one observed at their path, yet having the same shape is an
equivalence, so any other one would serve. -/
theorem degraded_perm (trees trees' : List Node) (shuffled : trees.Perm trees') :
    divergent (observed trees) = divergent (observed trees') := by
  apply Ordered.eq_of_mem_iff (degraded_increasing trees) (degraded_increasing trees')
  intro path
  rw [mem_degraded_iff, mem_degraded_iff, differ_perm trees trees' shuffled]

theorem perSample_perm (trees trees' : List Node) (merged merged' : Node)
    (shuffled : trees.Perm trees') :
    (compare trees merged).perSample.Perm (compare trees' merged').perSample := by
  rw [compare_eq, compare_eq, degraded_perm trees trees' shuffled]
  exact shuffled.map _

end Comparison

namespace Run

theorem ofTrees_perm (settings : Settings) (samples samples' : List Json) (trees trees' : List Node)
    (merged merged' : Node) (shuffled : trees.Perm trees') :
    let run := ofTrees settings samples trees merged
    let run' := ofTrees settings samples' trees' merged'
    run.comparison.degraded = run'.comparison.degraded ∧ run.occurrences = run'.occurrences ∧
      run.conflicts = run'.conflicts ∧ run.suggestions = run'.suggestions := by
  intro run run'
  have fields : run.fields.Perm run'.fields :=
    (Comparison.perSample_perm trees trees' merged merged' shuffled).map Node.fields
  have named : ∀ records ∈ run.fields, ∀ field ∈ records,
      Path.lastName? field.path = some field.property := by
    intro records sampled field member
    rcases List.mem_map.mp sampled with ⟨tree, -, rfl⟩
    exact tree.property_of_mem_fields field member
  have occurrences : run.occurrences = run'.occurrences := Occurrences.tabulate_perm fields named
  have conflicts : run.conflicts = run'.conflicts := congrArg Conflict.classify occurrences
  have suggestions : run.suggestions = run'.suggestions :=
    congrArg Conflict.allSuggestions conflicts
  exact ⟨Comparison.degraded_perm trees trees' shuffled, occurrences, conflicts, suggestions⟩

/-- Samples in another order make a run that succeeds as well, and finds the same arrays to degrade,
the same occurrences, the same conflicts and the same suggestions. -/
theorem findings_perm (settings : Settings) (source : Source) (samples samples' : List Json)
    (run : Run) (shuffled : samples.Perm samples')
    (finished : generate settings source samples = .ok run) :
    ∃ run', generate settings source samples' = .ok run' ∧
      run'.comparison.degraded = run.comparison.degraded ∧ run'.occurrences = run.occurrences ∧
        run'.conflicts = run.conflicts ∧ run'.suggestions = run.suggestions := by
  rcases (generate_eq_ok_iff settings source samples run).mp finished with
    ⟨prepared, unpacked, made⟩
  obtain ⟨prepared', unpacked', moved⟩ :=
    source.prepare_perm samples samples' prepared shuffled unpacked
  rcases (ofSamples_eq_ok_iff settings prepared run).mp made with
    ⟨trees, merged, inferred, joined, rfl⟩
  obtain ⟨trees', inferred', moved'⟩ :=
    Node.ofSamples_perm settings prepared prepared' trees moved inferred
  have joined' : ∃ merged', Node.mergeAll? trees' = some merged' := by
    cases trees' with
    | nil =>
        rw [List.perm_nil.mp moved'] at joined
        cases joined
    | cons first rest => exact ⟨_, rfl⟩
  rcases joined' with ⟨merged', joined'⟩
  obtain ⟨degraded, occurrences, conflicts, suggestions⟩ :=
    ofTrees_perm settings prepared' prepared trees' trees merged' merged moved'.symm
  refine ⟨ofTrees settings prepared' trees' merged', ?_, degraded, occurrences, conflicts,
    suggestions⟩
  exact (generate_eq_ok_iff settings source samples' _).mpr ⟨prepared', unpacked',
    (ofSamples_eq_ok_iff settings prepared' _).mpr ⟨trees', merged', inferred', joined', rfl⟩⟩

/-- Two samples that disagree on a type and on the elements of an array. -/
theorem findings_perm_swap :
    let first := Json.object [("a", .null), ("b", .array [.bool true])]
    let second := Json.object [("a", .bool true), ("b", .array [.array []])]
    ∃ run, [first, second].Perm [second, first] ∧
      generate {} { dataset := "events" } [first, second] = .ok run ∧
        run.comparison.degraded = [[.property "b"]] ∧
          ∃ run', generate {} { dataset := "events" } [second, first] = .ok run' ∧
            run'.comparison.degraded = run.comparison.degraded ∧
              run'.occurrences = run.occurrences ∧ run'.conflicts = run.conflicts ∧
                run'.suggestions = run.suggestions := by
  intro first second
  have shuffled : [first, second].Perm [second, first] := .swap second first []
  have finished : ∃ run, generate {} { dataset := "events" } [first, second] = .ok run ∧
      run.comparison.degraded = [[.property "b"]] := ⟨_, rfl, by decide⟩
  rcases finished with ⟨run, made, degraded⟩
  exact ⟨run, shuffled, made, degraded,
    findings_perm {} { dataset := "events" } _ _ run shuffled made⟩

end Run

end EventSchema
