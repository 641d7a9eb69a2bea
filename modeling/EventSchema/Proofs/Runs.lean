import EventSchema.Proofs.Degrading
import EventSchema.Proofs.Merging
import EventSchema.Proofs.Results
import EventSchema.Run

namespace EventSchema

namespace Node

theorem ofSamples_eq_ok_iff (settings : Settings) (samples : List Json) (trees : List Node) :
    ofSamples settings samples = .ok trees ↔
      List.Forall₂ (fun sample tree => ofSample settings sample = .ok tree) samples trees := by
  rw [ofSamples]
  exact mapM_eq_ok_iff

theorem ofSamples_perm (settings : Settings) (samples samples' : List Json) (trees : List Node)
    (shuffled : samples.Perm samples') (inferred : ofSamples settings samples = .ok trees) :
    ∃ trees', ofSamples settings samples' = .ok trees' ∧ trees.Perm trees' := by
  have each := (ofSamples_eq_ok_iff settings samples trees).mp inferred
  rcases List.perm_comp_forall₂ shuffled.symm each with ⟨trees', each', moved⟩
  exact ⟨trees', (ofSamples_eq_ok_iff settings samples' trees').mpr each', moved.symm⟩

theorem sample_of_ofSamples {settings : Settings} {samples : List Json} {trees : List Node}
    (inferred : ofSamples settings samples = .ok trees) {tree : Node} (member : tree ∈ trees) :
    ∃ sample ∈ samples, sample.isObject = true ∧ infer settings 0 sample = .ok tree := by
  have each := (ofSamples_eq_ok_iff settings samples trees).mp inferred
  obtain ⟨sample, sampled, read⟩ := exists_of_forall₂ each member
  exact ⟨sample, sampled, (ofSample_eq_ok_iff settings sample tree).mp read⟩

theorem tree_of_ofSamples {settings : Settings} {samples : List Json} {trees : List Node}
    (inferred : ofSamples settings samples = .ok trees) {sample : Json} (member : sample ∈ samples) :
    ∃ tree ∈ trees, infer settings 0 sample = .ok tree := by
  have each := (ofSamples_eq_ok_iff settings samples trees).mp inferred
  obtain ⟨tree, listed, read⟩ := exists_of_forall₂ each.flip member
  exact ⟨tree, listed, ((ofSample_eq_ok_iff settings sample tree).mp read).2⟩

theorem ofSamples_wellFormed (settings : Settings) (samples : List Json) (trees : List Node)
    (ordered : ∀ sample ∈ samples, sample.Ordered)
    (inferred : ofSamples settings samples = .ok trees) :
    ∀ tree ∈ trees, tree.WellFormed False := by
  intro tree member
  rcases sample_of_ofSamples inferred member with ⟨sample, sampled, -, read⟩
  exact infer_wellFormed settings sample 0 tree (ordered sample sampled) read

theorem isObject_of_ofSamples (settings : Settings) (samples : List Json) (trees : List Node)
    (inferred : ofSamples settings samples = .ok trees) :
    ∀ tree ∈ trees, ∃ label properties required, tree = object label properties required := by
  intro tree member
  rcases sample_of_ofSamples inferred member with ⟨sample, -, isObject, read⟩
  cases sample with
  | object members =>
      rcases infer_object read with ⟨properties, -, rfl⟩
      exact ⟨{}, properties, Keyed.keys properties, rfl⟩
  | _ => cases isObject

end Node

namespace Run

theorem ofSamples_eq_ok_iff (settings : Settings) (samples : List Json) (run : Run) :
    ofSamples settings samples = .ok run ↔
      ∃ trees merged, Node.ofSamples settings samples = .ok trees ∧
        Node.mergeAll? trees = some merged ∧ run = ofTrees settings samples trees merged := by
  rw [ofSamples]
  cases inferred : Node.ofSamples settings samples with
  | error error => simp [bind, Except.bind]
  | ok trees =>
      cases joined : Node.mergeAll? trees with
      | none => simp [bind, Except.bind, joined]
      | some merged => simp [bind, Except.bind, joined, pure, Except.pure, eq_comm]

theorem generate_eq_ok_iff (settings : Settings) (source : Source) (samples : List Json)
    (run : Run) :
    generate settings source samples = .ok run ↔
      ∃ prepared, source.prepare samples = .ok prepared ∧
        ofSamples settings prepared = .ok run := by
  rw [generate]
  exact bind_eq_ok_iff

structure Regular (run : Run) : Prop where
  read : ∃ settings, Node.ofSamples settings run.samples = .ok run.inferred
  wellFormed : ∀ tree ∈ run.inferred, tree.WellFormed False
  joined : Node.mergeAll? run.inferred = some run.merged
  compared : run.comparison = Comparison.compare run.inferred run.merged
  tabulated : run.occurrences = Occurrences.tabulate (run.comparison.perSample.map Node.fields)
  classified : run.conflicts = Conflict.classify run.occurrences
  resolved : run.resolved =
    Conflict.resolveAll run.comparison.perSample run.conflicts run.comparison.merged
  stored : run.stored = (Conflict.annotateAll run.conflicts run.resolved).mapTypes

theorem regular_of_generate {settings : Settings} {source : Source} {samples : List Json} {run : Run}
    (ordered : ∀ sample ∈ samples, sample.Ordered)
    (finished : generate settings source samples = .ok run) : run.Regular := by
  rcases (generate_eq_ok_iff settings source samples run).mp finished with
    ⟨prepared, unpacked, made⟩
  rcases (ofSamples_eq_ok_iff settings prepared run).mp made with
    ⟨trees, merged, inferred, joined, rfl⟩
  have ordered' := source.prepare_ordered samples prepared ordered unpacked
  exact
    { read := ⟨settings, inferred⟩
      wellFormed := Node.ofSamples_wellFormed settings prepared trees ordered' inferred
      joined
      compared := rfl
      tabulated := rfl
      classified := rfl
      resolved := rfl
      stored := rfl }

end Run

end EventSchema
