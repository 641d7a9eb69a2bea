import EventSchema.Proofs.Demands
import EventSchema.Proofs.Surveys

namespace EventSchema

theorem Path.items_not_mem_names (names : List String) : Step.items ∉ names.map Step.property := by
  simp

theorem Path.eq_names_of_prefix {outer : Path} {names : List String}
    (inside : outer <+: names.map Step.property) :
    ∃ names' : List String, outer = names'.map Step.property := by
  refine ⟨names.take outer.length, ?_⟩
  rw [List.map_take]
  exact List.prefix_iff_eq_take.mp inside

theorem Path.container_names (names : List String) (name : String) :
    Path.container (names.map Step.property ++ [.property name]) = names.map Step.property := by
  have kept : (names.map Step.property).reverse.dropWhile (· = .items) =
      (names.map Step.property).reverse := by
    cases same : (names.map Step.property).reverse with
    | nil => rfl
    | cons step rest =>
        have member : step ∈ names.map Step.property := by
          rw [← List.mem_reverse, same]
          exact List.mem_cons_self
        have different : step ≠ .items := by
          intro isItems
          subst isItems
          exact Path.items_not_mem_names names member
        simp [List.dropWhile, different]
  rw [Path.container]
  rw [List.dropLast_concat, kept, List.reverse_reverse]

theorem Node.uncut_names (places : List Path) (names : List String) :
    ¬ Cut places (names.map Step.property) := by
  intro cut
  rcases cut with ⟨place, -, inside⟩
  refine Path.items_not_mem_names names (inside.subset ?_)
  exact List.mem_append_right _ List.mem_cons_self

theorem countP_of_forall₂ {α β : Type} {related : α → β → Prop} {first : α → Bool}
    {second : β → Bool} {left : List α} {right : List β} (each : List.Forall₂ related left right)
    (same : ∀ one other, related one other → first one = second other) :
    left.countP first = right.countP second := by
  induction each with
  | nil => rfl
  | cons head _ ih => rw [List.countP_cons, List.countP_cons, ih, same _ _ head]

namespace Run

variable {run : Run} (regular : run.Regular)

include regular

theorem inferred_forall₂ :
    ∃ settings, List.Forall₂ (fun sample tree => Node.infer settings 0 sample = .ok tree)
      run.samples run.inferred := by
  rcases regular.read with ⟨settings, read⟩
  refine ⟨settings, ((Node.ofSamples_eq_ok_iff settings run.samples run.inferred).mp read).imp ?_⟩
  intro sample tree own
  exact ((Node.ofSample_eq_ok_iff settings sample tree).mp own).2

theorem sampleCount_eq : run.occurrences.sampleCount = run.samples.length := by
  rcases inferred_forall₂ regular with ⟨settings, each⟩
  rw [each.length_eq, regular.tabulated, regular.compared, Comparison.compare_eq]
  simp [Occurrences.tabulate]

theorem not_unionAt_names (names : List String) (outer : Path)
    (inside : outer <+: names.map Step.property) :
    ¬ Conflict.UnionAt run.comparison.perSample outer := by
  intro unionAt
  rcases unionAt with ⟨sample, member, node, present, union⟩
  rcases Path.eq_names_of_prefix inside with ⟨names', rfl⟩
  rcases inferred_of_perSample regular member present with ⟨tree, inferred, own, here, same⟩
  rcases regular.read with ⟨settings, read⟩
  rcases Node.sample_of_ofSamples read inferred with ⟨value, -, -, known⟩
  rcases Node.get?_infer names' known with ⟨-, absent⟩ | ⟨_, _, child, -, found, part⟩
  · rw [absent] at here
    cases here
  · obtain rfl : child = own := Option.some.inj (found.symm.trans here)
    exact Node.plain_infer part (same.trans union)

theorem declares_inferred (names : List String) (name : String) (tree : Node)
    (inferred : tree ∈ run.inferred) (node : Node)
    (present : tree.get? (names.map .property) = some node) : node.Declares name := by
  rcases regular.read with ⟨settings, read⟩
  rcases Node.sample_of_ofSamples read inferred with ⟨value, -, -, known⟩
  exact Node.declares_infer known names name present

omit regular in
theorem demand_degradeAll (places : List Path) (names : List String) (name : String) (tree : Node) :
    ((tree.degradeAll places).get? (names.map .property)).map (Node.demand name) =
      (tree.get? (names.map .property)).map (Node.demand name) :=
  Node.map_get?_degradeAll_same (Node.demand name) (Node.demand_update_cons name)
    (Node.demand_forgetItems name) places _ tree (Node.uncut_names places names)

theorem declares_sample (names : List String) (name : String) (sample : Node)
    (member : sample ∈ run.comparison.perSample) (node : Node)
    (present : sample.get? (names.map .property) = some node) : node.Declares name := by
  rcases (mem_perSample regular sample).mp member with ⟨tree, inferred, rfl⟩
  have kept := demand_degradeAll run.comparison.degraded names name tree
  rcases Node.exists_of_map_get? kept present with ⟨own, here, same⟩
  exact Node.declares_congr (declares_inferred regular names name tree inferred own here) same

theorem declares_merged (names : List String) (name : String) (node : Node)
    (present : run.comparison.merged.get? (names.map .property) = some node) :
    node.Declares name := by
  have merged : ∀ own, run.merged.get? (names.map .property) = some own → own.Declares name := by
    intro own here
    exact Node.get?_mergeAll_induction (Node.Declares name) (Node.declares_mergeInto name)
      regular.wellFormed (declares_inferred regular names name) regular.joined here
  rw [regular.compared, Comparison.compare_eq] at present
  have kept := demand_degradeAll
    (Comparison.divergent (Comparison.observed run.inferred)) names name run.merged
  rcases Node.exists_of_map_get? kept present with ⟨own, here, same⟩
  exact Node.declares_congr (merged own here) same

theorem countP_perSample (names : List String) :
    run.comparison.perSample.countP (fun tree => (tree.get? (names.map .property)).isSome) =
      run.samples.countP fun sample => (Source.follow names sample).isSome := by
  rcases inferred_forall₂ regular with ⟨settings, each⟩
  have degraded : run.comparison.perSample.countP
      (fun tree => (tree.get? (names.map .property)).isSome) =
        run.inferred.countP fun tree => (tree.get? (names.map .property)).isSome := by
    rw [regular.compared, Comparison.compare_eq, List.countP_map]
    congr 1
    funext tree
    have kept := Node.plainType?_get?_degradeAll
      (Comparison.divergent (Comparison.observed run.inferred)) (names.map .property) tree
      (Node.uncut_names _ names)
    simpa using congrArg Option.isSome kept
  rw [degraded]
  refine (countP_of_forall₂ each ?_).symm
  intro sample tree read
  exact (Node.isSome_get?_infer names read).symm

end Run

end EventSchema
