import EventSchema.Proofs.Surveys
/-!
What lies above a path at which no types are in conflict: all samples have there containers of one
kind, so the merged tree has at the path what the samples have, merged.
-/
namespace EventSchema.Run

open Conflict

/-- No conflict between types stands above the path. -/
def Undisputed (run : Run) (path : Path) : Prop :=
  ∀ conflict ∈ run.conflicts, conflict.kind = .dataType → conflict.path <+: path →
    conflict.path = path

variable {run : Run} (regular : run.Regular)

include regular

theorem not_nullOnly_of_step {entry : Occurrence} (listed : entry ∈ run.occurrences.entries)
    {step : Step} {sample node child : Node} (member : sample ∈ run.comparison.perSample)
    (present : sample.get? entry.path = some node) (next : node.step? step = some child) :
    nullOnly entry = false := by
  have shown : Node.container step ∈ Keyed.keys entry.types :=
    (mem_types_iff regular listed _).mpr ⟨sample, member, node, present,
      by simp [Node.recordedTypes_of_plain (Node.plainType?_of_step? next)]⟩
  rw [Bool.eq_false_iff]
  intro only
  rw [(nullOnly_iff entry).mp only, List.mem_singleton] at shown
  cases step <;> cases shown

theorem container_of_undisputed {outer : Path} {step : Step} {sample node : Node}
    (tabular : Path.Tabular outer) (member : sample ∈ run.comparison.perSample) {child : Node}
    (present : sample.get? outer = some node) (next : node.step? step = some child)
    (undisputed : ∀ conflict ∈ run.conflicts, conflict.kind = .dataType → conflict.path ≠ outer) :
    ∀ tree ∈ run.comparison.perSample, ∀ other, tree.get? outer = some other →
      other.plainType? = some (Node.container step) := by
  have recorded := (mem_table_iff regular outer).mpr ⟨tabular, sample, member, node, present⟩
  rcases List.mem_map.mp recorded with ⟨entry, listed, rfl⟩
  have own := Node.plainType?_of_step? next
  cases found : onType? entry with
  | none =>
      obtain ⟨type, plain, -, keys, -⟩ :=
        plain_of_agreement regular listed found sample member node present
      intro tree sampled other there
      obtain ⟨type', plain', -, keys', -⟩ :=
        plain_of_agreement regular listed found tree sampled other there
      obtain rfl : type = type' := by
        rw [keys] at keys'
        exact (List.cons.inj keys').1
      rw [plain', ← plain, own]
  | some conflict =>
      rcases mem_onType found with ⟨place, ⟨only, -⟩ | ⟨-, same⟩⟩
      · rw [not_nullOnly_of_step regular listed member present next] at only
        cases only
      · exact absurd place (undisputed conflict (onType_mem_conflicts regular listed found)
          (same ▸ rfl))

theorem isObject_of_inferred {tree : Node} (inferred : tree ∈ run.inferred) :
    ∃ label properties required, tree = .object label properties required := by
  rcases regular.read with ⟨settings, read⟩
  exact Node.isObject_of_ofSamples settings run.samples run.inferred read tree inferred

section Above

variable {outer : Path} {step : Step} {rest : Path} {sample found : Node}
  (tabular : Path.Tabular (outer ++ step :: rest)) (member : sample ∈ run.comparison.perSample)
  (present : sample.get? (outer ++ step :: rest) = some found)
  (undisputed : run.Undisputed (outer ++ step :: rest))

include tabular member present undisputed

theorem container_above (inside : outer = [] ∨ Path.Tabular outer) {tree node : Node}
    (inferred : tree ∈ run.inferred) (there : tree.get? outer = some node) :
    node.plainType? = some (Node.container step) := by
  rcases inside with rfl | listed
  · rcases isObject_of_inferred regular inferred with ⟨label, properties, required, rfl⟩
    obtain rfl : Node.object label properties required = node := Option.some.inj there
    rcases tabular.head_property with ⟨name, path, same⟩
    rw [(List.cons.inj same).1]
    rfl
  · rcases Node.exists_step_of_get? present with ⟨own, child, here, next, -⟩
    have apart : ∀ conflict ∈ run.conflicts, conflict.kind = .dataType →
        conflict.path ≠ outer := by
      intro conflict inRun kind atOuter
      subst atOuter
      have same := undisputed conflict inRun kind (List.prefix_append _ _)
      have length := congrArg List.length same
      simp at length
    have uncut : ¬ Node.Cut run.comparison.degraded outer := uncut_of_sampled regular member here
    obtain ⟨other, sampled, found', there', same⟩ :=
      perSample_of_inferred regular inferred uncut there
    rw [← same]
    exact container_of_undisputed regular listed member here next apart other sampled found' there'

/-- An array above the path is not degraded, for its items would be lost. -/
theorem outer_not_degraded : outer ∉ run.comparison.degraded := by
  intro degraded
  have listed := degraded
  rw [regular.compared, Comparison.compare_eq] at listed
  have noItems := Comparison.items_not_mem_degraded regular.wellFormed outer listed
  obtain ⟨tree, inferred, label, items, there⟩ :=
    Comparison.array_of_mem_degraded regular.wellFormed outer listed
  have inside : outer = [] ∨ Path.Tabular outer := by
    rcases tabular.outer_cases with ⟨top, -⟩ | further | ⟨array, _, rfl, -, -⟩
    · exact .inl top
    · exact .inr further
    · exact absurd (by simp) noItems
  have own := container_above regular tabular member present undisputed inside inferred there
  have items : step = .items := by
    cases step with
    | items => rfl
    | property name => cases own
  refine uncut_of_sampled regular member present ⟨outer, degraded, ?_⟩
  rw [items]
  exact (List.prefix_append_right_inj outer).mpr (List.cons_prefix_cons.mpr ⟨rfl, List.nil_prefix⟩)

theorem not_prefix_of_degraded {place : Path} (degraded : place ∈ run.comparison.degraded) :
    ¬ place <+: outer := by
  intro inside
  rcases inside with ⟨between, rfl⟩
  cases between with
  | nil =>
      rw [List.append_nil] at tabular present undisputed
      exact outer_not_degraded regular tabular member present undisputed degraded
  | cons next further =>
      rw [List.append_assoc, List.cons_append] at tabular present undisputed
      exact outer_not_degraded regular tabular member present undisputed degraded

theorem items_above {array : Path} (whole : outer = array ++ [.items]) {name : String}
    (last : step = .property name) {tree node : Node} (inferred : tree ∈ run.inferred)
    (there : tree.get? outer = some node) : node.plainType? = some .object := by
  have kept : ∀ place ∈ Comparison.divergent (Comparison.observed run.inferred),
      ¬ place <+: array := by
    intro place degraded inside
    have listed : place ∈ run.comparison.degraded := by
      rw [regular.compared, Comparison.compare_eq]
      exact degraded
    apply not_prefix_of_degraded regular tabular member present undisputed listed
    rw [whole]
    exact inside.trans (List.prefix_append array _)
  rcases Node.exists_step_of_get? present with ⟨own, child, here, next, -⟩
  have object : own.plainType? = some .object := by
    rw [Node.plainType?_of_step? next, last]
    rfl
  rcases inferred_of_perSample regular member here with ⟨former, inferred', node', here', same⟩
  rw [whole] at there here'
  rcases Node.exists_array_of_get? there with ⟨label, items, container, reached⟩
  rcases Node.exists_array_of_get? here' with ⟨label', items', container', reached'⟩
  obtain rfl : items = node := Option.some.inj reached
  obtain rfl : items' = node' := Option.some.inj reached'
  have shape := Comparison.sameShape_of_not_degraded regular.wellFormed array kept former tree
    label' label items' items inferred' inferred container' container
  exact Node.object_of_sameShape shape (same.trans object)

theorem admits_above {tree node : Node} (inferred : tree ∈ run.inferred)
    (there : tree.get? outer = some node) : node.Admits step := by
  apply Node.admits_of_container ((regular.wellFormed tree inferred).get? there)
  rcases tabular.outer_cases with ⟨top, -⟩ | further | ⟨array, name, whole, -, last⟩
  · exact container_above regular tabular member present undisputed (.inl top) inferred there
  · exact container_above regular tabular member present undisputed (.inr further) inferred there
  · rw [last]
    exact items_above regular tabular member present undisputed whole last inferred there

end Above

theorem settled_above {path : Path} {sample found : Node} (member : sample ∈ run.comparison.perSample)
    (present : sample.get? path = some found) (undisputed : run.Undisputed path) :
    ∀ conflict ∈ run.conflicts, conflict.settles? ≠ none → conflict.path <+: path →
      conflict.path = path := by
  intro conflict inRun settled inside
  rcases mem_conflicts regular inRun with ⟨entry, listed, place, onType | beside⟩
  · rcases (mem_onType onType).2 with ⟨only, -⟩ | ⟨-, rfl⟩
    · rcases inside with ⟨rest, rfl⟩
      cases rest with
      | nil => simp
      | cons step rest =>
          rw [← place] at present
          obtain ⟨own, child, here, next, -⟩ := Node.exists_step_of_get? present
          rw [not_nullOnly_of_step regular listed member here next] at only
          cases only
    · exact undisputed _ inRun rfl inside
  · exact absurd (besidesType_cases beside).2.2 settled

theorem merged_of_sampled {path : Path} {sample found : Node} (tabular : Path.Tabular path)
    (member : sample ∈ run.comparison.perSample) (present : sample.get? path = some found)
    (undisputed : run.Undisputed path) :
    ∃ node, run.comparison.merged.get? path = some node := by
  have uncut := uncut_of_sampled regular member present
  have admitted : ∀ outer step rest, path = outer ++ step :: rest → ∀ tree ∈ run.inferred,
      ∀ node, tree.get? outer = some node → node.Admits step := by
    intro outer step rest split tree inferred node there
    subst split
    exact admits_above regular tabular member present undisputed inferred there
  have joined := Node.get?_mergeAll regular.wellFormed admitted
  rcases inferred_of_perSample regular member present with ⟨former, inferred, own, here, -⟩
  have listed : own ∈ run.inferred.filterMap (Node.get? path) :=
    List.mem_filterMap.mpr ⟨former, inferred, here⟩
  have merged : ∃ node, run.merged.get? path = some node := by
    rw [regular.joined, Option.bind_some] at joined
    rw [joined]
    cases each : run.inferred.filterMap (Node.get? path) with
    | nil =>
        rw [each] at listed
        cases listed
    | cons first others => exact ⟨_, rfl⟩
  rcases merged with ⟨node, there⟩
  have kept := Node.plainType?_get?_degradeAll run.comparison.degraded path run.merged uncut
  rcases Node.exists_of_map_get? kept.symm there with ⟨node', there', -⟩
  refine ⟨node', ?_⟩
  rw [regular.compared, Comparison.compare_eq] at there' ⊢
  exact there'

end EventSchema.Run
