import EventSchema.Proofs.FieldListing
import EventSchema.Proofs.Surveys

namespace EventSchema

namespace Occurrences

theorem sum_histogram {κ : Type} [LT κ] [DecidableLT κ] [DecidableEq κ]
    [IsStrictTotalOrder κ (· < ·)] (keys : List κ) :
    (Keyed.values (histogram keys)).sum = keys.length := by
  induction keys using List.reverseRecOn with
  | nil => rfl
  | append_singleton keys last ih =>
      have replaced := Keyed.sum_values_insert last
        ((Keyed.lookup last (histogram keys)).getD 0 + 1) _ (increasing_histogram keys)
      rw [histogram_append, Keyed.tally, Keyed.alter, List.length_append, List.length_singleton]
      omega

section Counts

variable (samples : List (List Field)) (path : Path)

theorem sum_types :
    (Keyed.values (occurrence samples path).types).sum =
      (samples.map fun fields => fields.countP (·.path = path)).sum := by
  simp only [occurrence, sum_histogram, List.length_map, List.length_flatten, List.map_map]
  congr 1
  apply List.map_congr_left
  intro fields _
  exact List.countP_eq_length_filter.symm

theorem sum_formats_le :
    (Keyed.values (occurrence samples path).formats).sum ≤
      (Keyed.values (occurrence samples path).types).sum := by
  simp only [occurrence, sum_histogram, List.length_map]
  exact List.length_filterMap_le _ _

theorem required_add_optional :
    (occurrence samples path).required + (occurrence samples path).optional =
      (occurrence samples path).presence := by
  have parts := (firsts samples path).length_eq_countP_add_countP Field.isRequired
  simp only [Bool.not_eq_true, Bool.decide_eq_false] at parts
  exact parts.symm

theorem countP_path_pos_iff (fields : List Field) :
    0 < fields.countP (·.path = path) ↔ path ∈ fields.map Field.path := by
  simp [List.countP_pos_iff]

theorem presence_le_sum_types :
    (occurrence samples path).presence ≤ (Keyed.values (occurrence samples path).types).sum := by
  rw [presence_eq_countP, sum_types]
  induction samples with
  | nil => exact Nat.le_refl 0
  | cons fields rest ih =>
      rw [List.countP_cons, List.map_cons, List.sum_cons]
      by_cases listed : path ∈ fields.map Field.path
      · have counted := (countP_path_pos_iff path fields).mpr listed
        rw [if_pos (decide_eq_true listed)]
        omega
      · rw [if_neg (by simpa using listed)]
        omega

theorem sum_types_le {bound : Nat}
    (each : ∀ fields ∈ samples, fields.countP (·.path = path) ≤ bound) :
    (Keyed.values (occurrence samples path).types).sum ≤
      bound * (occurrence samples path).presence := by
  rw [presence_eq_countP, sum_types]
  induction samples with
  | nil => exact Nat.le_refl 0
  | cons fields rest ih =>
      have inner := ih fun fields member => each fields (List.mem_cons_of_mem _ member)
      rw [List.countP_cons, List.map_cons, List.sum_cons]
      by_cases listed : path ∈ fields.map Field.path
      · have own := each fields List.mem_cons_self
        rw [if_pos (decide_eq_true listed), Nat.mul_succ]
        omega
      · have uncounted : ¬ 0 < fields.countP (·.path = path) :=
          mt (countP_path_pos_iff path fields).mp listed
        rw [if_neg (by simpa using listed), Nat.add_zero]
        omega

variable {entry : Occurrence} (listed : entry ∈ (tabulate samples).entries)

include listed in
theorem presence_pos : 1 ≤ entry.presence := by
  obtain ⟨⟨fields, sampled, recorded⟩, same⟩ := (mem_entries samples entry).mp listed
  rw [same, presence_eq_countP]
  exact List.countP_pos_iff.mpr ⟨fields, sampled, decide_eq_true recorded⟩

include listed in
theorem presence_le_length : entry.presence ≤ samples.length := by
  rw [((mem_entries samples entry).mp listed).2, presence_eq_countP]
  exact List.countP_le_length

theorem presence_mono {outer : Path}
    (along : ∀ fields ∈ samples, path ∈ fields.map Field.path → outer ∈ fields.map Field.path) :
    (occurrence samples path).presence ≤ (occurrence samples outer).presence := by
  rw [presence_eq_countP, presence_eq_countP]
  apply List.countP_mono_left
  intro fields sampled listed
  exact decide_eq_true (along fields sampled (of_decide_eq_true listed))

theorem occurrence_mem_entries
    (listed : path ∈ (tabulate samples).entries.map Occurrence.path) :
    occurrence samples path ∈ (tabulate samples).entries := by
  obtain ⟨entry, member, rfl⟩ := List.mem_map.mp listed
  rw [← ((mem_entries samples entry).mp member).2]
  exact member

end Counts

end Occurrences

namespace Node

theorem IsField.container {root node : Node} {path : Path} (isField : root.IsField path node) :
    path.container = Path.root ∨
      ∃ outer, root.IsField path.container outer ∧ outer.plainType? ≠ none := by
  cases isField with
  | top name node found => exact .inl rfl
  | nested path object name node outer found =>
      right
      rw [Path.container_child outer.get?.1]
      exact ⟨object, outer, by simp [plainType?_of_step? found]⟩
  | element path array items name node outer described found =>
      right
      rw [Path.container_items_child outer.get?.1]
      exact ⟨array, outer, by simp [plainType?_of_step? described]⟩

section Sorted

variable {root : Node} (sorted : root.Sorted)

include sorted

theorem container_mem_fields {path : Path} (listed : path ∈ root.fields.map Field.path) :
    path.container = Path.root ∨ path.container ∈ root.fields.map Field.path := by
  obtain ⟨node, isField, -⟩ := (mem_path_fields_iff sorted path).mp listed
  refine isField.container.imp_right ?_
  rintro ⟨outer, above, plain⟩
  refine (mem_path_fields_iff sorted _).mpr ⟨outer, above, ?_⟩
  rintro label branches rfl
  exact absurd rfl plain

theorem countP_path_fields_le (path : Path) : root.fields.countP (·.path = path) ≤ 2 := by
  by_cases listed : path ∈ root.fields.map Field.path
  · obtain ⟨node, isField, -⟩ := (mem_path_fields_iff sorted path).mp listed
    rw [List.countP_eq_length_filter, length_filter_fields sorted isField]
    exact node.recordCount_le
  · have uncounted := mt (Occurrences.countP_path_pos_iff path root.fields).mp listed
    omega

end Sorted

end Node

namespace Occurrences

/-- How the counts of an entry of a table hang together. -/
structure Balanced (table : Occurrences) (entry : Occurrence) : Prop where
  occurs : 1 ≤ entry.presence
  contained : entry.presence ≤ table.containerPresence entry.path
  sampled : table.containerPresence entry.path ≤ table.sampleCount
  declared : entry.required + entry.optional = entry.presence
  typed : entry.presence ≤ (Keyed.values entry.types).sum
  paired : (Keyed.values entry.types).sum ≤ 2 * entry.presence
  formatted : (Keyed.values entry.formats).sum ≤ (Keyed.values entry.types).sum

/-- The container of an entry is the root, which is in every sample, or has an entry of its own, with
which it occurs. -/
def HasContainer (table : Occurrences) (entry : Occurrence) : Prop :=
  entry.path.container = Path.root ∧ table.containerPresence entry.path = table.sampleCount ∨
    ∃ outer ∈ table.entries, outer.path = entry.path.container ∧
      table.at? entry.path.container = some outer ∧
        table.containerPresence entry.path = outer.presence ∧ entry.presence ≤ outer.presence

section Trees

variable {trees : List Node} (sorted : ∀ tree ∈ trees, tree.Sorted) {entry : Occurrence}
  (listed : entry ∈ (tabulate (trees.map Node.fields)).entries)

include sorted listed

theorem hasContainer : (tabulate (trees.map Node.fields)).HasContainer entry := by
  by_cases top : entry.path.container = Path.root
  · left
    refine ⟨top, ?_⟩
    rw [containerPresence, top]
    rfl
  · right
    have along : ∀ fields ∈ trees.map Node.fields, entry.path ∈ fields.map Field.path →
        entry.path.container ∈ fields.map Field.path := by
      intro fields sampled recorded
      obtain ⟨tree, member, rfl⟩ := List.mem_map.mp sampled
      exact (Node.container_mem_fields (sorted tree member) recorded).resolve_left top
    obtain ⟨⟨fields, sampled, recorded⟩, same⟩ := (mem_entries _ entry).mp listed
    have around := (mem_path_entries _ _).mpr ⟨fields, sampled, along fields sampled recorded⟩
    have found := at?_of_mem _ _ around
    refine ⟨_, occurrence_mem_entries _ _ around, rfl, found, ?_, ?_⟩
    · rw [containerPresence, if_neg (by simpa [Path.root] using top), found]
      rfl
    · calc
        entry.presence = (occurrence (trees.map Node.fields) entry.path).presence := by rw [← same]
        _ ≤ _ := presence_mono _ _ along

theorem balanced : (tabulate (trees.map Node.fields)).Balanced entry := by
  have paired : ∀ fields ∈ trees.map Node.fields, fields.countP (·.path = entry.path) ≤ 2 := by
    intro fields sampled
    obtain ⟨tree, member, rfl⟩ := List.mem_map.mp sampled
    exact Node.countP_path_fields_le (sorted tree member) entry.path
  have same := ((mem_entries _ entry).mp listed).2
  constructor
  · exact presence_pos _ listed
  · rcases hasContainer sorted listed with ⟨-, all⟩ | ⟨outer, -, -, -, around, along⟩
    · rw [all]
      exact presence_le_length _ listed
    · rw [around]
      exact along
  · rcases hasContainer sorted listed with ⟨-, all⟩ | ⟨outer, listed', -, -, around, -⟩
    · exact Nat.le_of_eq all
    · rw [around]
      exact presence_le_length _ listed'
  · rw [same]
    exact required_add_optional _ _
  · rw [same]
    exact presence_le_sum_types _ _
  · rw [same]
    exact sum_types_le _ _ paired
  · rw [same]
    exact sum_formats_le _ _

end Trees

/-- In the table of a list of trees the counts of every entry are balanced, and what it lies in is
either the root or an entry itself. -/
theorem entries_balanced (trees : List Node)
    (ordered : ∀ tree ∈ trees, tree.Everywhere Node.InKeyOrder) :
    let table := tabulate (trees.map Node.fields)
    table.sampleCount = trees.length ∧
      ∀ entry ∈ table.entries, table.Balanced entry ∧ table.HasContainer entry := by
  have sorted := fun tree member => (ordered tree member).sorted
  refine ⟨List.length_map _, fun entry listed => ⟨balanced sorted listed, hasContainer sorted listed⟩⟩

open Node in
/-- The union in an array counts twice as a type and once as present; its container is the array. -/
theorem entries_balanced_union :
    let trees :=
      [object {} [("a", arrayOf {} (object {}
          [("b", union {} [scalar { format := some .date } .string, scalar {} .null])] ["b"]))] ["a"],
        object {} [("a", emptyArray {})] []]
    let table := tabulate (trees.map Node.fields)
    let path : Path := [.property "a", .items, .property "b"]
    (∀ tree ∈ trees, tree.Everywhere InKeyOrder) ∧
      ∃ entry ∈ table.entries, entry.path = path ∧
        entry.presence = 1 ∧ (Keyed.values entry.types).sum = 2 ∧
          (Keyed.values entry.formats).sum = 1 ∧ path.container = [.property "a"] ∧
            table.containerPresence path = 2 ∧
              table.Balanced entry ∧ table.HasContainer entry := by
  intro trees table path
  have ordered : ∀ tree ∈ trees, tree.Everywhere InKeyOrder := by decide
  have each := (entries_balanced trees ordered).2
  have listed : occurrence (trees.map Node.fields) path ∈ table.entries :=
    occurrence_mem_entries _ _ (by decide)
  exact ⟨ordered, _, listed, rfl, by decide, by decide, by decide, by decide, by decide,
    each _ listed⟩

end Occurrences

end EventSchema
