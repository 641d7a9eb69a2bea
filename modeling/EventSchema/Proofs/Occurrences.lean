import EventSchema.Proofs.Fields
import EventSchema.Survey.Occurrence
import Mathlib.Data.List.Count

namespace EventSchema.Occurrences

section Histogram

variable {κ : Type} [LT κ] [DecidableLT κ] [DecidableEq κ]

theorem histogram_append (keys : List κ) (key : κ) :
    histogram (keys ++ [key]) = Keyed.tally key (histogram keys) := by
  rw [histogram, List.foldl_append]
  rfl

theorem lookup_histogram (key : κ) (keys : List κ) :
    Keyed.lookup key (histogram keys) = if key ∈ keys then some (keys.count key) else none := by
  induction keys using List.reverseRecOn with
  | nil => rfl
  | append_singleton keys last ih =>
      rw [histogram_append, Keyed.tally, Keyed.lookup_alter]
      by_cases same : key = last
      · subst same
        rw [if_pos rfl, ih]
        by_cases earlier : key ∈ keys
        · simp [earlier]
        · simp [earlier, List.count_eq_zero_of_not_mem earlier]
      · rw [if_neg same, ih]
        simp [same, Ne.symm same]

theorem mem_keys_histogram (key : κ) (keys : List κ) :
    key ∈ Keyed.keys (histogram keys) ↔ key ∈ keys := by
  rw [← Keyed.lookup_isSome_iff, lookup_histogram]
  by_cases member : key ∈ keys <;> simp [member]

variable [IsStrictTotalOrder κ (· < ·)]

theorem increasing_histogram (keys : List κ) : Keyed.Increasing (histogram keys) := by
  induction keys using List.reverseRecOn with
  | nil => exact List.Pairwise.nil
  | append_singleton keys last ih =>
      rw [histogram_append]
      exact Keyed.increasing_alter last _ _ ih

theorem mem_histogram_iff (key : κ) (count : Nat) (keys : List κ) :
    (key, count) ∈ histogram keys ↔ 0 < count ∧ keys.count key = count := by
  have found : (key, count) ∈ histogram keys ↔ Keyed.lookup key (histogram keys) = some count :=
    ⟨Keyed.lookup_of_mem (increasing_histogram keys), Keyed.mem_of_lookup⟩
  rw [found, lookup_histogram]
  by_cases occurs : key ∈ keys
  · have positive := List.count_pos_iff.mpr occurs
    rw [if_pos occurs, Option.some.injEq]
    omega
  · rw [if_neg occurs, List.count_eq_zero_of_not_mem occurs]
    simp only [reduceCtorEq, false_iff]
    omega

theorem histogram_perm (keys keys' : List κ) (shuffled : keys.Perm keys') :
    histogram keys = histogram keys' := by
  apply Keyed.eq_of_lookup (increasing_histogram keys) (increasing_histogram keys')
  intro key
  simp only [lookup_histogram, shuffled.mem_iff, shuffled.count_eq]

end Histogram

section Table

variable (samples : List (List Field))

theorem mem_entries (entry : Occurrence) :
    entry ∈ (tabulate samples).entries ↔
      (∃ fields ∈ samples, entry.path ∈ fields.map Field.path) ∧
        entry = occurrence samples entry.path := by
  simp only [tabulate, List.mem_map, Ordered.mem_ofList, List.mem_flatten]
  constructor
  · intro made
    rcases made with ⟨path, ⟨field, ⟨fields, sampled, member⟩, rfl⟩, rfl⟩
    exact ⟨⟨fields, sampled, field, member, rfl⟩, rfl⟩
  · intro described
    rcases described with ⟨⟨fields, sampled, field, member, place⟩, same⟩
    exact ⟨entry.path, ⟨field, ⟨fields, sampled, member⟩, place⟩, same.symm⟩

theorem eq_of_path {first second : Occurrence} (one : first ∈ (tabulate samples).entries)
    (other : second ∈ (tabulate samples).entries) (same : first.path = second.path) :
    first = second := by
  rw [((mem_entries samples first).mp one).2, ((mem_entries samples second).mp other).2, same]

theorem path_entries :
    (tabulate samples).entries.map Occurrence.path =
      Ordered.ofList (samples.flatten.map Field.path) := by
  have same : Occurrence.path ∘ occurrence samples = id := rfl
  rw [tabulate, List.map_map, same, List.map_id]

theorem mem_path_entries (path : Path) :
    path ∈ (tabulate samples).entries.map Occurrence.path ↔
      ∃ fields ∈ samples, path ∈ fields.map Field.path := by
  rw [path_entries, Ordered.mem_ofList]
  simp only [List.mem_map, List.mem_flatten]
  constructor
  · intro listed
    rcases listed with ⟨field, ⟨fields, sampled, member⟩, place⟩
    exact ⟨fields, sampled, field, member, place⟩
  · intro listed
    rcases listed with ⟨fields, sampled, field, member, place⟩
    exact ⟨field, ⟨fields, sampled, member⟩, place⟩

theorem entries_pairwise :
    (tabulate samples).entries.Pairwise fun first second => first.path < second.path := by
  rw [← List.pairwise_map, path_entries]
  exact Ordered.increasing_ofList _

theorem at?_of_mem (path : Path) (listed : path ∈ (tabulate samples).entries.map Occurrence.path) :
    (tabulate samples).at? path = some (occurrence samples path) := by
  rcases List.mem_map.mp listed with ⟨entry, member, place⟩
  rw [at?]
  cases found : (tabulate samples).entries.find? (·.path = path) with
  | none => exact absurd (decide_eq_true place) (by simpa using List.find?_eq_none.mp found entry member)
  | some other =>
      have inside := List.mem_of_find?_eq_some found
      have same : other.path = path := by simpa using List.find?_some found
      rw [((mem_entries samples other).mp inside).2, same]

theorem types_occurrence (path : Path) :
    (occurrence samples path).types =
      histogram ((samples.flatten.filter (·.path = path)).map Field.type) := by
  rw [occurrence, List.filter_flatten]

theorem formats_occurrence (path : Path) :
    (occurrence samples path).formats =
      histogram ((samples.flatten.filter (·.path = path)).filterMap Field.format) := by
  rw [occurrence, List.filter_flatten]

theorem mem_types (path : Path) (type : ValueType) :
    type ∈ Keyed.keys (occurrence samples path).types ↔
      ∃ fields ∈ samples, ∃ field ∈ fields, field.path = path ∧ field.type = type := by
  simp only [occurrence, mem_keys_histogram, List.mem_map, List.mem_flatten]
  constructor
  · intro counted
    rcases counted with ⟨field, ⟨records, ⟨fields, sampled, rfl⟩, inside⟩, rfl⟩
    rcases List.mem_filter.mp inside with ⟨member, place⟩
    exact ⟨fields, sampled, field, member, of_decide_eq_true place, rfl⟩
  · intro shown
    rcases shown with ⟨fields, sampled, field, member, place, rfl⟩
    exact ⟨field, ⟨_, ⟨fields, sampled, rfl⟩,
      List.mem_filter.mpr ⟨member, decide_eq_true place⟩⟩, rfl⟩

def firsts (path : Path) : List Field :=
  (samples.map fun fields => fields.filter (·.path = path)).filterMap List.head?

theorem mem_of_mem_firsts {path : Path} {field : Field} (member : field ∈ firsts samples path) :
    field.path = path ∧ ∃ fields ∈ samples, field ∈ fields := by
  rcases List.mem_filterMap.mp member with ⟨records, inside, first⟩
  rcases List.mem_map.mp inside with ⟨fields, sampled, rfl⟩
  have recorded := List.mem_of_mem_head? (Option.mem_def.mpr first)
  rcases List.mem_filter.mp recorded with ⟨own, place⟩
  exact ⟨of_decide_eq_true place, fields, sampled, own⟩

theorem presence_eq_countP (path : Path) :
    (occurrence samples path).presence =
      samples.countP fun fields => path ∈ fields.map Field.path := by
  have length : (occurrence samples path).presence = (firsts samples path).length := rfl
  rw [length, firsts, List.length_filterMap_eq_countP, List.countP_map]
  congr 1
  funext fields
  rw [Bool.eq_iff_iff]
  simp [List.find?_isSome]

theorem required_of_forall (path : Path)
    (each : ∀ fields ∈ samples, ∀ field ∈ fields, field.path = path → field.isRequired = true) :
    (occurrence samples path).required = (occurrence samples path).presence ∧
      (occurrence samples path).optional = 0 := by
  have flagged : ∀ field ∈ firsts samples path, field.isRequired = true := by
    intro field member
    rcases mem_of_mem_firsts samples member with ⟨place, fields, sampled, inside⟩
    exact each fields sampled field inside place
  constructor
  · exact List.countP_eq_length.mpr flagged
  · apply List.countP_eq_zero.mpr
    intro field member
    simp [flagged field member]

variable {samples}

theorem occurrence_perm {samples' : List (List Field)} (shuffled : samples.Perm samples')
    (named : ∀ fields ∈ samples, ∀ field ∈ fields,
      Path.lastName? field.path = some field.property) (path : Path) :
    occurrence samples path = occurrence samples' path := by
  have records := shuffled.map fun fields => fields.filter (·.path = path)
  have first : (firsts samples path).Perm (firsts samples' path) := records.filterMap List.head?
  have property : ((firsts samples path).head?.map Field.property).getD "" =
      ((firsts samples' path).head?.map Field.property).getD "" := by
    have each : ∀ field ∈ firsts samples path, Path.lastName? path = some field.property := by
      intro field member
      rcases mem_of_mem_firsts samples member with ⟨rfl, fields, sampled, inside⟩
      exact named fields sampled field inside
    cases here : firsts samples path with
    | nil =>
        rw [here] at first
        rw [List.nil_perm.mp first]
    | cons field rest =>
        cases there : firsts samples' path with
        | nil =>
            rw [there] at first
            rw [List.perm_nil.mp first] at here
            cases here
        | cons field' rest' =>
            have one := each field (by simp [here])
            have other := each field' (first.mem_iff.mpr (by simp [there]))
            simpa using Option.some.inj (one.symm.trans other)
  have types := histogram_perm _ _ (records.flatten.map Field.type)
  have formats := histogram_perm _ _ (records.flatten.filterMap Field.format)
  simp only [occurrence, Occurrence.mk.injEq]
  exact ⟨property, trivial, types, formats, first.countP_eq _, first.countP_eq _, first.length_eq⟩

theorem tabulate_perm {samples' : List (List Field)} (shuffled : samples.Perm samples')
    (named : ∀ fields ∈ samples, ∀ field ∈ fields,
      Path.lastName? field.path = some field.property) :
    tabulate samples = tabulate samples' := by
  have paths : Ordered.ofList (samples.flatten.map Field.path) =
      Ordered.ofList (samples'.flatten.map Field.path) := by
    apply Ordered.eq_of_mem_iff (Ordered.increasing_ofList _) (Ordered.increasing_ofList _)
    intro path
    rw [Ordered.mem_ofList, Ordered.mem_ofList, (shuffled.flatten.map Field.path).mem_iff]
  have entries : occurrence samples = occurrence samples' :=
    funext (occurrence_perm shuffled named)
  simp only [tabulate]
  rw [paths, entries, shuffled.length_eq]

end Table

end EventSchema.Occurrences
