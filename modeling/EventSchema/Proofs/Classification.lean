import EventSchema.Proofs.Permanence

namespace EventSchema

/-- A side of a field that samples can disagree on. -/
inductive Aspect where
  | type
  | required
  | format
  deriving DecidableEq, Repr

/-- What a conflict is about. Of a field that was always null it is the type, which is not known. -/
def ConflictKind.aspect : ConflictKind → Aspect
  | nullField | dataType => .type
  | optionalType => .required
  | format _ => .format

structure Occurrence.Tallies (entry : Occurrence) (records : List Field) : Prop where
  types : ∀ type count, (type, count) ∈ entry.types ↔
    0 < count ∧ records.countP (fun field => field.path = entry.path ∧ field.type = type) = count
  formats : ∀ format count, (format, count) ∈ entry.formats ↔
    0 < count ∧
      records.countP (fun field => field.path = entry.path ∧ field.format = some format) = count

theorem Occurrences.occurrence_tallies (samples : List (List Field)) (path : Path) :
    (occurrence samples path).Tallies samples.flatten := by
  constructor
  · intro type count
    have counted : ((samples.flatten.filter (·.path = path)).map Field.type).count type =
        samples.flatten.countP (fun field => field.path = path ∧ field.type = type) := by
      rw [List.count, List.countP_map, List.countP_filter]
      apply List.countP_congr
      intro field _
      simp [and_comm]
    rw [types_occurrence, mem_histogram_iff, counted]
    rfl
  · intro format count
    have counted : ((samples.flatten.filter (·.path = path)).filterMap Field.format).count format =
        samples.flatten.countP (fun field => field.path = path ∧ field.format = some format) := by
      rw [List.count, List.countP_filterMap, List.countP_filter]
      apply List.countP_congr
      intro field _
      cases field.format <;> simp [and_comm]
    rw [formats_occurrence, mem_histogram_iff, counted]
    rfl

namespace Conflict

def Before (first second : Conflict) : Prop :=
  first.path < second.path ∨
    first.path = second.path ∧ first.kind.aspect ≠ second.kind.aspect

theorem aspect_of_onType {occurrence : Occurrence} {conflict : Conflict}
    (found : onType? occurrence = some conflict) : conflict.kind.aspect = .type := by
  rcases (mem_onType found).2 with ⟨-, rfl⟩ | ⟨-, rfl⟩ <;> rfl

/-- The conflicts at one path are about different sides of the field, in a fixed order. -/
theorem aspects_sublist (table : Occurrences) (occurrence : Occurrence) :
    ((ofOccurrence table occurrence).map (·.kind.aspect)).Sublist [.type, .required, .format] := by
  have single : ∀ (found : Option Conflict) (aspect : Aspect),
      (∀ conflict, found = some conflict → conflict.kind.aspect = aspect) →
        (found.toList.map (·.kind.aspect)).Sublist [aspect] := by
    intro found aspect about
    cases found with
    | none => exact List.nil_sublist _
    | some conflict => simp [about conflict rfl]
  have onType := single (onType? occurrence) .type fun _ => aspect_of_onType
  have required : ((if table.sampleCount > 1 then (ofRequired? table occurrence).toList
      else []).map (·.kind.aspect)).Sublist [.required] := by
    split
    · apply single
      intro conflict found
      rw [(mem_ofRequired found).1, ConflictKind.aspect]
    · exact List.nil_sublist _
  have formatted := single (ofFormats? occurrence) .format fun conflict found => by
    obtain ⟨⟨format, kind⟩, -⟩ := mem_ofFormats found
    rw [kind, ConflictKind.aspect]
  rw [ofOccurrence_eq, besidesType, List.map_append, List.map_append]
  exact onType.append (required.append formatted)

theorem ofOccurrence_before (table : Occurrences) (occurrence : Occurrence) :
    (ofOccurrence table occurrence).Pairwise Before := by
  have distinct : ((ofOccurrence table occurrence).map (·.kind.aspect)).Nodup :=
    (aspects_sublist table occurrence).nodup (by decide)
  refine (List.pairwise_map.mp distinct).imp_of_mem ?_
  intro first second member member' different
  right
  exact ⟨(path_of_mem_ofOccurrence member).trans (path_of_mem_ofOccurrence member').symm, different⟩

theorem classify_before (table : Occurrences)
    (ordered : table.entries.Pairwise fun first second => first.path < second.path) :
    (classify table).Pairwise Before := by
  rw [classify]
  refine List.pairwise_flatMap.mpr ⟨fun entry _ => ofOccurrence_before table entry, ?_⟩
  apply ordered.imp
  intro first second less former member latter member'
  left
  rw [path_of_mem_ofOccurrence member, path_of_mem_ofOccurrence member']
  exact less

/-- Conflicts about one side of a field at one path would not be in order. -/
theorem countP_le_one {conflicts : List Conflict} (ordered : conflicts.Pairwise Before) (path : Path)
    (aspect : Aspect) :
    conflicts.countP (fun conflict => conflict.path = path ∧ conflict.kind.aspect = aspect) ≤ 1 := by
  induction conflicts with
  | nil => exact Nat.zero_le 1
  | cons first rest ih =>
      obtain ⟨earlier, later⟩ := List.pairwise_cons.mp ordered
      by_cases own : first.path = path ∧ first.kind.aspect = aspect
      · obtain ⟨rfl, rfl⟩ := own
        have alone : rest.countP (fun conflict =>
            conflict.path = first.path ∧ conflict.kind.aspect = first.kind.aspect) = 0 := by
          rw [List.countP_eq_zero]
          intro second member
          rw [decide_eq_true_iff]
          rintro ⟨place, about⟩
          rcases earlier second member with less | ⟨-, different⟩
          · exact irrefl_of (· < ·) first.path (place ▸ less)
          · exact different about.symm
        rw [List.countP_cons, alone]
        split <;> decide
      · rw [List.countP_cons, if_neg (by simpa using own)]
        exact ih later

/-- The types other than null are the candidates, and the most frequent of them is settled on; of
equal ones that is the first. -/
structure SettlesTypes (conflict : Conflict) (types : List (ValueType × Nat)) : Prop where
  candidates : conflict.candidates = ((Keyed.keys types).filter (· ≠ .null)).map ValueType.name
  nonempty : conflict.candidates ≠ []
  resolution : ∃ type, conflict.resolution = .dataType type ∧
    Keyed.IsMajority (types.filter (·.1 ≠ .null)) type

theorem settlesTypes_ofTypes {occurrence : Occurrence}
    (increasing : Keyed.Increasing occurrence.types) (several : occurrence.types.length > 1) :
    (ofTypes occurrence).SettlesTypes occurrence.types := by
  have candidates : (ofTypes occurrence).candidates =
      ((Keyed.keys occurrence.types).filter (· ≠ .null)).map ValueType.name := by
    simp only [ofTypes, concrete, Keyed.keys, List.filter_map, List.map_map]
    rfl
  constructor
  · exact candidates
  · intro empty
    exact concrete_ne_nil several increasing (List.map_eq_nil_iff.mp empty)
  · exact ⟨_, rfl, majorityType_isMajority several increasing⟩

structure Classified (conflicts : List Conflict) (entry : Occurrence) : Prop where
  /-- There is a conflict between types when more than one has been seen. -/
  disputed : (∃ conflict ∈ conflicts, conflict.path = entry.path ∧ conflict.kind = .dataType) ↔
    ∃ first ∈ Keyed.keys entry.types, ∃ second ∈ Keyed.keys entry.types, first ≠ second
  settled : ∀ conflict ∈ conflicts, conflict.path = entry.path → conflict.kind = .dataType →
    conflict.SettlesTypes entry.types
  /-- There is a conflict about formats when any has been seen. -/
  formatted : (∃ conflict ∈ conflicts, conflict.path = entry.path ∧ conflict.kind.aspect = .format) ↔
    ∃ format, format ∈ Keyed.keys entry.formats
  suggested : ∀ conflict ∈ conflicts, conflict.path = entry.path →
    ∀ format, conflict.kind = .format format →
      conflict.resolution = .format format (.ofFormat format) ∧
        Keyed.IsMajority entry.formats format

section Entry

variable {table : Occurrences} {entry : Occurrence}

theorem mem_ofOccurrence_dataType {conflict : Conflict} :
    conflict ∈ ofOccurrence table entry ∧ conflict.kind = .dataType ↔
      entry.types.length > 1 ∧ conflict = ofTypes entry := by
  rw [ofOccurrence_eq, List.mem_append, Option.mem_toList]
  constructor
  · rintro ⟨onType | beside, kind⟩
    · rcases (mem_onType onType).2 with ⟨-, rfl⟩ | found
      · cases kind
      · exact found
    · exact absurd kind (besidesType_cases beside).2.1
  · rintro ⟨several, rfl⟩
    refine ⟨.inl ?_, rfl⟩
    rw [onType?, if_neg (mt (nullOnly_iff entry).mp (keys_ne_null several)), if_pos several]

theorem mem_ofOccurrence_format {conflict : Conflict} :
    conflict ∈ ofOccurrence table entry ∧ conflict.kind.aspect = .format ↔
      ofFormats? entry = some conflict := by
  rw [ofOccurrence_eq, List.mem_append, Option.mem_toList, mem_besidesType]
  constructor
  · rintro ⟨onType | ⟨-, required⟩ | formatted, about⟩
    · rw [aspect_of_onType onType] at about
      cases about
    · rw [(mem_ofRequired required).1] at about
      cases about
    · exact formatted
  · intro found
    obtain ⟨⟨format, kind⟩, -⟩ := mem_ofFormats found
    exact ⟨.inr (.inr found), by rw [kind, ConflictKind.aspect]⟩

theorem exists_ofFormats_iff (entry : Occurrence) :
    (∃ conflict, ofFormats? entry = some conflict) ↔
      ∃ format, format ∈ Keyed.keys entry.formats := by
  calc
    (∃ conflict, ofFormats? entry = some conflict) ↔ ofFormats? entry ≠ none :=
      Option.ne_none_iff_exists'.symm
    _ ↔ entry.formats ≠ [] := by
      rw [Ne, ofFormats?, Option.map_eq_none_iff, Keyed.majority_eq_none_iff]
    _ ↔ ¬ Keyed.keys entry.formats = [] := by rw [Keyed.keys, List.map_eq_nil_iff]
    _ ↔ _ := by rw [List.eq_nil_iff_forall_not_mem, not_forall_not]

end Entry

section Tabulated

variable (samples : List (List Field)) {entry : Occurrence}
  (listed : entry ∈ (Occurrences.tabulate samples).entries)

include listed

theorem mem_classify_at {conflict : Conflict} :
    conflict ∈ classify (Occurrences.tabulate samples) ∧ conflict.path = entry.path ↔
      conflict ∈ ofOccurrence (Occurrences.tabulate samples) entry := by
  rw [mem_classify]
  constructor
  · rintro ⟨⟨other, listed', own⟩, place⟩
    rw [path_of_mem_ofOccurrence own] at place
    rwa [← Occurrences.eq_of_path samples listed' listed place]
  · intro own
    exact ⟨⟨entry, listed, own⟩, path_of_mem_ofOccurrence own⟩

theorem classified : Classified (classify (Occurrences.tabulate samples)) entry := by
  have same := ((Occurrences.mem_entries samples entry).mp listed).2
  have types : Keyed.Increasing entry.types := by
    rw [same]
    exact Occurrences.increasing_histogram _
  have formats : Keyed.Increasing entry.formats := by
    rw [same]
    exact Occurrences.increasing_histogram _
  constructor
  · rw [← one_lt_length_iff (Ordered.Increasing.nodup types), Keyed.keys, List.length_map]
    simp only [← and_assoc, mem_classify_at samples listed, mem_ofOccurrence_dataType,
      exists_and_left, exists_eq, and_true]
  · intro conflict member place kind
    have own := (mem_classify_at samples listed).mp ⟨member, place⟩
    obtain ⟨several, rfl⟩ := mem_ofOccurrence_dataType.mp ⟨own, kind⟩
    exact settlesTypes_ofTypes types several
  · simp only [← and_assoc, mem_classify_at samples listed, mem_ofOccurrence_format]
    exact exists_ofFormats_iff entry
  · intro conflict member place format kind
    have own := (mem_classify_at samples listed).mp ⟨member, place⟩
    have found := mem_ofOccurrence_format.mp ⟨own, by rw [kind, ConflictKind.aspect]⟩
    obtain ⟨majority, most, rfl⟩ := Option.map_eq_some_iff.mp found
    obtain rfl : majority = format := ConflictKind.format.inj kind
    exact ⟨rfl, Keyed.majority_isMajority formats most⟩

end Tabulated

/-- The conflicts come in the order of the paths of the table, at most one at a path about each side
of a field. Which ones there are and how they are resolved, the counts of the records tell. -/
theorem classify_tabulate (samples : List (List Field)) :
    let table := Occurrences.tabulate samples
    let conflicts := classify table
    conflicts.Pairwise Before ∧
      (∀ path aspect, conflicts.countP (fun conflict =>
        conflict.path = path ∧ conflict.kind.aspect = aspect) ≤ 1) ∧
        (∀ conflict ∈ conflicts, conflict.path ∈ table.entries.map Occurrence.path) ∧
          ∀ entry ∈ table.entries, entry.Tallies samples.flatten ∧ Classified conflicts entry := by
  intro table conflicts
  have ordered := classify_before table (Occurrences.entries_pairwise samples)
  refine ⟨ordered, countP_le_one ordered, ?_, ?_⟩
  · intro conflict member
    obtain ⟨entry, listed, own⟩ := (mem_classify table conflict).mp member
    exact List.mem_map.mpr ⟨entry, listed, (path_of_mem_ofOccurrence own).symm⟩
  · intro entry listed
    refine ⟨?_, classified samples listed⟩
    rw [((Occurrences.mem_entries samples entry).mp listed).2]
    exact Occurrences.occurrence_tallies samples entry.path

/-- Of two types as frequent as each other the first is settled on, though null is more frequent. -/
example :
    let sample := fun type => (Node.object {} [("a", Node.scalar {} type)] ["a"]).fields
    (classify (Occurrences.tabulate
        [sample .null, sample .integer, sample .null, sample .string])).map Conflict.resolution =
      [.dataType .string] := by decide

end Conflict

end EventSchema
