import EventSchema.Proofs.Occurrences
import EventSchema.Survey.Conflict

namespace EventSchema

/-- The counts decide for the type: for null if there is nothing else, and otherwise for the most
frequent type other than null, of equal ones the first. -/
def Occurrence.DecidesFor (occurrence : Occurrence) (type : ValueType) : Prop :=
  if Keyed.keys occurrence.types = [.null] then type = .null
  else
    type ≠ .null ∧ ∃ most, (type, most) ∈ occurrence.types ∧
      ∀ other count, (other, count) ∈ occurrence.types → other ≠ .null →
        count < most ∨ count = most ∧ type.rank ≤ other.rank

namespace Conflict

def settles? (conflict : Conflict) : Option ValueType :=
  match conflict.resolution with
  | .dataType type => some type
  | .nullField => some .null
  | .optional _ => none
  | .format _ _ => none

def onType? (occurrence : Occurrence) : Option Conflict :=
  if nullOnly occurrence then some (ofNull occurrence)
  else if occurrence.types.length > 1 then some (ofTypes occurrence)
  else none

def besidesType (table : Occurrences) (occurrence : Occurrence) : List Conflict :=
  (if table.sampleCount > 1 then (ofRequired? table occurrence).toList else []) ++
    (ofFormats? occurrence).toList

theorem ofOccurrence_eq (table : Occurrences) (occurrence : Occurrence) :
    ofOccurrence table occurrence =
      (onType? occurrence).toList ++ besidesType table occurrence := by
  rw [ofOccurrence, onType?, besidesType]
  rw [List.append_assoc]
  congr 1
  split
  · rfl
  · split <;> rfl

theorem mem_ofRequired {table : Occurrences} {occurrence : Occurrence} {conflict : Conflict}
    (found : ofRequired? table occurrence = some conflict) :
    conflict.kind = .optionalType ∧ conflict.path = occurrence.path ∧
      ∃ isRequired, conflict.resolution = .optional isRequired := by
  unfold ofRequired? at found
  simp only at found
  split at found
  · cases found
  · cases found
    exact ⟨rfl, rfl, _, rfl⟩

theorem mem_ofFormats {occurrence : Occurrence} {conflict : Conflict}
    (found : ofFormats? occurrence = some conflict) :
    (∃ format, conflict.kind = .format format) ∧ conflict.path = occurrence.path ∧
      ∃ format action, conflict.resolution = .format format action := by
  rcases Option.map_eq_some_iff.mp found with ⟨format, -, rfl⟩
  exact ⟨⟨_, rfl⟩, rfl, _, _, rfl⟩

theorem mem_onType {occurrence : Occurrence} {conflict : Conflict}
    (found : onType? occurrence = some conflict) :
    conflict.path = occurrence.path ∧
      (nullOnly occurrence = true ∧ conflict = ofNull occurrence ∨
        occurrence.types.length > 1 ∧ conflict = ofTypes occurrence) := by
  rw [onType?] at found
  split at found
  · rename_i only
    cases found
    exact ⟨rfl, .inl ⟨only, rfl⟩⟩
  · split at found
    · rename_i several
      cases found
      exact ⟨rfl, .inr ⟨several, rfl⟩⟩
    · cases found

theorem mem_besidesType {table : Occurrences} {occurrence : Occurrence} {conflict : Conflict} :
    conflict ∈ besidesType table occurrence ↔
      table.sampleCount > 1 ∧ ofRequired? table occurrence = some conflict ∨
        ofFormats? occurrence = some conflict := by
  rw [besidesType, List.mem_append, Option.mem_toList]
  by_cases several : table.sampleCount > 1 <;> simp [several]

theorem besidesType_cases {table : Occurrences} {occurrence : Occurrence} {conflict : Conflict}
    (member : conflict ∈ besidesType table occurrence) :
    conflict.path = occurrence.path ∧ conflict.kind ≠ .dataType ∧ conflict.settles? = none := by
  rcases mem_besidesType.mp member with ⟨-, required⟩ | formatted
  · rcases mem_ofRequired required with ⟨kind, path, _, resolution⟩
    exact ⟨path, by simp [kind], by simp [settles?, resolution]⟩
  · rcases mem_ofFormats formatted with ⟨⟨_, kind⟩, path, _, _, resolution⟩
    exact ⟨path, by simp [kind], by simp [settles?, resolution]⟩

theorem path_of_mem_ofOccurrence {table : Occurrences} {occurrence : Occurrence}
    {conflict : Conflict} (member : conflict ∈ ofOccurrence table occurrence) :
    conflict.path = occurrence.path := by
  rw [ofOccurrence_eq] at member
  rcases List.mem_append.mp member with onType | besides
  · exact (mem_onType (Option.mem_toList.mp onType)).1
  · exact (besidesType_cases besides).1

theorem mem_classify (table : Occurrences) (conflict : Conflict) :
    conflict ∈ classify table ↔
      ∃ occurrence ∈ table.entries, conflict ∈ ofOccurrence table occurrence :=
  List.mem_flatMap

theorem classify_split (table : Occurrences) (occurrence : Occurrence)
    (ordered : table.entries.Pairwise fun first second => first.path < second.path)
    (listed : occurrence ∈ table.entries) :
    ∃ before after, classify table = before ++ ofOccurrence table occurrence ++ after ∧
      (∀ conflict ∈ before, conflict.path < occurrence.path) ∧
        ∀ conflict ∈ after, occurrence.path < conflict.path := by
  rcases List.append_of_mem listed with ⟨former, latter, same⟩
  rw [same] at ordered
  rcases List.pairwise_append.mp ordered with ⟨-, further, earlier⟩
  refine ⟨former.flatMap (ofOccurrence table), latter.flatMap (ofOccurrence table), ?_, ?_, ?_⟩
  · simp [classify, same]
  · intro conflict member
    rcases List.mem_flatMap.mp member with ⟨other, inside, own⟩
    rw [path_of_mem_ofOccurrence own]
    exact earlier other inside occurrence List.mem_cons_self
  · intro conflict member
    rcases List.mem_flatMap.mp member with ⟨other, inside, own⟩
    rw [path_of_mem_ofOccurrence own]
    exact (List.pairwise_cons.mp further).1 other inside

theorem nullOnly_iff (occurrence : Occurrence) :
    nullOnly occurrence = true ↔ Keyed.keys occurrence.types = [.null] := by
  rw [nullOnly, Keyed.keys]
  rcases occurrence.types with _ | ⟨⟨type, count⟩, _ | ⟨entry, rest⟩⟩
  · simp
  · cases type <;> simp
  · simp

section Several

variable {types : List (ValueType × Nat)} (several : types.length > 1)

include several

theorem keys_ne_null : Keyed.keys types ≠ [.null] := by
  intro only
  have length := congrArg List.length only
  simp only [Keyed.keys, List.length_map, List.length_singleton] at length
  omega

variable (increasing : Keyed.Increasing types)

include increasing

theorem concrete_ne_nil : concrete types ≠ [] := by
  intro empty
  have onlyNull : ∀ type ∈ Keyed.keys types, type = .null := by
    intro type member
    rcases List.mem_map.mp member with ⟨entry, inside, rfl⟩
    simpa using List.filter_eq_nil_iff.mp empty entry inside
  have distinct := Ordered.Increasing.nodup increasing
  rw [List.eq_replicate_of_mem onlyNull] at distinct
  have length := List.nodup_replicate.mp distinct
  simp only [Keyed.keys, List.length_map] at length
  omega

/-- Null has no part in the majority. -/
theorem majorityType_isMajority : Keyed.IsMajority (concrete types) (majorityType types) := by
  have ordered : Keyed.Increasing (concrete types) :=
    List.Pairwise.sublist (List.filter_sublist.map _) increasing
  have unfolded : majorityType types = (Keyed.majority (concrete types)).getD .null := by
    rw [majorityType, if_neg (by omega)]
  rw [unfolded]
  cases found : Keyed.majority (concrete types) with
  | none => exact absurd (Keyed.majority_eq_none_iff.mp found) (concrete_ne_nil several increasing)
  | some type => exact Keyed.majority_isMajority ordered found

end Several

theorem decidesFor_majorityType (occurrence : Occurrence)
    (increasing : Keyed.Increasing occurrence.types) (several : occurrence.types.length > 1) :
    occurrence.DecidesFor (majorityType occurrence.types) := by
  rcases majorityType_isMajority several increasing with ⟨most, member, bound⟩
  rcases List.mem_filter.mp member with ⟨inside, notNull⟩
  rw [Occurrence.DecidesFor]
  rw [if_neg (keys_ne_null several)]
  refine ⟨of_decide_eq_true notNull, most, inside, ?_⟩
  intro other count listed different
  have counted : (other, count) ∈ concrete occurrence.types :=
    List.mem_filter.mpr ⟨listed, decide_eq_true different⟩
  rcases bound other count counted with fewer | ⟨equal, notEarlier⟩
  · exact .inl fewer
  · exact .inr ⟨equal, Nat.le_of_not_lt notEarlier⟩

theorem decidesFor_of_onType {occurrence : Occurrence} {conflict : Conflict}
    (increasing : Keyed.Increasing occurrence.types) (found : onType? occurrence = some conflict) :
    ∃ type, conflict.settles? = some type ∧ occurrence.DecidesFor type := by
  rcases (mem_onType found).2 with ⟨only, rfl⟩ | ⟨several, rfl⟩
  · refine ⟨.null, rfl, ?_⟩
    rw [Occurrence.DecidesFor]
    rw [if_pos ((nullOnly_iff occurrence).mp only)]
  · exact ⟨majorityType occurrence.types, rfl, decidesFor_majorityType occurrence increasing several⟩

theorem decidesFor_of_single {occurrence : Occurrence} {type : ValueType}
    (found : onType? occurrence = none) (shown : type ∈ Keyed.keys occurrence.types) :
    type ≠ .null ∧ Keyed.keys occurrence.types = [type] ∧ occurrence.DecidesFor type := by
  rw [onType?] at found
  split at found
  · cases found
  · rename_i notOnly
    split at found
    · cases found
    · rename_i notSeveral
      rcases List.mem_map.mp shown with ⟨⟨own, count⟩, member, rfl⟩
      have alone : occurrence.types = [(own, count)] := by
        rcases same : occurrence.types with _ | ⟨entry, _ | ⟨other, rest⟩⟩
        · simp [same] at member
        · rw [same, List.mem_singleton] at member
          rw [member]
        · simp [same] at notSeveral
      have keys : Keyed.keys occurrence.types = [own] := by rw [alone]; rfl
      have notNull : own ≠ .null := by
        intro same
        subst same
        exact notOnly ((nullOnly_iff occurrence).mpr keys)
      refine ⟨notNull, keys, ?_⟩
      rw [Occurrence.DecidesFor]
      rw [if_neg (by simp [keys, notNull])]
      refine ⟨notNull, count, member, ?_⟩
      intro other count' listed _
      obtain ⟨rfl, rfl⟩ : other = own ∧ count' = count := by simpa [alone] using listed
      exact .inr ⟨rfl, Nat.le_refl _⟩

end Conflict

end EventSchema
