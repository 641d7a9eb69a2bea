import EventSchema.Proofs.Preparation
import EventSchema.Proofs.Splitting

namespace EventSchema

theorem forall_or_exists_first {α : Type} (holds : α → Prop) (values : List α) :
    (∀ value ∈ values, holds value) ∨
      ∃ before value after, values = before ++ value :: after ∧
        (∀ earlier ∈ before, holds earlier) ∧ ¬ holds value := by
  induction values with
  | nil => exact .inl fun _ member => by cases member
  | cons first rest ih =>
      by_cases own : holds first
      · rcases ih with each | ⟨before, value, after, rfl, earlier, other⟩
        · exact .inl (List.forall_mem_cons.mpr ⟨own, each⟩)
        · exact .inr ⟨first :: before, value, after, rfl, List.forall_mem_cons.mpr ⟨own, earlier⟩,
            other⟩
      · exact .inr ⟨[], first, rest, rfl, by simp, own⟩

namespace Json

/-- Names lead from a value through objects to a part of it, each name to its first member. -/
inductive Leads : List String → Json → Json → Prop where
  | here (value : Json) : Leads [] value value
  | member {key : String} {keys : List String} {before after : List (String × Json)}
      {value target : Json} (fresh : ∀ entry ∈ before, entry.1 ≠ key)
      (later : Leads keys value target) :
      Leads (key :: keys) (.object (before ++ (key, value) :: after)) target

theorem isObject_iff (value : Json) : value.isObject = true ↔ ∃ members, value = .object members := by
  cases value <;> simp [isObject]

theorem isObject_eq_false_iff (value : Json) :
    value.isObject = false ↔ ∀ members, value ≠ .object members := by
  cases value <;> simp [isObject]

end Json

namespace Source

variable {key : String} {sample : Nat} {envelope found : Json} {error : SampleError}

theorem follow_eq_some_iff (names : List String) (value found : Json) :
    follow names value = some found ↔ Json.Leads names value found := by
  constructor
  · intro followed
    induction names generalizing value with
    | nil =>
        obtain rfl := Option.some.inj followed
        exact .here value
    | cons key keys ih =>
        obtain ⟨next, member, rest⟩ := Option.bind_eq_some_iff.mp followed
        cases value with
        | object members =>
            obtain ⟨before, after, rfl, fresh⟩ :=
              (Keyed.lookup_eq_some_iff_append key members next).mp member
            exact .member fresh (ih next rest)
        | null | bool _ | number _ | string _ | array _ => cases member
  · intro leads
    induction leads with
    | here value => rfl
    | @member key keys before after value target fresh later ih =>
        have first := (Keyed.lookup_eq_some_iff_append key (before ++ (key, value) :: after) value).mpr
          ⟨before, after, rfl, fresh⟩
        rw [follow, Json.member?, first]
        exact ih

/-- A key is names with dots between them; it resolves to what they lead to. -/
def Resolves (key : String) (envelope found : Json) : Prop :=
  ∃ names, names ≠ [] ∧ (∀ name ∈ names, '.' ∉ name.toList) ∧ ".".intercalate names = key ∧
    Json.Leads names envelope found

theorem follow_split_eq_some_iff (key : String) (envelope found : Json) :
    follow (Text.split '.' key) envelope = some found ↔ Resolves key envelope found := by
  rw [follow_eq_some_iff]
  constructor
  · intro leads
    obtain ⟨some, apart, joined⟩ := (Text.split_eq_iff '.' key _).mp rfl
    exact ⟨_, some, apart, joined, leads⟩
  · rintro ⟨names, some, apart, joined, leads⟩
    rw [(Text.split_eq_iff '.' key names).mpr ⟨some, apart, joined⟩]
    exact leads

theorem follow_split_eq_none_iff (key : String) (envelope : Json) :
    follow (Text.split '.' key) envelope = none ↔ ∀ found, ¬ Resolves key envelope found := by
  rw [Option.eq_none_iff_forall_ne_some]
  exact forall_congr' fun found => not_congr (follow_split_eq_some_iff key envelope found)

/-- What can be wrong with an envelope: its key leads nowhere or to something else than an array, or
an element of the array is not an object. -/
inductive Fault (key : String) (sample : Nat) (envelope : Json) : SampleError → Prop where
  | keyNotFound (nowhere : ∀ found, ¬ Resolves key envelope found) :
      Fault key sample envelope (.keyNotFound key sample)
  | notArray (found : Json) (present : Resolves key envelope found)
      (other : ∀ elements, found ≠ .array elements) :
      Fault key sample envelope (.notExtractable key sample (.ofValue found))
  | notObject (before after : List Json) (element : Json)
      (present : Resolves key envelope (.array (before ++ element :: after)))
      (objects : ∀ earlier ∈ before, ∃ members, earlier = .object members)
      (other : ∀ members, element ≠ .object members) :
      Fault key sample envelope (.notExtractable key sample (.ofValue element))

theorem find?_first_other (before after : List Json) (value : Json)
    (objects : ∀ earlier ∈ before, ∃ members, earlier = .object members)
    (other : ∀ members, value ≠ .object members) :
    (before ++ value :: after).find? (!·.isObject) = some value := by
  have own : value.isObject = false := value.isObject_eq_false_iff.mpr other
  refine List.find?_eq_some_iff_append.mpr ⟨by simp [own], before, after, rfl, ?_⟩
  intro earlier member
  have object : earlier.isObject = true := earlier.isObject_iff.mpr (objects earlier member)
  simp [object]

theorem events_of_fault (fault : Fault key sample envelope error) :
    events key sample envelope = .error error := by
  rw [events]
  cases fault with
  | keyNotFound nowhere => rw [(follow_split_eq_none_iff key envelope).mpr nowhere]
  | notArray found present other =>
      rw [(follow_split_eq_some_iff key envelope found).mpr present]
      cases found with
      | array elements => exact absurd rfl (other elements)
      | null | bool _ | number _ | string _ | object _ => rfl
  | notObject before after element present objects other =>
      rw [(follow_split_eq_some_iff key envelope _).mpr present]
      simp only [find?_first_other before after element objects other]

theorem not_fault_of_carries (carries : Carries key envelope) : ¬ Fault key sample envelope error := by
  intro fault
  have taken := (events_eq_ok_iff key sample envelope _).mpr ⟨carries, rfl⟩
  rw [events_of_fault fault] at taken
  cases taken

theorem carries_or_fault (key : String) (sample : Nat) (envelope : Json) :
    Carries key envelope ∨ ∃ error, Fault key sample envelope error := by
  cases target : follow (Text.split '.' key) envelope with
  | none => exact .inr ⟨_, .keyNotFound ((follow_split_eq_none_iff key envelope).mp target)⟩
  | some found =>
      have present := (follow_split_eq_some_iff key envelope found).mp target
      cases found with
      | array elements =>
          rcases forall_or_exists_first (fun element => ∃ members, element = .object members)
            elements with objects | ⟨before, element, after, rfl, objects, other⟩
          · exact .inl ⟨elements, target, fun element member =>
              element.isObject_iff.mpr (objects element member)⟩
          · exact .inr ⟨_, .notObject before after element present objects (not_exists.mp other)⟩
      | null | bool _ | number _ | string _ | object _ =>
          exact .inr ⟨_, .notArray _ present fun elements same => by cases same⟩

theorem carries_iff (key : String) (envelope : Json) :
    Carries key envelope ↔ ∀ sample error, ¬ Fault key sample envelope error := by
  constructor
  · intro carries sample error
    exact not_fault_of_carries carries
  · intro sound
    apply (carries_or_fault key 0 envelope).resolve_right
    rintro ⟨error, fault⟩
    exact sound 0 error fault

theorem extractFrom_of_fault (before after : List Json)
    (carrying : ∀ earlier ∈ before, Carries key earlier)
    (fault : Fault key (sample + before.length) envelope error) :
    extractFrom key sample (before ++ envelope :: after) = .error error := by
  induction before generalizing sample with
  | nil =>
      have faulty : events key sample envelope = .error error := events_of_fault fault
      rw [List.nil_append, extractFrom, faulty]
      rfl
  | cons first rest ih =>
      obtain ⟨own, others⟩ := List.forall_mem_cons.mp carrying
      have taken := (events_eq_ok_iff key sample first _).mpr ⟨own, rfl⟩
      have place : sample + (first :: rest).length = sample + 1 + rest.length := by
        rw [List.length_cons]
        omega
      have later := ih others (place ▸ fault)
      rw [List.cons_append, extractFrom, taken]
      simp only [bind, Except.bind, later]

theorem usableKey_eq_none_iff (source : Source) :
    source.usableKey = none ↔
      ∀ key, source.extractionKey = some key → ∀ char ∈ key.toList, Text.isBlank char = true := by
  rw [usableKey]
  cases source.extractionKey with
  | none => simp
  | some key => simp [Option.filter]

theorem extractionKey_of_usable {source : Source} (usable : source.usableKey = some key) :
    source.extractionKey = some key :=
  (Option.filter_eq_some_iff.mp usable).1

/-- What a source finds in samples: the samples themselves, or what is in the arrays that the key of
a batch leads to. -/
inductive Yields (source : Source) (samples : List Json) : List Json → Prop where
  | plain (single : source.isBatch = false) : Yields source samples samples
  | batch (key : String) (arrays : List (List Json)) (batch : source.isBatch = true)
      (given : source.extractionKey = some key)
      (each : List.Forall₂ (fun envelope elements => Resolves key envelope (.array elements))
        samples arrays) :
      Yields source samples arrays.flatten

theorem carried_of_resolves {elements : List Json}
    (present : Resolves key envelope (.array elements)) : carried key envelope = elements := by
  rw [carried, (follow_split_eq_some_iff key envelope _).mpr present]
  rfl

theorem resolves_carried (carries : Carries key envelope) :
    Resolves key envelope (.array (carried key envelope)) := by
  obtain ⟨elements, target, -⟩ := carries
  have present := (follow_split_eq_some_iff key envelope _).mp target
  rw [carried_of_resolves present]
  exact present

theorem unpacked_batch {source : Source} (batch : source.isBatch = true)
    (usable : source.usableKey = some key) (samples : List Json) :
    source.unpacked samples = samples.flatMap (carried key) := by
  rw [unpacked, batch, usable]

/-- Where every envelope carries events, these are what the source finds. -/
theorem yields_iff {source : Source} {samples : List Json} (unpacks : source.Unpacks samples)
    (events : List Json) : source.Yields samples events ↔ events = source.unpacked samples := by
  constructor
  · intro yields
    cases yields with
    | plain single => rw [unpacked, single]
    | batch key arrays batch given each =>
        obtain ⟨key', usable, -⟩ := unpacks batch
        obtain rfl := Option.some.inj ((extractionKey_of_usable usable).symm.trans given)
        have same : samples.map (carried key') = arrays := by
          rw [← List.forall₂_eq_eq_eq, List.forall₂_map_left_iff]
          exact each.imp fun envelope elements present => carried_of_resolves present
        rw [unpacked_batch batch usable, List.flatMap_def, same]
  · rintro rfl
    cases batch : source.isBatch with
    | false =>
        have same : source.unpacked samples = samples := by rw [unpacked, batch]
        rw [same]
        exact .plain batch
    | true =>
        obtain ⟨key, usable, carrying⟩ := unpacks batch
        rw [unpacked_batch batch usable, List.flatMap_def]
        apply Yields.batch key _ batch (extractionKey_of_usable usable)
        rw [List.forall₂_map_right_iff, List.forall₂_same]
        intro envelope member
        exact resolves_carried (carrying envelope member)

theorem prepare_of_unpacks {source : Source} {samples : List Json} (given : samples ≠ [])
    (unpacks : source.Unpacks samples) :
    source.prepare samples = checkObjects (source.unpacked samples) := by
  rw [prepare, unpacked, if_neg (by simpa using given)]
  cases batch : source.isBatch with
  | false => rfl
  | true =>
      obtain ⟨key, usable, carrying⟩ := unpacks batch
      have extracted : extract key samples = .ok (samples.flatMap (carried key)) :=
        (extractFrom_eq_ok_iff key 0 samples _).mpr ⟨carrying, rfl⟩
      simp only [if_true, usable, extracted, bind, Except.bind]

theorem usableKey_batch (dataset : String) {key : String}
    (spoken : ∃ char ∈ key.toList, Text.isBlank char = false) :
    (batch dataset key).usableKey = some key := by
  simpa [usableKey, batch, Option.filter] using spoken

theorem arrays_of_extract {envelopes events : List Json}
    (extracted : extract key envelopes = .ok events) :
    ∃ arrays, List.Forall₂ (fun envelope elements =>
        follow (Text.split '.' key) envelope = some (.array elements)) envelopes arrays ∧
      events = arrays.flatten := by
  obtain ⟨carrying, rfl⟩ := (extractFrom_eq_ok_iff key 0 envelopes events).mp extracted
  refine ⟨envelopes.map (carried key), List.forall₂_map_right_iff.mpr ?_, List.flatMap_def⟩
  refine List.forall₂_same.mpr fun envelope member => ?_
  exact (follow_split_eq_some_iff key envelope _).mpr (resolves_carried (carrying envelope member))

theorem prepare_batch (dataset : String) {envelopes events : List Json}
    (spoken : ∃ char ∈ key.toList, Text.isBlank char = false)
    (extracted : extract key envelopes = .ok events) (nonempty : events ≠ []) :
    (batch dataset key).prepare envelopes = checkObjects events := by
  obtain ⟨carrying, rfl⟩ := (extractFrom_eq_ok_iff key 0 envelopes events).mp extracted
  have given : envelopes ≠ [] := by
    rintro rfl
    exact nonempty rfl
  have usable := usableKey_batch dataset spoken
  have unpacks : (batch dataset key).Unpacks envelopes := fun _ => ⟨key, usable, carrying⟩
  rw [prepare_of_unpacks given unpacks, unpacked_batch rfl usable]

theorem prepare_events (dataset : String) {events : List Json} (nonempty : events ≠ []) :
    prepare { dataset } events = checkObjects events :=
  prepare_of_unpacks nonempty fun batch => by cases batch

end Source

end EventSchema
