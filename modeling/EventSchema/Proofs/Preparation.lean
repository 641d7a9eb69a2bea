import EventSchema.Json.Reader
import EventSchema.Proofs.KeyOrder
import EventSchema.Proofs.Keyed
import EventSchema.Proofs.Results
import EventSchema.Samples.Source
import Mathlib.Data.List.Forall2
import Mathlib.Data.List.Perm.Basic

namespace EventSchema

/-- The keys of every object in the value are strictly increasing. -/
inductive Json.Ordered : Json → Prop where
  | null : Ordered .null
  | bool (value : Bool) : Ordered (.bool value)
  | number (value : Json.Number) : Ordered (.number value)
  | string (text : String) : Ordered (.string text)
  | array (elements : List Json) (each : ∀ element ∈ elements, Ordered element) :
      Ordered (.array elements)
  | object (members : List (String × Json)) (increasing : Keyed.Increasing members)
      (each : ∀ member ∈ members, Ordered member.2) : Ordered (.object members)

namespace Json

mutual

theorem sorted_ordered : (value : Json) → value.sorted.Ordered
  | .null => .null
  | .bool value => .bool value
  | .number value => .number value
  | .string text => .string text
  | .array elements => .array _ (sortedElements_ordered elements)
  | .object members =>
      .object _ (Keyed.increasing_ofList _) fun member found =>
        sortedMembers_ordered members member (Keyed.mem_ofList found)

theorem sortedElements_ordered :
    (elements : List Json) → ∀ element ∈ sortedElements elements, element.Ordered
  | [], _, member => by cases member
  | first :: rest, element, member => by
      rcases List.mem_cons.mp member with rfl | later
      · exact sorted_ordered first
      · exact sortedElements_ordered rest element later

theorem sortedMembers_ordered :
    (members : List (String × Json)) → ∀ member ∈ sortedMembers members, member.2.Ordered
  | [], _, found => by cases found
  | (key, value) :: rest, member, found => by
      rcases List.mem_cons.mp found with rfl | later
      · exact sorted_ordered value
      · exact sortedMembers_ordered rest member later

end

theorem ordered_of_sorted (values : List Json) (same : values.map sorted = values) :
    ∀ value ∈ values, value.Ordered := by
  intro value member
  rw [← same] at member
  rcases List.mem_map.mp member with ⟨raw, -, rfl⟩
  exact sorted_ordered raw

theorem parse_ordered (text : String) (value : Json) (read : parse? text = some value) :
    value.Ordered := by
  rw [parse?] at read
  cases written : Written.ofText? text with
  | none => simp [written] at read
  | some document =>
      cases raw : document.value? Written.depthLimit with
      | none => simp [written, raw] at read
      | some value' =>
          have same : value'.sorted = value := by simpa [written, raw] using read
          exact same ▸ sorted_ordered value'

theorem member_ordered (value part : Json) (name : String) (ordered : value.Ordered)
    (found : value.member? name = some part) : part.Ordered := by
  cases ordered with
  | object members increasing each => exact each _ (Keyed.mem_of_lookup found)
  | null | bool _ | number _ | string _ | array _ _ => cases found

end Json

namespace Source

theorem follow_ordered (keys : List String) (value part : Json) (ordered : value.Ordered)
    (found : follow keys value = some part) : part.Ordered := by
  induction keys generalizing value with
  | nil => exact Option.some.inj found ▸ ordered
  | cons key keys ih =>
      rcases Option.bind_eq_some_iff.mp found with ⟨next, member, rest⟩
      exact ih next (Json.member_ordered value next key ordered member) rest

theorem isSome_follow_of_append (keys : List String) (key : String) (value : Json)
    (found : (follow (keys ++ [key]) value).isSome = true) : (follow keys value).isSome = true := by
  induction keys generalizing value with
  | nil => rfl
  | cons first rest ih =>
      rw [List.cons_append, follow] at found
      rw [follow]
      cases present : value.member? first with
      | none => simp [present] at found
      | some part =>
          rw [present] at found
          exact ih part found

/-- An envelope carries events when its key leads to a list of objects. -/
def Carries (key : String) (envelope : Json) : Prop :=
  ∃ elements, follow (Text.split '.' key) envelope = some (.array elements) ∧
    ∀ element ∈ elements, element.isObject = true

def carried (key : String) (envelope : Json) : List Json :=
  (((follow (Text.split '.' key) envelope).bind Json.elements?).getD [])

theorem events_eq_ok_iff (key : String) (sample : Nat) (envelope : Json) (found : List Json) :
    events key sample envelope = .ok found ↔ Carries key envelope ∧ found = carried key envelope := by
  rw [events, Carries, carried]
  cases target : follow (Text.split '.' key) envelope with
  | none => simp
  | some value =>
      cases value with
      | array elements =>
          cases bad : elements.find? (!·.isObject) with
          | none =>
              have objects : ∀ element ∈ elements, element.isObject = true := by
                simpa using List.find?_eq_none.mp bad
              have carries : ∃ elements', some (Json.array elements) = some (.array elements') ∧
                  ∀ element ∈ elements', element.isObject = true := ⟨elements, rfl, objects⟩
              simp only [bad, carries, true_and, Except.ok.injEq]
              exact eq_comm
          | some element =>
              have member := List.mem_of_find?_eq_some bad
              have notObject : element.isObject = false := by simpa using List.find?_some bad
              simp only [bad]
              constructor
              · intro impossible
                cases impossible
              · intro read
                rcases read with ⟨⟨elements', same, objects⟩, -⟩
                cases same
                simp [objects element member] at notObject
      | null | bool _ | number _ | string _ | object _ => simp

theorem extractFrom_eq_ok_iff (key : String) (sample : Nat) (envelopes found : List Json) :
    extractFrom key sample envelopes = .ok found ↔
      (∀ envelope ∈ envelopes, Carries key envelope) ∧ found = envelopes.flatMap (carried key) := by
  induction envelopes generalizing sample found with
  | nil => simp [extractFrom, eq_comm]
  | cons envelope rest ih =>
      rw [extractFrom]
      constructor
      · intro extracted
        obtain ⟨own, first, extracted⟩ := bind_eq_ok_iff.mp extracted
        obtain ⟨later, others, finished⟩ := bind_eq_ok_iff.mp extracted
        rcases (events_eq_ok_iff key sample envelope own).mp first with ⟨carries, rfl⟩
        rcases (ih (sample + 1) later).mp others with ⟨each, rfl⟩
        have same : carried key envelope ++ rest.flatMap (carried key) = found :=
          Except.ok.inj finished
        exact ⟨List.forall_mem_cons.mpr ⟨carries, each⟩, by simpa using same.symm⟩
      · intro read
        rcases read with ⟨each, rfl⟩
        rcases List.forall_mem_cons.mp each with ⟨carries, others⟩
        have first := (events_eq_ok_iff key sample envelope _).mpr ⟨carries, rfl⟩
        have later := (ih (sample + 1) _).mpr ⟨others, rfl⟩
        simp [first, later, bind, Except.bind, pure, Except.pure]

theorem carried_ordered (key : String) (envelope : Json) (ordered : envelope.Ordered) :
    ∀ event ∈ carried key envelope, event.Ordered := by
  intro event member
  rw [carried] at member
  cases target : follow (Text.split '.' key) envelope with
  | none => simp [target] at member
  | some value =>
      have inner := follow_ordered _ envelope value ordered target
      cases inner with
      | array elements each => exact each event (by simpa [target, Json.elements?] using member)
      | null | bool _ | number _ | string _ | object _ _ _ =>
          simp [target, Json.elements?] at member

theorem checkObjects_eq_ok_iff (samples found : List Json) :
    checkObjects samples = .ok found ↔
      samples ≠ [] ∧ (∀ sample ∈ samples, sample.isObject = true) ∧ found = samples := by
  rw [checkObjects]
  by_cases empty : samples = []
  · simp [empty]
  · cases bad : samples.find? (!·.isObject) with
    | none =>
        have objects : ∀ sample ∈ samples, sample.isObject = true := by
          simpa using List.find?_eq_none.mp bad
        simp only [List.isEmpty_iff, empty, if_false, Except.ok.injEq, ne_eq, not_false_eq_true,
          true_and]
        exact ⟨fun same => ⟨objects, same.symm⟩, fun same => same.2.symm⟩
    | some sample =>
        have notObject : sample.isObject = false := by simpa using List.find?_some bad
        have member := List.mem_of_find?_eq_some bad
        simp only [List.isEmpty_iff, empty, if_false, reduceCtorEq, false_iff, not_and]
        intro _ objects
        simp [objects sample member] at notObject

def unpacked (source : Source) (samples : List Json) : List Json :=
  match source.isBatch, source.usableKey with
  | true, some key => samples.flatMap (carried key)
  | _, _ => samples

def Unpacks (source : Source) (samples : List Json) : Prop :=
  source.isBatch = true →
    ∃ key, source.usableKey = some key ∧ ∀ envelope ∈ samples, Carries key envelope

theorem prepare_eq_ok_iff (source : Source) (samples found : List Json) :
    source.prepare samples = .ok found ↔
      samples ≠ [] ∧ source.Unpacks samples ∧ source.unpacked samples ≠ [] ∧
        (∀ sample ∈ source.unpacked samples, sample.isObject = true) ∧
          found = source.unpacked samples := by
  rw [prepare, Unpacks, unpacked]
  by_cases empty : samples = []
  · simp [empty]
  · cases batch : source.isBatch with
    | false => simp [empty, checkObjects_eq_ok_iff]
    | true =>
        cases usable : source.usableKey with
        | none => simp [empty]
        | some key =>
            cases extracted : extract key samples with
            | error error =>
                have fails : ¬ ∀ envelope ∈ samples, Carries key envelope := by
                  intro each
                  have works := (extractFrom_eq_ok_iff key 0 samples _).mpr ⟨each, rfl⟩
                  exact absurd (extracted.symm.trans works) (by simp)
                simp [empty, extracted, fails, bind, Except.bind]
            | ok events =>
                rcases (extractFrom_eq_ok_iff key 0 samples events).mp extracted with ⟨each, rfl⟩
                have unpacks : ∃ key', some key = some key' ∧
                    ∀ envelope ∈ samples, Carries key' envelope := ⟨key, rfl, each⟩
                simp only [List.isEmpty_iff, empty, if_false, if_true, extracted, bind, Except.bind,
                  checkObjects_eq_ok_iff, unpacks, implies_true, ne_eq, not_false_eq_true, true_and]

theorem prepare_ordered (source : Source) (samples prepared : List Json)
    (ordered : ∀ sample ∈ samples, sample.Ordered)
    (finished : source.prepare samples = .ok prepared) : ∀ sample ∈ prepared, sample.Ordered := by
  rcases (prepare_eq_ok_iff source samples prepared).mp finished with ⟨-, -, -, -, rfl⟩
  intro sample member
  rw [unpacked] at member
  split at member
  · rename_i key _ _
    rcases List.mem_flatMap.mp member with ⟨envelope, given, inside⟩
    exact carried_ordered key envelope (ordered envelope given) sample inside
  · exact ordered sample member

theorem unpacked_perm (source : Source) (samples samples' : List Json)
    (shuffled : samples.Perm samples') :
    (source.unpacked samples).Perm (source.unpacked samples') := by
  simp only [unpacked]
  split
  · exact shuffled.flatMap_right _
  · exact shuffled

theorem prepare_perm (source : Source) (samples samples' prepared : List Json)
    (shuffled : samples.Perm samples') (finished : source.prepare samples = .ok prepared) :
    ∃ prepared', source.prepare samples' = .ok prepared' ∧ prepared.Perm prepared' := by
  rcases (prepare_eq_ok_iff source samples prepared).mp finished with
    ⟨given, unpacks, nonempty, objects, rfl⟩
  have moved := unpacked_perm source samples samples' shuffled
  refine ⟨source.unpacked samples', ?_, moved⟩
  refine (prepare_eq_ok_iff source samples' _).mpr ⟨?_, ?_, ?_, ?_, rfl⟩
  · exact fun empty => given (List.perm_nil.mp (empty ▸ shuffled))
  · intro batch
    rcases unpacks batch with ⟨key, usable, each⟩
    exact ⟨key, usable, fun envelope member => each envelope (shuffled.mem_iff.mpr member)⟩
  · exact fun empty => nonempty (List.perm_nil.mp (empty ▸ moved))
  · exact fun sample member => objects sample (moved.mem_iff.mpr member)

end Source

end EventSchema
