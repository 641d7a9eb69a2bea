import EventSchema.Proofs.Envelopes
import EventSchema.Proofs.Runs
import Mathlib.Data.Nat.Find

namespace EventSchema

namespace Json

mutual

/-- Scalars and empty containers do not nest, other containers one level deeper than their deepest
part. -/
def nesting : Json → Nat
  | .array elements => nestingOfElements elements
  | .object members => nestingOfMembers members
  | _ => 0

def nestingOfElements : List Json → Nat
  | [] => 0
  | element :: rest => max (1 + element.nesting) (nestingOfElements rest)

def nestingOfMembers : List (String × Json) → Nat
  | [] => 0
  | (_, value) :: rest => max (1 + value.nesting) (nestingOfMembers rest)

end

end Json

namespace Node

variable {settings : Settings} {depth deepest : Nat} {α β : Type}

/-- A reading that gives a result unless it gets deeper than the limit, and else is refused for the
first level beyond. -/
def Limited (settings : Settings) (deepest : Nat) (reading : Except SampleError α) : Prop :=
  (deepest ≤ settings.maxDepth ∧ ∃ result, reading = .ok result) ∨
    settings.maxDepth < deepest ∧
      reading = .error (.tooDeep (settings.maxDepth + 1) settings.maxDepth)

theorem limited_bounded {schema : Except SampleError Node} (reached : depth ≤ settings.maxDepth + 1)
    (below : depth ≤ deepest) (inner : depth ≤ settings.maxDepth → Limited settings deepest schema) :
    Limited settings deepest (bounded settings depth schema) := by
  rw [bounded]
  split
  · have first : depth = settings.maxDepth + 1 := by omega
    exact .inr ⟨by omega, by rw [first]⟩
  · exact inner (by omega)

theorem limited_leaf (node : Node) (reached : depth ≤ settings.maxDepth + 1) :
    Limited settings (depth + 0) (bounded settings depth (.ok node)) :=
  limited_bounded reached (Nat.le_add_right depth 0) fun within => .inl ⟨within, node, rfl⟩

theorem limited_bind {other : Nat} {first : Except SampleError α} {next : α → Except SampleError β}
    (own : Limited settings deepest first)
    (rest : ∀ result, Limited settings other (next result)) :
    Limited settings (max deepest other) (first >>= next) := by
  rcases own with ⟨within, result, rfl⟩ | ⟨beyond, rfl⟩
  · rcases rest result with ⟨within', result', same⟩ | ⟨beyond', same⟩
    · exact .inl ⟨by omega, result', same⟩
    · exact .inr ⟨by omega, same⟩
  · exact .inr ⟨by omega, rfl⟩

theorem limited_map (change : α → β) {reading : Except SampleError α}
    (own : Limited settings deepest reading) : Limited settings deepest (change <$> reading) := by
  rcases own with ⟨within, result, rfl⟩ | ⟨beyond, rfl⟩
  · exact .inl ⟨within, change result, rfl⟩
  · exact .inr ⟨beyond, rfl⟩

mutual

theorem limited_infer : (value : Json) → (depth : Nat) → depth ≤ settings.maxDepth + 1 →
    Limited settings (depth + value.nesting) (infer settings depth value)
  | .null, depth, reached => limited_leaf _ reached
  | .bool _, depth, reached => limited_leaf _ reached
  | .number _, depth, reached => limited_leaf _ reached
  | .string _, depth, reached => limited_leaf _ reached
  | .array elements, depth, reached => by
      refine limited_bounded reached (Nat.le_add_right _ _) fun within => ?_
      exact limited_map ofItems (limited_inferElements elements depth none within)
  | .object members, depth, reached => by
      refine limited_bounded reached (Nat.le_add_right _ _) fun within => ?_
      exact limited_map _ (limited_inferMembers members depth within)

theorem limited_inferElements : (elements : List Json) → (depth : Nat) → (items : Option Node) →
    depth ≤ settings.maxDepth →
      Limited settings (depth + Json.nestingOfElements elements)
        (inferElements settings (depth + 1) items elements)
  | [], depth, items, within => .inl ⟨within, items, rfl⟩
  | element :: rest, depth, items, within => by
      have own := limited_infer element (depth + 1) (Nat.succ_le_succ within)
      have joined := limited_bind own fun next =>
        limited_inferElements rest depth (some (addElement items next)) within
      have deepest : max (depth + 1 + element.nesting) (depth + Json.nestingOfElements rest) =
          depth + Json.nestingOfElements (element :: rest) := by
        rw [Json.nestingOfElements]
        omega
      rw [← deepest]
      exact joined

theorem limited_inferMembers : (members : List (String × Json)) → (depth : Nat) →
    depth ≤ settings.maxDepth →
      Limited settings (depth + Json.nestingOfMembers members)
        (inferMembers settings (depth + 1) members)
  | [], depth, within => .inl ⟨within, [], rfl⟩
  | (key, value) :: rest, depth, within => by
      have own := limited_infer value (depth + 1) (Nat.succ_le_succ within)
      have joined := limited_bind own fun child =>
        limited_map ((key, child) :: ·) (limited_inferMembers rest depth within)
      have deepest : max (depth + 1 + value.nesting) (depth + Json.nestingOfMembers rest) =
          depth + Json.nestingOfMembers ((key, value) :: rest) := by
        rw [Json.nestingOfMembers]
        omega
      rw [← deepest]
      exact joined

end

theorem limited_ofSamples (samples : List Json)
    (objects : ∀ sample ∈ samples, sample.isObject = true) :
    ((∀ sample ∈ samples, sample.nesting ≤ settings.maxDepth) ∧
        ∃ trees, ofSamples settings samples = .ok trees) ∨
      (∃ sample ∈ samples, settings.maxDepth < sample.nesting) ∧
        ofSamples settings samples =
          .error (.tooDeep (settings.maxDepth + 1) settings.maxDepth) := by
  induction samples with
  | nil => exact .inl ⟨by simp, [], rfl⟩
  | cons sample rest ih =>
      obtain ⟨object, others⟩ := List.forall_mem_cons.mp objects
      have read : ofSample settings sample = infer settings 0 sample := by rw [ofSample, if_pos object]
      simp only [ofSamples] at ih ⊢
      rw [List.mapM_cons, read]
      have limited : Limited settings (0 + sample.nesting) (infer settings 0 sample) :=
        limited_infer sample 0 (Nat.zero_le _)
      rcases limited with ⟨within, tree, own⟩ | ⟨beyond, own⟩
      · rw [Nat.zero_add] at within
        rw [own]
        rcases ih others with ⟨each, trees, later⟩ | ⟨⟨deep, member, beyond⟩, later⟩
        · refine .inl ⟨List.forall_mem_cons.mpr ⟨within, each⟩, tree :: trees, ?_⟩
          rw [later]
          rfl
        · refine .inr ⟨⟨deep, List.mem_cons_of_mem sample member, beyond⟩, ?_⟩
          rw [later]
          rfl
      · rw [Nat.zero_add] at beyond
        rw [own]
        exact .inr ⟨⟨sample, List.mem_cons_self, beyond⟩, rfl⟩

end Node

namespace Run

variable (settings : Settings) (source : Source) (samples : List Json)

theorem generate_batch_eq (dataset dataset' : String) {key : String} {envelopes events : List Json}
    (spoken : ∃ char ∈ key.toList, Text.isBlank char = false)
    (extracted : Source.extract key envelopes = .ok events) (nonempty : events ≠ []) :
    generate settings (.batch dataset key) envelopes =
      generate settings { dataset := dataset' } events := by
  rw [generate, generate, Source.prepare_batch dataset spoken extracted nonempty,
    Source.prepare_events dataset' nonempty]

/-- A batch runs as its events do, so it does not show how they are spread over envelopes. -/
theorem generate_batch (dataset key : String) (envelopes events : List Json)
    (spoken : ∃ char ∈ key.toList, Text.isBlank char = false)
    (extracted : Source.extract key envelopes = .ok events) (nonempty : events ≠ []) :
    (∃ arrays, List.Forall₂ (fun envelope elements =>
          Source.follow (Text.split '.' key) envelope = some (.array elements)) envelopes arrays ∧
        events = arrays.flatten) ∧
      generate settings (.batch dataset key) envelopes = generate settings { dataset } events ∧
      ∀ (dataset' key' : String) (envelopes' : List Json),
        (∃ char ∈ key'.toList, Text.isBlank char = false) →
          Source.extract key' envelopes' = .ok events →
            generate settings (.batch dataset' key') envelopes' =
              generate settings (.batch dataset key) envelopes := by
  have same := generate_batch_eq settings dataset dataset spoken extracted nonempty
  refine ⟨Source.arrays_of_extract extracted, same, ?_⟩
  intro dataset' key' envelopes' spoken' extracted'
  rw [same]
  exact generate_batch_eq settings dataset' dataset spoken' extracted' nonempty

/-- Two events in envelopes of their own, with an empty one between them, or both in one envelope. -/
theorem generate_batch_spread :
    let first := Json.object [("id", .bool true)]
    let second := Json.object [("id", .null)]
    let envelope := fun events : List Json =>
      Json.object [("data", .object [("events", .array events)])]
    let spread := [envelope [first], envelope [], envelope [second]]
    (∃ char ∈ "data.events".toList, Text.isBlank char = false) ∧
      Source.extract "data.events" spread = .ok [first, second] ∧
      generate {} (.batch "log" "data.events") spread =
        generate {} { dataset := "log" } [first, second] ∧
      generate {} (.batch "log" "events") [.object [("events", .array [first, second])]] =
        generate {} (.batch "log" "data.events") spread := by
  intro first second envelope spread
  have spoken : ∃ char ∈ "data.events".toList, Text.isBlank char = false := ⟨'d', by simp, rfl⟩
  have spoken' : ∃ char ∈ "events".toList, Text.isBlank char = false := ⟨'e', by simp, rfl⟩
  have extracted : Source.extract "data.events" spread = .ok [first, second] := by rfl
  have together : Source.extract "events" [.object [("events", .array [first, second])]] =
      .ok [first, second] := by rfl
  obtain ⟨-, same, regrouped⟩ := generate_batch {} "log" "data.events" spread [first, second] spoken
    extracted (by simp)
  exact ⟨spoken, extracted, same, regrouped "log" "events" _ spoken' together⟩

/-- The reasons to refuse samples, numbered in the order in which they are looked for. -/
inductive Objection : Nat → SampleError → Prop where
  | noSamples (none : samples = []) : Objection 1 .noSamples
  | noExtractionKey (batch : source.isBatch = true)
      (unusable : ∀ key, source.extractionKey = some key →
        ∀ char ∈ key.toList, Text.isBlank char = true) :
      Objection 2 (.noExtractionKey source.dataset)
  | envelope (key : String) (before after : List Json) (envelope : Json) (error : SampleError)
      (batch : source.isBatch = true) (given : source.extractionKey = some key)
      (split : samples = before ++ envelope :: after)
      (sound : ∀ earlier ∈ before, ∀ place error, ¬ Source.Fault key place earlier error)
      (fault : Source.Fault key before.length envelope error) : Objection 3 error
  | noEvents (yields : source.Yields samples []) : Objection 4 .noSamples
  | notObject (before after : List Json) (event : Json)
      (yields : source.Yields samples (before ++ event :: after))
      (objects : ∀ earlier ∈ before, ∃ members, earlier = .object members)
      (other : ∀ members, event ≠ .object members) : Objection 5 (.notObject (.ofValue event))
  | tooDeep (events : List Json) (event : Json) (yields : source.Yields samples events)
      (member : event ∈ events) (deep : settings.maxDepth < event.nesting) :
      Objection 6 (.tooDeep (settings.maxDepth + 1) settings.maxDepth)

section Objections

variable {settings source samples} {place : Nat} {error : SampleError}

theorem given_of_unobjected (given : ∀ error, ¬ Objection settings source samples 1 error) :
    samples ≠ [] :=
  fun none => given _ (.noSamples none)

theorem usableKey_of_unobjected (keyed : ∀ error, ¬ Objection settings source samples 2 error)
    (batch : source.isBatch = true) : ∃ key, source.usableKey = some key := by
  cases usable : source.usableKey with
  | none =>
      have unusable := source.usableKey_eq_none_iff.mp usable
      exact absurd (.noExtractionKey batch unusable) (keyed _)
  | some key => exact ⟨key, rfl⟩

theorem unpacks_of_unobjected (keyed : ∀ error, ¬ Objection settings source samples 2 error)
    (unfaulted : ∀ error, ¬ Objection settings source samples 3 error) : source.Unpacks samples := by
  intro batch
  obtain ⟨key, usable⟩ := usableKey_of_unobjected keyed batch
  have given := Source.extractionKey_of_usable usable
  refine ⟨key, usable, ?_⟩
  rcases forall_or_exists_first (Source.Carries key) samples with
    each | ⟨before, envelope, after, split, carrying, other⟩
  · exact each
  · have sound : ∀ earlier ∈ before, ∀ place error, ¬ Source.Fault key place earlier error :=
      fun earlier member => (Source.carries_iff key earlier).mp (carrying earlier member)
    obtain ⟨error, fault⟩ := (Source.carries_or_fault key before.length envelope).resolve_left other
    exact absurd (.envelope key before after envelope error batch given split sound fault)
      (unfaulted error)

theorem objects_of_unobjected (unpacks : source.Unpacks samples)
    (objects : ∀ error, ¬ Objection settings source samples 5 error) :
    ∀ event ∈ source.unpacked samples, event.isObject = true := by
  rcases forall_or_exists_first (fun event => ∃ members, event = .object members)
      (source.unpacked samples) with each | ⟨before, event, after, split, earlier, other⟩
  · exact fun event member => event.isObject_iff.mpr (each event member)
  · have yields := (Source.yields_iff unpacks _).mpr split.symm
    exact absurd (.notObject before after event yields earlier (not_exists.mp other)) (objects _)

theorem generate_of_prepared (quiet : ∀ earlier < 6, ∀ other,
    ¬ Objection settings source samples earlier other) :
    generate settings source samples = ofSamples settings (source.unpacked samples) := by
  have given := given_of_unobjected (quiet 1 (by decide))
  have unpacks := unpacks_of_unobjected (quiet 2 (by decide)) (quiet 3 (by decide))
  have nonempty : source.unpacked samples ≠ [] := by
    intro none
    exact quiet 4 (by decide) _ (.noEvents ((Source.yields_iff unpacks []).mpr none.symm))
  have objects := objects_of_unobjected unpacks (quiet 5 (by decide))
  rw [generate, (source.prepare_eq_ok_iff samples _).mpr ⟨given, unpacks, nonempty, objects, rfl⟩]
  rfl

/-- The first objection is what a run fails with. -/
theorem generate_of_objection (objection : Objection settings source samples place error)
    (first : ∀ earlier < place, ∀ other, ¬ Objection settings source samples earlier other) :
    generate settings source samples = .error error := by
  cases objection with
  | noSamples none =>
      subst none
      rfl
  | noExtractionKey batch unusable =>
      have given := given_of_unobjected (first 1 (by decide))
      have usable := source.usableKey_eq_none_iff.mpr unusable
      rw [generate, Source.prepare, if_neg (by simpa using given), if_pos batch, usable]
      rfl
  | envelope key before after envelope _ batch keyed split sound fault =>
      obtain ⟨key', usable⟩ := usableKey_of_unobjected (first 2 (by decide)) batch
      obtain rfl := Option.some.inj ((Source.extractionKey_of_usable usable).symm.trans keyed)
      have given := given_of_unobjected (first 1 (by decide))
      have carrying : ∀ earlier ∈ before, Source.Carries key' earlier :=
        fun earlier member => (Source.carries_iff key' earlier).mpr (sound earlier member)
      have extracted : Source.extract key' samples = .error error := by
        rw [Source.extract, split]
        exact Source.extractFrom_of_fault before after carrying (by simpa using fault)
      rw [generate, Source.prepare, if_neg (by simpa using given), if_pos batch, usable]
      simp only [extracted, bind, Except.bind]
  | noEvents yields =>
      have given := given_of_unobjected (first 1 (by decide))
      have unpacks := unpacks_of_unobjected (first 2 (by decide)) (first 3 (by decide))
      rw [generate, Source.prepare_of_unpacks given unpacks, ← (Source.yields_iff unpacks _).mp yields]
      rfl
  | notObject before after event yields objects other =>
      have given := given_of_unobjected (first 1 (by decide))
      have unpacks := unpacks_of_unobjected (first 2 (by decide)) (first 3 (by decide))
      have found := Source.find?_first_other before after event objects other
      rw [generate, Source.prepare_of_unpacks given unpacks,
        ← (Source.yields_iff unpacks _).mp yields, Source.checkObjects]
      simp [found, bind, Except.bind]
  | tooDeep events event yields member deep =>
      have unpacks := unpacks_of_unobjected (first 2 (by decide)) (first 3 (by decide))
      have objects := objects_of_unobjected unpacks (first 5 (by decide))
      rw [(Source.yields_iff unpacks events).mp yields] at member
      rw [generate_of_prepared first, ofSamples]
      rcases Node.limited_ofSamples _ objects with ⟨within, -⟩ | ⟨-, refused⟩
      · exact absurd (within event member) (Nat.not_le.mpr deep)
      · rw [refused]
        rfl

theorem generate_of_unobjected
    (quiet : ∀ place error, ¬ Objection settings source samples place error) :
    ∃ run, generate settings source samples = .ok run := by
  have unpacks := unpacks_of_unobjected (quiet 2) (quiet 3)
  have yields := (Source.yields_iff unpacks _).mpr rfl
  have objects := objects_of_unobjected unpacks (quiet 5)
  rw [generate_of_prepared fun earlier _ => quiet earlier]
  by_cases deep : ∃ event ∈ source.unpacked samples, settings.maxDepth < event.nesting
  · obtain ⟨event, member, beyond⟩ := deep
    exact absurd (.tooDeep _ event yields member beyond) (quiet 6 _)
  · have nonempty : source.unpacked samples ≠ [] := fun none => quiet 4 _ (.noEvents (none ▸ yields))
    obtain ⟨-, trees, inferred⟩ := (Node.limited_ofSamples _ objects).resolve_right fun refused =>
      deep refused.1
    have paired := ((Node.ofSamples_eq_ok_iff settings _ trees).mp inferred).length_eq
    have some : trees ≠ [] := by
      intro none
      rw [none] at paired
      exact nonempty (List.length_eq_zero_iff.mp paired)
    obtain ⟨first, rest, rfl⟩ := List.exists_cons_of_ne_nil some
    exact ⟨_, (ofSamples_eq_ok_iff settings _ _).mpr ⟨_, _, inferred, rfl, rfl⟩⟩

end Objections

/-- Samples are refused for the first objection to them, and only for an objection. -/
theorem generate_first_objection :
    (∀ error, generate settings source samples = .error error ↔
      ∃ place, Objection settings source samples place error ∧
        ∀ earlier < place, ∀ other, ¬ Objection settings source samples earlier other) ∧
    ((∃ run, generate settings source samples = .ok run) ↔
      ∀ place error, ¬ Objection settings source samples place error) := by
  classical
  by_cases quiet : ∀ place error, ¬ Objection settings source samples place error
  · obtain ⟨run, finished⟩ := generate_of_unobjected quiet
    refine ⟨fun error => ⟨fun refused => ?_, ?_⟩, fun _ => quiet, fun _ => ⟨run, finished⟩⟩
    · rw [finished] at refused
      cases refused
    · rintro ⟨place, objection, -⟩
      exact absurd objection (quiet place error)
  · have objected : ∃ place error, Objection settings source samples place error := by
      simpa using quiet
    obtain ⟨other, objection⟩ := Nat.find_spec objected
    have first : ∀ earlier < Nat.find objected, ∀ error,
        ¬ Objection settings source samples earlier error :=
      fun earlier less error found => Nat.find_min objected less ⟨error, found⟩
    have refused := generate_of_objection objection first
    refine ⟨fun error => ⟨fun finished => ?_, ?_⟩, fun ⟨run, finished⟩ => ?_, fun none => ?_⟩
    · obtain rfl := Except.error.inj (refused.symm.trans finished)
      exact ⟨_, objection, first⟩
    · rintro ⟨place, objection', first'⟩
      exact generate_of_objection objection' first'
    · rw [refused] at finished
      cases finished
    · exact absurd none quiet

/-- Envelopes whose events lie one level down, and what can be wrong with a request. -/
theorem generate_first_objection_envelopes :
    let event := Json.object [("id", .bool true)]
    let deep := Json.object [("id", .array [.array []])]
    let envelope := fun found : Json => Json.object [("data", .object [("events", found)])]
    let filled := envelope (.array [event])
    let empty := envelope (.array [])
    let settings : Settings := { maxDepth := 1 }
    let source := Source.batch "log" "data.events"
    let refusals : List (Source × List Json × SampleError) :=
      [(source, [], .noSamples),
        ({ isBatch := true, dataset := "log" }, [filled], .noExtractionKey "log"),
        (.batch "log" " \t\u3000", [filled], .noExtractionKey "log"),
        (source, [filled, .object [("data.events", .array [event])]], .keyNotFound "data.events" 1),
        (source, [filled, envelope .null], .notExtractable "data.events" 1 .null),
        (source, [filled, envelope event], .notExtractable "data.events" 1 .object),
        (source, [filled, envelope (.string "")], .notExtractable "data.events" 1 .string),
        (source, [empty, envelope (.number (.whole 0))], .notExtractable "data.events" 1 .integer),
        (source, [empty, envelope (.number (.real 0.5))], .notExtractable "data.events" 1 .number),
        (source, [filled, envelope (.array [event, .bool true, .null])],
          .notExtractable "data.events" 1 .boolean),
        (source, [empty, empty], .noSamples),
        ({ dataset := "log" }, [event, .array [], .null], .notObject .array),
        ({ dataset := "log" }, [event, deep], .tooDeep 2 1)]
    (∃ run, generate settings source [filled, empty, filled] = .ok run ∧
        run.samples = [event, event]) ∧
      (∀ place error, ¬ Objection settings source [filled, empty, filled] place error) ∧
      ∀ refusal ∈ refusals, generate settings refusal.1 refusal.2.1 = .error refusal.2.2 ∧
        ∃ place, Objection settings refusal.1 refusal.2.1 place refusal.2.2 ∧
          ∀ earlier < place, ∀ other, ¬ Objection settings refusal.1 refusal.2.1 earlier other := by
  intro event deep envelope filled empty settings source refusals
  have finished : ∃ run, generate settings source [filled, empty, filled] = .ok run ∧
      run.samples = [event, event] := ⟨_, rfl, rfl⟩
  have refused : ∀ refusal ∈ refusals,
      generate settings refusal.1 refusal.2.1 = .error refusal.2.2 := by
    simp only [refusals, List.forall_mem_cons]
    exact ⟨rfl, rfl, rfl, rfl, rfl, rfl, rfl, rfl, rfl, rfl, rfl, rfl, rfl, by simp⟩
  refine ⟨finished, ?_, ?_⟩
  · obtain ⟨run, made, -⟩ := finished
    exact (generate_first_objection settings source [filled, empty, filled]).2.mp ⟨run, made⟩
  · intro refusal listed
    have failed := refused refusal listed
    exact ⟨failed, ((generate_first_objection settings _ _).1 _).mp failed⟩

end Run

end EventSchema
