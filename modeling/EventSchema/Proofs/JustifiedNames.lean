import EventSchema.Proofs.ReachedValues

namespace EventSchema

theorem Path.exists_names_items {path : Path} (nested : Step.items ∈ path) :
    ∃ (names : List String) (rest : Path), path = names.map .property ++ .items :: rest := by
  obtain ⟨outer, rest, rfl, outermost⟩ := List.eq_append_cons_of_mem nested
  obtain ⟨names, rfl⟩ := Path.exists_names outermost
  exact ⟨names, rest, rfl⟩

namespace Node

variable {settings : Settings} {depth : Nat} {value : Json} {tree : Node}

theorem inferElements_eq_some {elements : List Json} {start merged : Option Node}
    (inferred : inferElements settings depth start elements = .ok merged)
    (some : start.isSome = true ∨ elements ≠ []) : merged.isSome = true := by
  induction elements generalizing start with
  | nil =>
      cases inferred
      exact some.resolve_right (by simp)
  | cons element rest ih =>
      obtain ⟨next, -, remaining⟩ := inferElements_cons inferred
      exact ih remaining (.inl rfl)

theorem exists_array_of_reached {names : List String} {rest : Path} {part : Json}
    (inferred : infer settings depth value = .ok tree)
    (reached : part ∈ value.reached (names.map .property ++ .items :: rest)) :
    ∃ label items, tree.get? (names.map .property) = some (arrayOf label items) := by
  rw [Json.reached_names] at reached
  obtain ⟨inner, followed, inside⟩ := List.mem_flatMap.mp reached
  obtain ⟨element, listed, -⟩ := List.mem_flatMap.mp inside
  rcases get?_infer names inferred with ⟨absent, -⟩ | ⟨depth', part', child, present, found, own⟩
  · simp [absent] at followed
  · obtain rfl : part' = inner := Option.some.inj (present.symm.trans (Option.mem_toList.mp followed))
    cases part' with
    | array elements =>
        obtain ⟨merged, read, rfl⟩ := infer_array own
        have nonempty : elements ≠ [] := List.ne_nil_of_mem listed
        obtain ⟨items, rfl⟩ :=
          Option.isSome_iff_exists.mp (inferElements_eq_some read (.inr nonempty))
        exact ⟨{}, items, found⟩
    | _ => simp [Json.elements?] at listed

theorem exists_array_of_reaches {holds : Node → Prop} {names : List String} {rest : Path}
    (inferred : infer settings depth value = .ok tree)
    (reaches : Reaches holds (names.map .property ++ .items :: rest) tree) :
    ∃ label items, tree.get? (names.map .property) = some (arrayOf label items) ∧
      Reaches holds rest items := by
  induction names generalizing depth value tree with
  | nil =>
      cases reaches with
      | @step _ child _ _ next inner =>
          obtain ⟨label, rfl⟩ := (step?_items_eq_some_iff tree child).mp next
          exact ⟨label, child, rfl, inner⟩
      | branch _ _ _ _ => exact absurd rfl (plain_infer inferred)
  | cons name names ih =>
      cases reaches with
      | @step _ child _ _ next inner =>
          rcases step?_infer name inferred with ⟨-, absent⟩ | ⟨part, child', -, found, own⟩
          · rw [absent] at next
            cases next
          · obtain rfl : child' = child := Option.some.inj (found.symm.trans next)
            obtain ⟨label, items, present, below⟩ := ih own inner
            refine ⟨label, items, ?_, below⟩
            rw [List.map_cons, get?_cons, found]
            exact present
      | branch _ _ _ _ => exact absurd rfl (plain_infer inferred)

end Node

namespace Run

open Conflict Node

section Regular

variable {run : Run} (regular : run.Regular) {path : Path} {name : String}

include regular

theorem reaches_of_asked {conflict : Conflict} (member : conflict ∈ run.conflicts)
    (asked : conflict.resolution = .optional true) (place : conflict.path = path ++ [.property name]) :
    2 ≤ run.samples.length ∧ ∃ tree ∈ run.inferred, Reaches (Has name) path tree := by
  obtain ⟨entry, listed, own, several, -⟩ := entry_of_asked regular member asked
  rw [sampleCount_eq regular] at several
  refine ⟨several, ?_⟩
  obtain ⟨-, sample, sampled, found, present⟩ :=
    (mem_table_iff regular entry.path).mp (List.mem_map_of_mem listed)
  rw [own, place] at present
  obtain ⟨tree, inferred, node, there, -⟩ := inferred_of_perSample regular sampled present
  obtain ⟨outer, child, here, next, -⟩ := exists_step_of_get? there
  refine ⟨tree, inferred, ?_⟩
  rw [← List.append_nil path]
  exact .of_get? here (.here (by rw [Has, leadsTo, next]; rfl))

/-- Where no array is degraded on the way, the trees of all samples that have items there have the same
names. -/
theorem reaches_of_kept {settings : Settings}
    (read : Node.ofSamples settings run.samples = .ok run.inferred) (nested : Step.items ∈ path)
    (kept : ∀ place ∈ run.comparison.degraded, ¬ place <+: path) {tree : Node}
    (inferred : tree ∈ run.inferred) (reaches : Reaches (Has name) path tree) {sample part : Json}
    {other : Node} (inferred' : other ∈ run.inferred) (own : infer settings 0 sample = .ok other)
    (reached : part ∈ sample.reached path) : Reaches (Has name) path other := by
  obtain ⟨names, rest, rfl⟩ := Path.exists_names_items nested
  obtain ⟨value, -, -, known⟩ := Node.sample_of_ofSamples read inferred
  obtain ⟨label, items, here, below⟩ := exists_array_of_reaches known reaches
  obtain ⟨label', items', there⟩ := exists_array_of_reached own reached
  have undegraded : ∀ place ∈ Comparison.divergent (Comparison.observed run.inferred),
      ¬ place <+: names.map Step.property := by
    intro place degraded inside
    have listed : place ∈ run.comparison.degraded := by
      rw [regular.compared, Comparison.compare_eq]
      exact degraded
    exact kept place listed (inside.trans (List.prefix_append _ _))
  have shape := Comparison.sameShape_of_not_degraded regular.wellFormed _ undegraded tree other
    label label' items items' inferred inferred' here there
  exact .of_get? there (.step .items rfl (below.of_sameShape shape))

end Regular

/-- If the items of an array require a name, in the finished schema and in alternatives of unions as
well, some sample has it in every object there, unless a conflict between several samples has made it
required. Every sample with an object there has the name in at least one. -/
theorem stored_requires_reached (settings : Settings) (source : Source) (samples : List Json)
    (run : Run) (ordered : ∀ sample ∈ samples, sample.Ordered)
    (finished : generate settings source samples = .ok run) (path : Path)
    (nested : Step.items ∈ path) (name : String)
    (required : Node.Reaches (Node.Requires name) path run.stored) :
    ((2 ≤ run.samples.length ∧ ∃ conflict ∈ run.conflicts,
        conflict.resolution = .optional true ∧ conflict.path = path ++ [.property name]) ∨
      ∃ sample ∈ run.samples, (∃ part ∈ sample.reached path, (part.member? name).isSome = true) ∧
        (Node.LaterUnionFree settings sample → ∀ members,
          .object members ∈ sample.reached path → name ∈ Keyed.keys members)) ∧
    ((∀ place ∈ run.comparison.degraded, ¬ place <+: path) → ∀ sample ∈ run.samples,
      (∃ members, .object members ∈ sample.reached path) →
        ∃ part ∈ sample.reached path, (part.member? name).isSome = true) := by
  have regular := regular_of_generate ordered finished
  obtain ⟨prepared, unpacked, made⟩ := (generate_eq_ok_iff settings source samples run).mp finished
  have ordered' := source.prepare_ordered samples prepared ordered unpacked
  obtain ⟨trees, merged, read, -, rfl⟩ := (ofSamples_eq_ok_iff settings prepared run).mp made
  have origin := requires_cases regular required
  constructor
  · rcases origin with ⟨tree, inferred, inner⟩ | ⟨conflict, member, asked, place⟩
    · obtain ⟨sample, sampled, -, own⟩ := Node.sample_of_ofSamples read inferred
      refine .inr ⟨sample, sampled, ?_, fun later members reached => ?_⟩
      · have sound := inferred_sound regular tree inferred
        exact exists_reached_of_reaches (ordered' sample sampled) own (inner.has_of_requires sound)
      · have conforming := conforms_infer (ordered' sample sampled) later 0 tree own
        exact required_of_conforms (regular.wellFormed tree inferred)
          (infer_flat (ordered' sample sampled) later own) conforming inner reached
    · exact .inl ⟨(reaches_of_asked regular member asked place).1, conflict, member, asked, place⟩
  · intro kept sample sampled present
    obtain ⟨members, reached⟩ := present
    obtain ⟨tree, inferred, has⟩ : ∃ tree ∈ trees, Reaches (Has name) path tree := by
      rcases origin with ⟨tree, inferred, inner⟩ | ⟨conflict, member, asked, place⟩
      · exact ⟨tree, inferred, inner.has_of_requires (inferred_sound regular tree inferred)⟩
      · exact (reaches_of_asked regular member asked place).2
    obtain ⟨other, inferred', own⟩ := Node.tree_of_ofSamples read sampled
    exact exists_reached_of_reaches (ordered' sample sampled) own
      (reaches_of_kept regular read nested kept inferred has inferred' own reached)

/-- No conflict has made the name required here: the first sample has it in all of its elements, the
second in one. -/
theorem stored_requires_reached_first :
    let samples := [Json.object [("xs", .array [.object [("b", .bool true)]])],
      .object [("xs", .array [.object [("b", .bool true)], .object []])], .object [("xs", .array [])]]
    let path : Path := [.property "xs", .items]
    ∃ run, (∀ sample ∈ samples, sample.Ordered) ∧
      generate {} { dataset := "events" } samples = .ok run ∧ run.conflicts = [] ∧
        run.comparison.degraded = [] ∧ Node.Reaches (Node.Requires "b") path run.stored ∧
          (∃ sample ∈ run.samples, (∃ part ∈ sample.reached path, (part.member? "b").isSome = true) ∧
            ∀ members, .object members ∈ sample.reached path → "b" ∈ Keyed.keys members) ∧
            ∀ sample ∈ run.samples, (∃ members, .object members ∈ sample.reached path) →
              ∃ part ∈ sample.reached path, (part.member? "b").isSome = true := by
  intro samples path
  have ordered : ∀ sample ∈ samples, sample.Ordered := Json.ordered_of_sorted samples (by rfl)
  have finished : ∃ run, generate {} { dataset := "events" } samples = .ok run ∧
      run.samples = samples ∧ run.conflicts = [] ∧ run.comparison.degraded = [] ∧
        ∃ label properties required,
          run.stored.get? path = some (.object label properties required) ∧ "b" ∈ required :=
    ⟨_, rfl, rfl, by decide, by decide, _, _, _, rfl, by decide⟩
  obtain ⟨run, made, same, none, kept, label, properties, required, present, demanded⟩ := finished
  have reaches : Node.Reaches (Node.Requires "b") path run.stored := by
    rw [← List.append_nil path]
    exact .of_get? present (.here ((Node.requires_object _ _ _ _).mpr demanded))
  have further : ∀ sample ∈ samples, ∀ first rest, Json.Within (.array (first :: rest)) sample →
      ∀ element ∈ rest, element = .object [] := by
    intro sample sampled first rest inside element listed
    simp only [samples, List.mem_cons, List.not_mem_nil, or_false] at sampled
    rcases sampled with rfl | rfl | rfl <;>
      simp [Json.within_object_iff, Json.within_array_iff, Json.within_bool_iff] at inside
    · simp [inside] at listed
    · simpa [inside] using listed
  have later : ∀ sample ∈ samples, Node.LaterUnionFree {} sample := by
    intro sample sampled first rest inside element listed depth tree own
    rw [further sample sampled first rest inside element listed] at own
    obtain ⟨properties, read, rfl⟩ := Node.infer_object own
    cases read
    exact .object _ _ _ (by simp)
  obtain ⟨either, every⟩ := stored_requires_reached {} { dataset := "events" } samples run ordered made
    path (by decide) "b" reaches
  refine ⟨run, ordered, made, none, kept, reaches, ?_, every (by simp [kept])⟩
  rcases either with ⟨-, conflict, member, -⟩ | ⟨sample, sampled, has, all⟩
  · rw [none] at member
    cases member
  · exact ⟨sample, sampled, has, all (later sample (same ▸ sampled))⟩

/-- A conflict makes a name required that every sample has in some element, though not in all. -/
theorem stored_requires_not_everywhere :
    let samples := [Json.object [("xs", .array [.object [("b", .bool true)]])],
      .object [("xs", .array [.object [("b", .bool true)], .object []])]]
    ¬ ∀ run, generate {} { dataset := "events" } samples = .ok run →
      ∀ path : Path, Step.items ∈ path → ∀ label properties required,
        run.stored.get? path = some (.object label properties required) → ∀ name ∈ required,
          ∀ sample ∈ run.samples, ∀ members, .object members ∈ sample.reached path →
            name ∈ Keyed.keys members := by
  intro samples every
  let path : Path := [.property "xs", .items]
  have finished : ∃ run, generate {} { dataset := "events" } samples = .ok run ∧
      run.samples = samples ∧ ∃ label properties required,
        run.stored.get? path = some (.object label properties required) ∧ "b" ∈ required :=
    ⟨_, rfl, rfl, _, _, _, rfl, by decide⟩
  obtain ⟨run, made, same, label, properties, required, present, demanded⟩ := finished
  have lost := every run made path (by decide) label properties required present "b" demanded
    (.object [("xs", .array [.object [("b", .bool true)], .object []])]) (by simp [same, samples]) []
    (by simp [path, Json.reached, Json.member?, Json.elements?, Keyed.lookup])
  cases lost

end Run

end EventSchema
