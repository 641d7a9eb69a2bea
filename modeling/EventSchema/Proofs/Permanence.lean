import EventSchema.Proofs.Demands
import EventSchema.Proofs.Documents
/-!
What a conflict writes onto a tree lasts. Conflicts come in the order of their paths, that on the
type before the others at its path, so none settles a type at or above the path of an earlier one,
and none asks again about a name that an earlier one has asked about.
-/
namespace EventSchema

namespace ValueType

theorem ofName?_eq_some_iff (text : String) (type : ValueType) :
    ofName? text = some type ↔ type.name = text := by
  constructor
  · intro found
    rw [ofName?] at found
    simpa using List.find?_some found
  · intro same
    rw [← same]
    exact ofName?_name type

theorem mem_familiesByName (types : List ValueType) (family : ValueType) :
    family ∈ familiesByName types ↔ ∃ type ∈ types, type.family = family := by
  rw [familiesByName]
  simp only [List.mem_filter, decide_eq_true_eq, List.mem_map, and_iff_right_iff_imp]
  intro shown
  rcases shown with ⟨type, -, rfl⟩
  cases type <;> decide

theorem familiesByName_increasing (types : List ValueType) :
    (familiesByName types).Pairwise fun first second => first.name < second.name := by
  rw [familiesByName]
  apply List.Pairwise.filter
  decide

end ValueType

theorem Arrival.mem_families (family : ValueType) :
    family ∈ families ↔
      ∃ entry ∈ table, ∃ type ∈ entry.valueTypes, type.family = family := by
  rw [families, ValueType.mem_familiesByName]
  simp only [List.mem_flatMap]
  constructor
  · rintro ⟨type, ⟨entry, listed, accepted⟩, same⟩
    exact ⟨entry, listed, type, accepted, same⟩
  · rintro ⟨entry, listed, type, accepted, same⟩
    exact ⟨type, ⟨entry, listed, accepted⟩, same⟩

namespace Conflict

open Node

/-- How a conflict stands to a later one: that one settles a type only further on, and does not ask
about the same name. -/
def Precedes (earlier later : Conflict) : Prop :=
  (later.settles? ≠ none → earlier.path < later.path) ∧
    ∀ first second, earlier.resolution = .optional first → later.resolution = .optional second →
      earlier.path ≠ later.path

theorem besidesType_pairwise (table : Occurrences) (occurrence : Occurrence) :
    (besidesType table occurrence).Pairwise Precedes := by
  have single : ∀ found : Option Conflict, found.toList.Pairwise Precedes := by
    intro found
    cases found <;> simp
  rw [besidesType]
  refine List.pairwise_append.mpr ⟨?_, single _, ?_⟩
  · split
    · exact single _
    · exact List.Pairwise.nil
  · intro earlier _ later formatted
    rcases mem_ofFormats (Option.mem_toList.mp formatted) with ⟨-, -, format, action, resolution⟩
    refine ⟨fun settled => absurd (by simp [settles?, resolution]) settled, ?_⟩
    intro _ second _ asked
    rw [resolution] at asked
    cases asked

theorem ofOccurrence_pairwise (table : Occurrences) (occurrence : Occurrence) :
    (ofOccurrence table occurrence).Pairwise Precedes := by
  rw [ofOccurrence_eq]
  refine List.pairwise_append.mpr ⟨?_, besidesType_pairwise table occurrence, ?_⟩
  · cases onType? occurrence <;> simp
  · intro earlier onType later beside
    refine ⟨fun settled => absurd (besidesType_cases beside).2.2 settled, ?_⟩
    intro first _ asked
    rcases (mem_onType (Option.mem_toList.mp onType)).2 with ⟨-, rfl⟩ | ⟨-, rfl⟩ <;> cases asked

theorem classify_pairwise (table : Occurrences)
    (ordered : table.entries.Pairwise fun first second => first.path < second.path) :
    (classify table).Pairwise Precedes := by
  rw [classify]
  refine List.pairwise_flatMap.mpr ⟨fun entry _ => ofOccurrence_pairwise table entry, ?_⟩
  apply ordered.imp
  intro first second less earlier former later latter
  have less' : earlier.path < later.path := by
    rw [path_of_mem_ofOccurrence former, path_of_mem_ofOccurrence latter]
    exact less
  refine ⟨fun _ => less', ?_⟩
  -- paths that are in order are not the same, whatever is asked there
  intro _ _ _ _ same
  exact irrefl_of (· < ·) later.path (same ▸ less')

structure OfKind (conflict : Conflict) : Prop where
  dataType : conflict.kind = .dataType → ∃ type, conflict.resolution = .dataType type
  nullField : conflict.kind = .nullField → conflict.resolution = .nullField
  optionalType : conflict.kind = .optionalType →
    ∃ isRequired, conflict.resolution = .optional isRequired
  settles : conflict.settles? ≠ none → conflict.kind = .dataType ∨ conflict.kind = .nullField

theorem classify_ofKind {table : Occurrences} {conflict : Conflict}
    (member : conflict ∈ classify table) : conflict.OfKind := by
  rcases (mem_classify table conflict).mp member with ⟨entry, -, own⟩
  rw [ofOccurrence_eq, List.mem_append] at own
  rcases own with onType | beside
  · rcases (mem_onType (Option.mem_toList.mp onType)).2 with ⟨-, rfl⟩ | ⟨-, rfl⟩ <;>
      exact ⟨by simp [ofNull, ofTypes], by simp [ofNull, ofTypes], by simp [ofNull, ofTypes],
        by simp [ofNull, ofTypes]⟩
  · have settled := (besidesType_cases beside).2.2
    rcases mem_besidesType.mp beside with ⟨-, required⟩ | formatted
    · rcases mem_ofRequired required with ⟨kind, -, resolution⟩
      exact ⟨by simp [kind], by simp [kind], fun _ => resolution, absurd settled⟩
    · rcases mem_ofFormats formatted with ⟨⟨format, kind⟩, -, -⟩
      exact ⟨by simp [kind], by simp [kind], by simp [kind], absurd settled⟩

theorem mem_candidateTypes (conflict : Conflict) (type : ValueType) :
    type ∈ conflict.candidateTypes ↔ type.name ∈ conflict.candidates := by
  rw [candidateTypes, List.mem_filterMap]
  constructor
  · rintro ⟨candidate, listed, named⟩
    rw [(ValueType.ofName?_eq_some_iff candidate type).mp named]
    exact listed
  · intro listed
    exact ⟨type.name, listed, ValueType.ofName?_name type⟩

/-- What a conflict between types leaves on the node at its path. Of several candidates of one
family the node keeps the family once. -/
structure TypeLeft (conflict : Conflict) (node : Node) : Prop where
  type : conflict.resolution = .dataType node.type
  families : ∀ family, family ∈ node.notes.oneOf ↔
    ∃ type : ValueType, type.name ∈ conflict.candidates ∧ type.family = family
  byName : node.notes.oneOf.Pairwise fun first second => first.name < second.name
  format : ∀ format, node.format? = some format →
    node.type = .string ∨ (node.type = .integer ∨ node.type = .number) ∧ format = .epoch

structure NullLeft (former node : Node) : Prop where
  type : node.type = .null
  /-- Unless a union held another one among its alternatives, the node is a scalar. -/
  plain : (∀ label branches, former = union label branches →
    ∀ branch ∈ branches, branch.plainType? ≠ none) → node.plainType? = some .null
  format : node.format? = none
  families : ∀ family, family ∈ node.notes.oneOf ↔
    ∃ entry ∈ Arrival.table, ∃ type ∈ entry.valueTypes, type.family = family
  byName : node.notes.oneOf.Pairwise fun first second => first.name < second.name
  arrivals : node.notes.arrivalOneOf = Arrival.table.map Arrival.Entry.arrival

/-- What stands in the end for a conflict that found the tree as `former` at its turn. -/
structure Left (conflict : Conflict) (former resolved : Node) : Prop where
  present : (resolved.get? conflict.path).isSome = (former.get? conflict.path).isSome
  onTypes : conflict.kind = .dataType →
    ∀ node, resolved.get? conflict.path = some node → conflict.TypeLeft node
  onNull : conflict.kind = .nullField → ∀ node, resolved.get? conflict.path = some node →
    ∃ old, former.get? conflict.path = some old ∧ NullLeft old node
  onName : conflict.kind = .optionalType → ∃ parent name isRequired,
    conflict.path = parent ++ [.property name] ∧ conflict.resolution = .optional isRequired ∧
      ∀ label properties required, resolved.get? parent = some (object label properties required) →
        (name ∈ required ↔ isRequired = true)

theorem formatFits_iff (type : ValueType) (format : Format) :
    formatFits type format = true ↔
      type = .string ∨ (type = .integer ∨ type = .number) ∧ format = .epoch := by
  cases type <;> simp [formatFits]

theorem retypeNode_left (perSample : List Node) (conflict : Conflict) (type : ValueType)
    (resolution : conflict.resolution = .dataType type) (node : Node) :
    TypeLeft conflict (retypeNode perSample conflict type node) := by
  have retyped : (retypeNode perSample conflict type node).type = type := by
    simp [retypeNode, withNotes, withFormat, type_retype]
  have notes : (retypeNode perSample conflict type node).notes.oneOf =
      ValueType.familiesByName conflict.candidateTypes := by
    simp [retypeNode, withNotes, Node.notes, label_relabel]
  refine ⟨by rw [resolution, retyped], ?_, ?_, ?_⟩
  · intro family
    rw [notes, ValueType.mem_familiesByName]
    exact exists_congr fun type => and_congr_left fun _ => mem_candidateTypes conflict type
  · rw [notes]
    exact ValueType.familiesByName_increasing conflict.candidateTypes
  · intro format present
    rw [retyped, ← formatFits_iff]
    simp only [retypeNode, withNotes, withFormat, format?, label_relabel] at present
    exact (Option.filter_eq_some_iff.mp present).2

theorem nullNode_left (node : Node) : NullLeft node (nullNode node) := by
  rcases nullNode_eq node with ⟨label, same⟩
  have notes : (nullNode node).notes.oneOf = Arrival.families := by
    simp [nullNode, withNotes, Node.notes, label_relabel]
  refine ⟨?_, ?_, ?_, ?_, ?_, ?_⟩
  · rw [same, type_relabel, type_retype]
  · intro flat
    rw [same, plainType?_relabel]
    rcases retype_cases .null none node with ⟨kept, -, plain⟩ |
      ⟨label, branches, branch, label', union, member, type, kept⟩ | ⟨_, _, lent, -⟩ | ⟨_, empty⟩
    · rw [kept]
      exact plain
    · rw [kept, plainType?_relabel]
      exact (plainType?_eq_some_iff branch .null).mpr ⟨flat label branches union branch member, type⟩
    · cases lent
    · rw [empty, plainType?_relabel, plainType?_ofType]
  · simp [nullNode, withNotes, withFormat, format?, label_relabel]
  · intro family
    rw [notes]
    exact Arrival.mem_families family
  · rw [notes]
    exact ValueType.familiesByName_increasing _
  · simp [nullNode, withNotes, Node.notes, label_relabel]

theorem TypeLeft.congr {conflict : Conflict} {node node' : Node} (left : conflict.TypeLeft node)
    (same : node.bare = node'.bare) : conflict.TypeLeft node' := by
  have label : node.label = node'.label := by rw [← label_bare, same, label_bare]
  have type : node.type = node'.type := by rw [← type_bare, same, type_bare]
  rcases left with ⟨resolution, families, byName, format⟩
  simp only [Node.notes, format?] at families byName format
  rw [label] at families byName
  rw [label, type] at format
  exact ⟨type ▸ resolution, families, byName, format⟩

theorem NullLeft.congr {former node node' : Node} (left : NullLeft former node)
    (same : node.bare = node'.bare) : NullLeft former node' := by
  have label : node.label = node'.label := by rw [← label_bare, same, label_bare]
  have type : node.type = node'.type := by rw [← type_bare, same, type_bare]
  have plainType : node.plainType? = node'.plainType? := by
    rw [← plainType?_bare, same, plainType?_bare]
  rcases left with ⟨null, plain, format, families, byName, arrivals⟩
  simp only [Node.notes, format?] at format families byName arrivals
  rw [label] at format families byName arrivals
  exact ⟨type ▸ null, plainType ▸ plain, format, families, byName, arrivals⟩

theorem resolveAll_split (perSample : List Node) (before after : List Conflict) (conflict : Conflict)
    (tree : Node) :
    resolveAll perSample (before ++ conflict :: after) tree =
      resolveAll perSample after (resolve perSample (resolveAll perSample before tree) conflict) := by
  simp [resolveAll]

section Split

variable {table : Occurrences} {before after : List Conflict} {conflict : Conflict}
  (ordered : table.entries.Pairwise fun first second => first.path < second.path)
  (split : classify table = before ++ conflict :: after) (perSample : List Node) (tree : Node)

include ordered split

theorem precedes_of_split : ∀ later ∈ after, conflict.Precedes later := by
  have pairs := classify_pairwise table ordered
  rw [split] at pairs
  exact (List.pairwise_cons.mp (List.pairwise_append.mp pairs).2.1).1

theorem later_apart : ∀ later ∈ after,
    later.settles? = none ∨ ¬ later.path <+: conflict.path := by
  intro later member
  by_cases settled : later.settles? = none
  · exact .inl settled
  · have less := (precedes_of_split ordered split later member).1 settled
    exact .inr (Path.not_prefix_of_lt later.path conflict.path less)

/-- From the turn of a conflict on its node stays the same, up to what lies below. -/
theorem bare_last :
    ((resolveAll perSample (classify table) tree).get? conflict.path).map bare =
      ((resolve perSample (resolveAll perSample before tree) conflict).get? conflict.path).map
        bare := by
  rw [split, resolveAll_split]
  exact map_get?_resolveAll bare bare_update_cons perSample after _ conflict.path
    (fun _ _ name _ => bare_requireProperty name) (later_apart ordered split)

theorem exists_last :
    ((resolveAll perSample (classify table) tree).get? conflict.path).isSome =
      ((resolveAll perSample before tree).get? conflict.path).isSome := by
  have own := isSome_get?_resolve perSample (resolveAll perSample before tree) conflict
    conflict.path (fun _ _ => rfl)
  have last := congrArg Option.isSome (bare_last ordered split perSample tree)
  rw [Option.isSome_map, Option.isSome_map] at last
  rw [last, own]

theorem settled_last (settled : conflict.settles? ≠ none) {node : Node}
    (present : (resolveAll perSample (classify table) tree).get? conflict.path = some node) :
    ∃ former, (resolveAll perSample before tree).get? conflict.path = some former ∧
      (settling perSample conflict former).bare = node.bare := by
  have last := bare_last ordered split perSample tree
  rcases exists_of_map_get? last present with ⟨changed, here, same⟩
  rw [resolve_of_settles perSample _ conflict settled] at here
  rcases get?_update_self _ here with ⟨former, there, rfl⟩
  exact ⟨former, there, same⟩

theorem asked_last {path : Path} {name : String} {isRequired : Bool}
    (resolution : conflict.resolution = .optional isRequired)
    (place : conflict.path = path ++ [.property name]) {label : Label}
    {properties : List (String × Node)} {required : List String}
    (present : (resolveAll perSample (classify table) tree).get? path =
      some (object label properties required)) :
    name ∈ required ↔ isRequired = true := by
  have others : ∀ later ∈ after, ∀ name', later.AsksAt path name' → ∀ isRequired' node,
      (requireProperty name' isRequired' node).demand name = node.demand name := by
    intro later member name' asks isRequired' node
    rcases asks with ⟨⟨second, asked⟩, there⟩
    apply demand_requireProperty
    intro same
    subst same
    have different := (precedes_of_split ordered split later member).2 isRequired second resolution
      asked
    exact different (place.trans there.symm)
  have apart : ∀ later ∈ after, later.settles? = none ∨ ¬ later.path <+: path := by
    intro later member
    refine (later_apart ordered split later member).imp_right ?_
    intro outside above
    rw [place] at outside
    exact outside (above.trans (List.prefix_append _ _))
  have last := map_get?_resolveAll (demand name) (demand_update_cons name) perSample after
    (resolve perSample (resolveAll perSample before tree) conflict) path others apart
  rw [split, resolveAll_split] at present
  rcases exists_of_map_get? last present with ⟨changed, here, same⟩
  have requires := (Prod.mk.inj same).1
  have asked := requires?_of_asked perSample _ conflict path name isRequired resolution place changed
    here
  rw [requires] at asked
  have decided : decide (name ∈ required) = isRequired := by
    simpa [requires?, required?] using asked
  rw [← decided, decide_eq_true_iff]

end Split

section Sampled

variable (sampled : List Node) {conflict : Conflict}

theorem path_of_mem_classify
    (member : conflict ∈ classify (Occurrences.tabulate (sampled.map Node.fields))) :
    ∃ parent name, conflict.path = parent ++ [.property name] := by
  rcases (mem_classify _ conflict).mp member with ⟨entry, listed, own⟩
  rcases ((Occurrences.mem_entries _ entry).mp listed).1 with ⟨fields, inside, recorded⟩
  rcases List.mem_map.mp inside with ⟨root, -, rfl⟩
  rcases List.mem_map.mp recorded with ⟨field, among, place⟩
  have last := Node.property_of_mem_fields root field among
  rw [place, ← path_of_mem_ofOccurrence own] at last
  cases above : Path.parent? conflict.path with
  | none =>
      have empty : conflict.path = [] := List.isEmpty_iff.mp (by simpa [Path.parent?] using above)
      rw [empty] at last
      cases last
  | some parent => exact ⟨parent, field.property, Path.eq_append_of_last above last⟩

theorem left_of_split {before after : List Conflict}
    (split : classify (Occurrences.tabulate (sampled.map Node.fields)) = before ++ conflict :: after)
    (perSample : List Node) (tree : Node) :
    conflict.Left (resolveAll perSample before tree)
      (resolveAll perSample (classify (Occurrences.tabulate (sampled.map Node.fields))) tree) := by
  have ordered := Occurrences.entries_pairwise (sampled.map Node.fields)
  have member : conflict ∈ classify (Occurrences.tabulate (sampled.map Node.fields)) := by
    simp [split]
  have ofKind := classify_ofKind member
  refine ⟨exists_last ordered split perSample tree, ?_, ?_, ?_⟩
  · intro kind node present
    rcases ofKind.dataType kind with ⟨type, resolution⟩
    rcases settled_last ordered split perSample tree (by simp [settles?, resolution]) present with
      ⟨former, -, same⟩
    have left := retypeNode_left perSample conflict type resolution former
    simp only [settling, resolution] at same
    exact left.congr same
  · intro kind node present
    have resolution := ofKind.nullField kind
    rcases settled_last ordered split perSample tree (by simp [settles?, resolution]) present with
      ⟨former, there, same⟩
    simp only [settling, resolution] at same
    exact ⟨former, there, (nullNode_left former).congr same⟩
  · intro kind
    rcases path_of_mem_classify sampled member with ⟨parent, name, place⟩
    rcases ofKind.optionalType kind with ⟨isRequired, resolution⟩
    exact ⟨parent, name, isRequired, place, resolution, fun _ _ _ present =>
      asked_last ordered split perSample tree resolution place present⟩

theorem bare_of_apart (table : Occurrences) (perSample : List Node) (tree : Node) (path : Path)
    (apart : ∀ conflict ∈ classify table, conflict.path <+: path →
      conflict.kind ≠ .dataType ∧ conflict.kind ≠ .nullField) :
    ((resolveAll perSample (classify table) tree).get? path).map bare =
      (tree.get? path).map bare := by
  refine map_get?_resolveAll bare bare_update_cons perSample (classify table) tree path
    (fun _ _ name _ => bare_requireProperty name) ?_
  intro conflict member
  rw [or_iff_not_imp_left]
  intro settled above
  rcases (classify_ofKind member).settles settled with types | null
  · exact (apart conflict member above).1 types
  · exact (apart conflict member above).2 null

/-- No resolution undoes another one: what each leaves is there in the end. Where no conflict is on
the type of a node or of one above it, the node stays. -/
theorem resolutions_last (tree : Node) (perSample : List Node) :
    let conflicts := classify (Occurrences.tabulate (sampled.map Node.fields))
    let resolved := resolveAll perSample conflicts tree
    (∀ before conflict after, conflicts = before ++ conflict :: after →
      conflict.Left (resolveAll perSample before tree) resolved) ∧
    ∀ path, (∀ conflict ∈ conflicts, conflict.path <+: path →
        conflict.kind ≠ .dataType ∧ conflict.kind ≠ .nullField) →
      (resolved.get? path).map bare = (tree.get? path).map bare := by
  intro conflicts resolved
  constructor
  · intro before conflict after split
    exact left_of_split sampled split perSample tree
  · intro path apart
    exact bare_of_apart _ perSample tree path apart

/-- A name with a text and two numbers, one that a single sample has, and one that is always null. -/
theorem resolutions_last_mixed :
    let leaf : ScalarType → Node := scalar {}
    let both := fun type => object {} [("a", leaf type), ("n", leaf .null)] ["a", "n"]
    let all := object {} [("a", leaf .number), ("b", leaf .boolean), ("n", leaf .null)]
      ["a", "b", "n"]
    let sampled := [both .string, both .integer, all]
    let types : Conflict := ⟨.dataType, "a", [.property "a"],
      [("integer", 1), ("number", 1), ("string", 1)], ["string", "number", "integer"], .mustFix,
      .dataType .string⟩
    let absent : Conflict := ⟨.optionalType, "b", [.property "b"], [("absent", 2), ("present", 1)],
      ["true", "false"], .medium, .optional false⟩
    let null : Conflict := ⟨.nullField, "n", [.property "n"], [("null", 3)], [], .mustFix, .nullField⟩
    let text := scalar { notes := { oneOf := [.number, .string] } } .string
    let unknown := scalar { notes := {
      oneOf := [.array, .boolean, .number, .object, .string]
      arrivalOneOf := [.text, .number, .boolean, .object, .array] } } .null
    let conflicts := classify (Occurrences.tabulate (sampled.map Node.fields))
    let resolved := resolveAll sampled conflicts all
    conflicts = [types, absent, null] ∧
      resolved = object {} [("a", text), ("b", leaf .boolean), ("n", unknown)] ["a", "n"] ∧
      types.TypeLeft text ∧ NullLeft (leaf .null) unknown ∧
      (resolved.get? [.property "b"]).map bare = some (leaf .boolean).bare := by
  intro leaf both all sampled types absent null text unknown conflicts resolved
  have listed : conflicts = [types, absent, null] := by decide
  have whole : resolved = object {} [("a", text), ("b", leaf .boolean), ("n", unknown)] ["a", "n"] := by
    calc
      resolved = resolveAll sampled [types, absent, null] all := by rw [← listed]
      _ = object {} [("a", text), ("b", leaf .boolean), ("n", unknown)] ["a", "n"] := by cbv
  obtain ⟨last, kept⟩ := resolutions_last sampled all sampled
  have settled : resolved.get? [.property "a"] = some text := by
    rw [whole]
    rfl
  have replaced : resolved.get? [.property "n"] = some unknown := by
    rw [whole]
    rfl
  have former : (resolveAll sampled [types, absent] all).get? [.property "n"] = some (leaf .null) := by
    rfl
  have onTypes := (last [] types [absent, null] listed).onTypes rfl text settled
  have onNull : NullLeft (leaf .null) unknown := by
    obtain ⟨old, found, left⟩ :=
      (last [types, absent] null [] listed).onNull rfl unknown replaced
    obtain rfl := Option.some.inj (former.symm.trans found)
    exact left
  have beside : (resolved.get? [.property "b"]).map bare = (all.get? [.property "b"]).map bare := by
    apply kept
    decide
  exact ⟨listed, whole, onTypes, onNull, beside⟩

end Sampled

end Conflict

end EventSchema
