import EventSchema.Proofs.Documents
import EventSchema.Proofs.FinalType
import EventSchema.Proofs.NamedPaths
import EventSchema.Proofs.StoredTypes
/-!
Where a finished schema stores dates, times or epochs, some sample has a value that looks like one.
A format outlives values without it that are merged in later, and a node that changes its type keeps
its format where that fits the new type, so that an epoch read from text can end up on a number.
-/
namespace EventSchema

namespace Node

variable {settings : Settings}

def Formats (settings : Settings) (value : Json) (format : Format) : Prop :=
  ∃ depth node, infer settings depth value = .ok node ∧ node.format? = some format

theorem Formats.string {value : Json} {format : Format} (given : Formats settings value format)
    (other : format ≠ .epoch) : ValueType.ofValue value = .string := by
  obtain ⟨depth, node, inferred, own⟩ := given
  cases value with
  | object members =>
      obtain ⟨properties, -, rfl⟩ := infer_object inferred
      cases own
  | array elements =>
      obtain ⟨items, -, rfl⟩ := infer_array inferred
      cases items <;> cases own
  | number number =>
      cases bounded_eq_ok inferred
      have epoch :
          (if Format.isEpochNumber number then some Format.epoch else none) = some format := by
        cases number <;> exact own
      split at epoch
      · exact absurd (Option.some.inj epoch).symm other
      · cases epoch
  | null | bool _ =>
      cases bounded_eq_ok inferred
      cases own
  | string text => rfl

theorem format?_update_cons (change : Node → Node) (step : Step) (path : Path) (node : Node) :
    (node.update change (step :: path)).format? = node.format? :=
  congrArg Label.format (label_update_cons change step path node)

theorem format?_withNotes (notes : Notes) (node : Node) :
    (node.withNotes notes).format? = node.format? := by
  rw [withNotes, format?, label_relabel]
  rfl

theorem format?_forgetItems {node : Node} {format : Format}
    (given : node.forgetItems.format? = some format) : node.format? = some format := by
  cases node with
  | emptyArray _ | arrayOf _ _ | mixedArray _ => cases given
  | scalar _ _ | object _ _ _ | union _ _ => exact given

/-- A merged node has its format from the later tree or, if that has none, from the earlier one. -/
theorem format?_mergeInto {older newer : Node} {format : Format}
    (given : (mergeInto older newer).format? = some format) :
    newer.format? = some format ∨ older.format? = some format := by
  have joined : ∀ {first second : Option Format}, second.or first = some format →
      second = some format ∨ first = some format := by
    intro first second either
    cases second with
    | none => exact .inr either
    | some _ => exact .inl either
  cases newer with
  | scalar label type => cases older <;> exact joined given
  | object _ _ _ => cases older <;> cases given
  | emptyArray _ => cases older <;> cases given
  | arrayOf _ _ => cases older <;> cases given
  | mixedArray _ => cases given
  | union label branches =>
      have own : ∃ type, (mergeInto older (union label branches)).format? =
          mergedFormat type older.format? label.format := by
        cases older <;> exact ⟨_, rfl⟩
      obtain ⟨type, same⟩ := own
      rw [same, mergedFormat] at given
      split at given
      · cases given
      · exact joined given

theorem format?_retype {target : ValueType} {template : Option Node} {node : Node} {format : Format}
    (plain : node.plainType? ≠ none)
    (given : (node.retype target template).format? = some format) : node.format? = some format := by
  have own : node.plainType? = some node.type := by
    cases node with
    | union _ _ => exact absurd rfl plain
    | _ => rfl
  rw [retype_of_plain target template node own] at given
  split at given
  · exact given
  · rw [format?, label_relabel] at given
    split at given
    · cases given
    · exact given

end Node

namespace Conflict

open Node

theorem format?_settling {perSample : List Node} {conflict : Conflict} {node : Node}
    {format : Format} (plain : node.plainType? ≠ none)
    (given : (settling perSample conflict node).format? = some format) :
    node.format? = some format := by
  rw [settling] at given
  split at given
  · rw [retypeNode, format?_withNotes, withFormat, format?, label_relabel] at given
    exact format?_retype plain (Option.filter_eq_some_iff.mp given).1
  · rw [nullNode, format?_withNotes, withFormat, format?, label_relabel] at given
    cases given
  · exact given
  · exact given

theorem resolution_of_settles {conflict : Conflict} {type : ValueType}
    (settled : conflict.settles? = some type) (notNull : type ≠ .null) :
    conflict.resolution = .dataType type := by
  rw [settles?] at settled
  cases resolution : conflict.resolution with
  | dataType own =>
      rw [resolution] at settled
      rw [Option.some.inj settled]
  | nullField =>
      rw [resolution] at settled
      exact absurd (Option.some.inj settled).symm notNull
  | optional _ | format _ _ => simp [resolution] at settled

theorem format?_requireProperty (name : String) (isRequired : Bool) (node : Node) :
    (requireProperty name isRequired node).format? = node.format? := by
  cases node <;> rfl

end Conflict

theorem storage?_format {type : ValueType} {given : Option Format} {arrival : Arrival}
    {format : Format} (single : type = .string ∨ type = .integer ∨ type = .number)
    (stored : storage? type given = some (arrival, format.name)) :
    given = some format ∧ (type = .string ∨ format = .epoch) := by
  have foreign : ∀ name ∈ ["string", "integer", "number"], name ≠ format.name := by
    cases format <;> decide
  have numeric : ∀ name ∈ ["string", "integer", "number"],
      (if given = some .epoch then "epoch" else name) = format.name →
        given = some format ∧ format = .epoch := by
    intro name listed same
    split at same
    · obtain rfl : Format.epoch = format := Format.name_injective same
      exact ⟨by assumption, rfl⟩
    · exact absurd same (foreign name listed)
  rcases single with rfl | rfl | rfl
  · refine ⟨?_, .inl rfl⟩
    cases given with
    | none => exact absurd (congrArg Prod.snd (Option.some.inj stored)) (foreign "string" (by simp))
    | some given =>
        have same : given.name = format.name ∨ "string" = format.name := by
          cases given <;> first
            | exact .inl (congrArg Prod.snd (Option.some.inj stored))
            | exact .inr (congrArg Prod.snd (Option.some.inj stored))
        rcases same with known | other
        · rw [Format.name_injective known]
        · exact absurd other (foreign "string" (by simp))
  · obtain ⟨known, epoch⟩ :=
      numeric "integer" (by simp) (congrArg Prod.snd (Option.some.inj stored))
    exact ⟨known, .inr epoch⟩
  · obtain ⟨known, epoch⟩ :=
      numeric "number" (by simp) (congrArg Prod.snd (Option.some.inj stored))
    exact ⟨known, .inr epoch⟩

namespace Run

open Conflict

/-- Inference gives the format to what some sample has under the names. -/
def Witnessed (settings : Settings) (samples : List Json) (names : List String) (format : Format) :
    Prop :=
  ∃ sample ∈ samples, ∃ value, Source.follow names sample = some value ∧
    Node.Formats settings value format

def Backed (settings : Settings) (samples : List Json) (names : List String) (tree : Node) : Prop :=
  ∀ node, tree.get? (names.map .property) = some node → ∀ format, node.format? = some format →
    Witnessed settings samples names format

section Formats

variable {settings : Settings} {run : Run} (regular : run.Regular)
  (read : Node.ofSamples settings run.samples = .ok run.inferred) (names : List String)

theorem Backed.degradeAll {samples : List Json} {tree : Node}
    (backed : Backed settings samples names tree) (places : List Path) :
    Backed settings samples names (tree.degradeAll places) := by
  intro node present format given
  have kept := Node.map_get?_degradeAll Node.format? Node.format?_update_cons places _ tree
    (Node.uncut_names places names)
  rw [present] at kept
  obtain ⟨own, here, same⟩ := Option.map_eq_some_iff.mp kept.symm
  refine backed own here format ?_
  rw [given] at same
  split at same
  · exact Node.format?_forgetItems same
  · exact same

include read

theorem backed_inferred {tree : Node} (inferred : tree ∈ run.inferred) :
    Backed settings run.samples names tree := by
  intro node present format given
  obtain ⟨sample, sampled, -, known⟩ := Node.sample_of_ofSamples read inferred
  rcases Node.get?_infer names known with ⟨-, absent⟩ | ⟨depth, value, own, followed, here, part⟩
  · rw [absent] at present
    cases present
  · obtain rfl := Option.some.inj (here.symm.trans present)
    exact ⟨sample, sampled, value, followed, depth, own, part, given⟩

include regular

theorem backed_merged : Backed settings run.samples names run.merged := by
  intro node present
  refine Node.get?_mergeAll_induction
    (fun node => ∀ format, node.format? = some format → Witnessed settings run.samples names format)
    ?_ regular.wellFormed (fun tree inferred => backed_inferred read names inferred) regular.joined
    present
  intro older newer former latter format given
  rcases Node.format?_mergeInto given with later | earlier
  · exact latter format later
  · exact former format earlier

theorem backed_resolved : Backed settings run.samples names run.resolved := by
  -- that nodes are drawn from samples is kept along, for it says what lies under a settled node
  have both : AllDrawn run.comparison.perSample run.conflicts run.resolved ∧
      Backed settings run.samples names run.resolved := by
    rw [regular.resolved]
    apply resolveAll_induction (fun tree => AllDrawn run.comparison.perSample run.conflicts tree ∧
      Backed settings run.samples names tree)
    · refine ⟨?_, ?_⟩
      · rw [regular.compared]
        exact allDrawn_compare regular.wellFormed regular.joined
      · rw [regular.compared, Comparison.compare_eq]
        exact (backed_merged regular read names).degradeAll names _
    · rintro conflict member tree ⟨drawn, backed⟩
      refine ⟨resolve_allDrawn member drawn, ?_⟩
      refine resolve_kept Node.format? Node.format?_update_cons (fun format? => ∀ format,
        format? = some format → Witnessed settings run.samples names format) drawn
        (not_unionAt_names regular names) ?_ ?_ ?_ backed
      · intro sample sampled
        obtain ⟨former, inferred, rfl⟩ := (mem_perSample regular sample).mp sampled
        exact (backed_inferred read names inferred).degradeAll names _
      · exact fun name _ isRequired node => format?_requireProperty name isRequired node
      · intro _ _ node here plain format given
        exact backed node here format (format?_settling plain given)
  exact both.2

end Formats

section Types

variable {run : Run} (regular : run.Regular) {names : List String}

include regular

theorem ofValue_of_plain {type : ValueType}
    (each : ∀ tree ∈ run.comparison.perSample, ∀ node,
      tree.get? (names.map .property) = some node → node.plainType? = some type)
    {sample value : Json} (sampled : sample ∈ run.samples)
    (followed : Source.follow names sample = some value) : ValueType.ofValue value = type := by
  obtain ⟨settings, read⟩ := regular.read
  obtain ⟨tree, inferred, known⟩ := Node.tree_of_ofSamples read sampled
  rcases Node.get?_infer names known with ⟨absent, -⟩ | ⟨depth, part, node, followed', here, own⟩
  · rw [absent] at followed
    cases followed
  · obtain rfl := Option.some.inj (followed'.symm.trans followed)
    obtain ⟨tree', listed, node', here', same⟩ :=
      perSample_of_inferred regular inferred (Node.uncut_names _ names) here
    have plain := same.symm.trans (each tree' listed node' here')
    rw [← Node.type_infer own]
    exact ((node.plainType?_eq_some_iff type).mp plain).2

theorem plain_root (tree : Node) (member : tree ∈ run.comparison.perSample) :
    tree.plainType? = some .object := by
  obtain ⟨settings, read⟩ := regular.read
  obtain ⟨former, inferred, node, here, same⟩ :=
    inferred_of_perSample regular member (Node.get?_nil tree)
  obtain rfl := Option.some.inj here
  obtain ⟨label, properties, required, rfl⟩ :=
    Node.isObject_of_ofSamples settings run.samples run.inferred read former inferred
  exact same.symm

theorem resolved_root : run.resolved.plainType? = some .object := by
  have clear : Clear run.comparison.perSample run.conflicts [] := by
    intro conflict _ _ above different
    exact absurd (List.prefix_nil.mp above) different
  rcases allDrawn_resolved regular [] run.resolved clear rfl with ⟨tree, member, found, here, same⟩ |
    ⟨⟨conflict, member, place, -⟩, -⟩
  · obtain rfl := Option.some.inj here
    exact same.symm.trans (plain_root regular tree member)
  · obtain ⟨entry, listed, place', -⟩ := mem_conflicts regular member
    have tabular := ((mem_table_iff regular entry.path).mp (List.mem_map_of_mem listed)).1
    rw [place', place] at tabular
    exact absurd tabular Path.Tabular.not_nil

/-- The type under the names is that of all values that samples have there, unless a conflict has
settled it. -/
theorem type_of_names (named : names ≠ []) {node : Node}
    (present : run.resolved.get? (names.map .property) = some node) :
    (∀ sample ∈ run.samples, ∀ value, Source.follow names sample = some value →
        ValueType.ofValue value = node.type) ∨
      ∃ conflict ∈ run.conflicts, conflict.path = names.map .property ∧
        conflict.settles? = some node.type := by
  have tabular : Path.Tabular (names.map .property) := by
    obtain ⟨outer, name, rfl⟩ := (List.eq_nil_or_concat names).resolve_left named
    simpa using Path.Tabular.of_names outer name
  have clear : Clear run.comparison.perSample run.conflicts (names.map .property) := by
    intro conflict _ _ above _
    exact not_unionAt_names regular names conflict.path above
  have drawn := allDrawn_resolved regular _ node clear present
  obtain ⟨entry, listed, place⟩ := List.mem_map.mp (recorded_of_drawn regular tabular drawn)
  rw [← place] at present drawn ⊢
  cases found : onType? entry with
  | some conflict =>
      obtain ⟨type, settled, -⟩ := decidesFor_of_onType (increasing_types regular listed) found
      refine .inr ⟨conflict, onType_mem_conflicts regular listed found, (mem_onType found).1, ?_⟩
      rw [settled, type_of_onType regular listed found settled present]
  | none =>
      refine .inl fun sample sampled value followed => ?_
      have decided := type_of_agreement regular listed found drawn
      refine ofValue_of_plain regular (fun tree member own here => ?_) sampled followed
      rw [← place] at here
      obtain ⟨type, plain, notNull, keys, -⟩ :=
        plain_of_agreement regular listed found tree member own here
      have different : [type] ≠ [.null] := by simpa using notNull
      rw [Occurrence.DecidesFor, keys, if_neg different] at decided
      obtain ⟨-, most, counted, -⟩ := decided
      have inside : node.type ∈ Keyed.keys entry.types := List.mem_map_of_mem counted
      rw [keys, List.mem_singleton] at inside
      rw [plain, inside]

theorem resolved_of_stored (named : names ≠ []) {node : Node} {dataType : String}
    (present : run.stored.get? (names.map .property) = some node) (notNull : node.type ≠ .null)
    (noted : node.notes.dataType = some dataType) :
    ∃ resolved, run.resolved.get? (names.map .property) = some resolved ∧
      resolved.type = node.type ∧
        ∃ arrival, storage? node.type resolved.format? = some (arrival, dataType) := by
  obtain ⟨name, rest, rfl⟩ := List.exists_cons_of_ne_nil named
  have formats := map_get?_annotateAll Node.format? Node.format?_update_cons
    (fun notes node => Node.format?_withNotes notes node) run.conflicts run.resolved
    ((name :: rest).map .property)
  have types := map_get?_stored regular Node.type Node.type_update_cons Node.type_relabel
    Node.type_store ((name :: rest).map .property)
  obtain ⟨resolved, here, same⟩ := Node.exists_of_map_get? types present
  refine ⟨resolved, here, same, ?_⟩
  rw [regular.stored, Node.mapTypes, List.map_cons, Node.get?_relabel_cons, Node.get?_store] at present
  obtain ⟨annotated, there, rfl⟩ := Option.map_eq_some_iff.mp present
  obtain ⟨resolved', here', format⟩ := Node.exists_of_map_get? formats there
  obtain rfl := Option.some.inj (here.symm.trans here')
  rw [Node.type_store] at notNull ⊢
  obtain ⟨arrival, text, given⟩ := exists_storage annotated.format? notNull
  rw [Node.notes, Node.label_store, Node.storedLabel] at noted
  have label : annotated.label.format = annotated.format? := rfl
  rw [label, given] at noted
  exact ⟨arrival, by rw [format, given, Option.some.inj noted]⟩

end Types

theorem read_of_generate {settings : Settings} {source : Source} {samples : List Json} {run : Run}
    (finished : generate settings source samples = .ok run) :
    Node.ofSamples settings run.samples = .ok run.inferred := by
  obtain ⟨prepared, -, made⟩ := (generate_eq_ok_iff settings source samples run).mp finished
  obtain ⟨trees, merged, inferred, -, rfl⟩ := (ofSamples_eq_ok_iff settings prepared run).mp made
  exact inferred

/-- Where a string or number is stored as a date, a time or an epoch, inference gave that format to
what some sample has there. That value is of the node's family, or else the format is epoch, which
strings and numbers both can have, and the samples disagreed on the type. -/
theorem stored_format_witnessed (settings : Settings) (source : Source) (samples : List Json)
    (run : Run) (ordered : ∀ sample ∈ samples, sample.Ordered)
    (finished : generate settings source samples = .ok run) (names : List String) (node : Node)
    (present : run.stored.get? (names.map .property) = some node)
    (single : node.type = .string ∨ node.type = .integer ∨ node.type = .number) (format : Format)
    (stored : node.notes.dataType = some format.name) :
    ∃ sample ∈ run.samples, ∃ value, Source.follow names sample = some value ∧
      Node.Formats settings value format ∧
        ((ValueType.ofValue value).family = node.family ∨
          format = .epoch ∧ ∃ conflict ∈ run.conflicts, conflict.path = names.map .property ∧
            conflict.resolution = .dataType node.type) := by
  have regular := regular_of_generate ordered finished
  have read := read_of_generate finished
  have notNull : node.type ≠ .null := by
    intro null
    simp [null] at single
  have named : names ≠ [] := by
    rintro rfl
    have types := map_get?_stored regular Node.type Node.type_update_cons Node.type_relabel
      Node.type_store []
    obtain ⟨resolved, here, same⟩ := Node.exists_of_map_get? types present
    obtain rfl := Option.some.inj here
    have object := ((run.resolved.plainType?_eq_some_iff _).mp (resolved_root regular)).2
    rw [← same, object] at single
    simp at single
  obtain ⟨resolved, here, type, arrival, noted⟩ :=
    resolved_of_stored regular named present notNull stored
  obtain ⟨given, fits⟩ := storage?_format single noted
  obtain ⟨sample, sampled, value, followed, formats⟩ :=
    backed_resolved regular read names resolved here format given
  refine ⟨sample, sampled, value, followed, formats, ?_⟩
  rcases type_of_names regular named here with agreed | ⟨conflict, member, place, settled⟩
  · left
    rw [agreed sample sampled value followed, type]
    rfl
  · -- the type was settled after the format had come in, and only an epoch fits another type
    by_cases epoch : format = .epoch
    · rw [type] at settled
      exact .inr ⟨epoch, conflict, member, place, resolution_of_settles settled notNull⟩
    · left
      have string := fits.resolve_right epoch
      rw [formats.string epoch, Node.family, string]

/-- A date read from text stays when a number and another text come later. -/
theorem stored_format_witnessed_date :
    let samples := [Json.object [("t", .string "2024-01-02")], .object [("t", .number (.whole 5))],
      .object [("t", .string "soon")]]
    ∃ run node, (∀ sample ∈ samples, sample.Ordered) ∧
      generate {} { dataset := "events" } samples = .ok run ∧
        run.stored.get? [.property "t"] = some node ∧ node.type = .string ∧
          node.notes.dataType = some (Format.name .date) ∧
            ∃ sample ∈ run.samples, ∃ value, Source.follow ["t"] sample = some value ∧
              Node.Formats {} value .date ∧ (ValueType.ofValue value).family = node.family := by
  intro samples
  have ordered : ∀ sample ∈ samples, sample.Ordered := Json.ordered_of_sorted samples (by rfl)
  have finished : ∃ run node, generate {} { dataset := "events" } samples = .ok run ∧
      run.stored.get? [.property "t"] = some node ∧ node.type = .string ∧
        node.notes.dataType = some (Format.name .date) :=
    ⟨_, _, rfl, by rfl, by rfl, by rfl⟩
  obtain ⟨run, node, made, present, string, stored⟩ := finished
  obtain ⟨sample, sampled, value, followed, formats, known⟩ :=
    stored_format_witnessed {} { dataset := "events" } samples run ordered made ["t"] node present
      (.inl string) .date stored
  have family := known.resolve_right fun impossible => by cases impossible.1
  exact ⟨run, node, ordered, made, present, string, stored, sample, sampled, value, followed, formats,
    family⟩

/-- The epoch that a text looks like ends up on an integer, and no integer looks like one. -/
theorem stored_epoch_of_text :
    let samples := [Json.object [("a", .string "1700000000")], .object [("a", .number (.whole 5))],
      .object [("a", .number (.whole 6))]]
    ∃ run node, (∀ sample ∈ samples, sample.Ordered) ∧
      generate {} { dataset := "events" } samples = .ok run ∧
        run.stored.get? [.property "a"] = some node ∧ node.type = .integer ∧
          node.notes.dataType = some (Format.name .epoch) ∧
            ∀ sample ∈ run.samples, ∀ value, Source.follow ["a"] sample = some value →
              Node.Formats {} value .epoch → (ValueType.ofValue value).family ≠ node.family := by
  intro samples
  have ordered : ∀ sample ∈ samples, sample.Ordered := Json.ordered_of_sorted samples (by rfl)
  have finished : ∃ run node, generate {} { dataset := "events" } samples = .ok run ∧
      run.samples = samples ∧ run.stored.get? [.property "a"] = some node ∧ node.type = .integer ∧
        node.notes.dataType = some (Format.name .epoch) :=
    ⟨_, _, rfl, rfl, by rfl, by rfl, by rfl⟩
  obtain ⟨run, node, made, same, present, integer, stored⟩ := finished
  have plain : ∀ number, Format.isEpochNumber number = false →
      ¬ Node.Formats {} (.number number) .epoch := by
    rintro number isNot ⟨depth, node, inferred, given⟩
    cases Node.bounded_eq_ok inferred
    cases number <;> simp [Node.ofNumber, Node.format?, Node.label, isNot] at given
  refine ⟨run, node, ordered, made, present, integer, stored, ?_⟩
  rw [same]
  intro sample sampled value followed formats
  have number : node.family = .number := by rw [Node.family, integer]; rfl
  rw [number]
  simp only [samples, List.mem_cons, List.not_mem_nil, or_false] at sampled
  rcases sampled with rfl | rfl | rfl
  · cases followed
    decide
  · cases followed
    exact absurd formats (plain _ (by decide))
  · cases followed
    exact absurd formats (plain _ (by decide))

end Run

end EventSchema
