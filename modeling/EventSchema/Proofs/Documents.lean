import EventSchema.Proofs.Navigation
import EventSchema.Schema.Document
import EventSchema.Schema.DocumentReader
/-!
Writing a tree as a document and reading it again always succeeds. It leaves what the document holds
of the tree: candidate types and suggestions are gone, formats of nodes that are no scalars, required
names without a property, and notes on further properties of arrays.
-/
namespace EventSchema

theorem ValueType.ofName?_name (type : ValueType) : ofName? type.name = some type := by
  cases type <;> decide

theorem Format.ofName?_name (format : Format) : ofName? format.name = some format := by
  cases format <;> decide

theorem Format.name_injective {format format' : Format} (same : format.name = format'.name) :
    format = format' := by
  have found := congrArg Format.ofName? same
  rw [Format.ofName?_name, Format.ofName?_name] at found
  exact Option.some.inj found

theorem Arrival.ofName?_name (arrival : Arrival) : ofName? arrival.name = some arrival := by
  cases arrival <;> decide

namespace Node

section Reading

theorem readItems_eq (path : Path) (members : List (String × Json)) :
    readItems path members = (Keyed.lookup "items" members).map (readNode path.items) := by
  induction members with
  | nil => simp [readItems, Keyed.lookup]
  | cons member rest ih =>
      rcases member with ⟨key, value⟩
      by_cases same : key = "items"
      · simp [readItems, Keyed.lookup, same]
      · rw [readItems, if_neg same, ih, Keyed.lookup, if_neg (Ne.symm same)]

theorem readProperties_eq (path : Path) (members : List (String × Json)) :
    readProperties path members = (Keyed.lookup "properties" members).map fun value =>
      match value.members? with
      | some children => readChildren path children
      | none => .error (.propertiesNotObject path) := by
  induction members with
  | nil => simp [readProperties, Keyed.lookup]
  | cons member rest ih =>
      rcases member with ⟨key, value⟩
      by_cases same : key = "properties"
      · cases value <;> simp [readProperties, Keyed.lookup, same, Json.members?]
      · unfold readProperties
        rw [if_neg same, ih, Keyed.lookup, if_neg (Ne.symm same)]

theorem readAlternatives_eq (path : Path) (keyword : String) (members : List (String × Json)) :
    readAlternatives path keyword members =
      (Keyed.lookup keyword members).map fun value => value.elements?.map (readBranches path) := by
  induction members with
  | nil => simp [readAlternatives, Keyed.lookup]
  | cons member rest ih =>
      rcases member with ⟨key, value⟩
      by_cases same : key = keyword
      · cases value <;> simp [readAlternatives, Keyed.lookup, same, Json.elements?]
      · unfold readAlternatives
        rw [if_neg same, ih, Keyed.lookup, if_neg (Ne.symm same)]

def partsAt (path : Path) (members : List (String × Json)) : Parts where
  properties := readProperties path members
  items := readItems path members
  anyOf := readAlternatives path "anyOf" members
  oneOf := readAlternatives path "oneOf" members

theorem readNode_object (path : Path) (members : List (String × Json)) :
    readNode path (.object members) = assemble path members (partsAt path members) := by
  rw [readNode]
  rfl

/-- Reading depends on what is found under keywords, and never looks for the dialect. -/
theorem readNode_congr (path : Path) (members members' : List (String × Json))
    (same : ∀ key ≠ "$schema", Keyed.lookup key members = Keyed.lookup key members') :
    readNode path (.object members) = readNode path (.object members') := by
  have parts : partsAt path members = partsAt path members' := by
    simp [partsAt, readProperties_eq, readItems_eq, readAlternatives_eq, same]
  have required : readRequired members = readRequired members' := by
    simp [readRequired, same]
  have format : readFormat members = readFormat members' := by
    simp [readFormat, same]
  have typed : assembleTyped members = assembleTyped members' := by
    funext parts type
    cases type <;> simp only [assembleTyped, required, format, same, ne_eq,
      not_false_eq_true, String.reduceEq]
  have named : assembleNamed path members = assembleNamed path members' := by
    funext parts value
    cases value <;> simp [assembleNamed, typed]
  have notes : readNotes members = readNotes members' := by
    funext node
    simp [readNotes, same]
  simp [readNode_object, assemble, parts, typed, named, notes, same]

theorem assemble_typed (path : Path) (members : List (String × Json)) (parts : Parts)
    (type : ValueType) (node : Node)
    (named : Keyed.lookup "type" members = some (.string type.name))
    (typed : assembleTyped members parts type = .ok node) :
    assemble path members parts = .ok (node.withNotes (readNotes members node)) := by
  simp [assemble, named, assembleNamed, readType, ValueType.ofName?_name, typed, bind, Except.bind,
    pure, Except.pure]

theorem assemble_anyOf (path : Path) (members : List (String × Json)) (parts : Parts)
    (branches : List Node) (untyped : Keyed.lookup "type" members = none)
    (read : parts.anyOf = some (some (.ok branches))) :
    assemble path members parts =
      .ok ((union {} branches).withNotes (readNotes members (union {} branches))) := by
  simp [assemble, untyped, read, Functor.map, Except.map, bind, Except.bind, pure, Except.pure]

end Reading

section Keywords

def written (node : Node) : List (String × Json) := Keyed.ofList node.keywords

/-- Keywords for people, which reading passes over. -/
def adviceKeywords : List String := ["oneof", "arrivalOneOf", "suggestions"]

def noteKeywords : List String := ["format", "additionalProperties", "arrival_format", "data_type"]

def shapeKeywords : Node → List (String × Json)
  | scalar _ type => [("type", .string type.toValueType.name)]
  | object _ properties required =>
    ("type", .string "object") :: ("properties", .object (renderProperties properties)) ::
      if required.isEmpty then [] else [("required", .strings required)]
  | emptyArray _ => [("type", .string "array")]
  | arrayOf _ items => [("type", .string "array"), ("items", items.render)]
  | mixedArray _ => [("type", .string "array"), ("additionalProperties", .bool false)]
  | union _ branches => [("anyOf", .array (renderBranches branches))]

theorem keywords_eq (node : Node) :
    node.keywords = node.shapeKeywords ++ labelKeywords node.label := by
  cases node <;> simp [keywords, shapeKeywords, label, render]

theorem lookup_labelKeywords (key : String) (label : Label) (read : key ∉ adviceKeywords) :
    Keyed.lookup key (Keyed.ofList (labelKeywords label)) =
      if key = "format" then label.format.map fun format => .string format.name
      else if key = "additionalProperties" then label.notes.additionalProperties.map .bool
      else if key = "arrival_format" then
        label.notes.arrival.map fun arrival => .string arrival.name
      else if key = "data_type" then label.notes.dataType.map .string
      else none := by
  simp only [adviceKeywords, List.mem_cons, List.not_mem_nil, or_false, not_or] at read
  obtain ⟨oneOf, arrivalOneOf, suggestions⟩ := read
  simp only [labelKeywords, Keyed.lookup_ofList_append, Keyed.lookup_ofList_toList,
    Keyed.lookup_ofList_ite, oneOf, arrivalOneOf, suggestions, false_and, if_false, Option.none_or]
  by_cases format : key = "format"
  · simp [format]
  by_cases additional : key = "additionalProperties"
  · simp [additional]
  by_cases arrival : key = "arrival_format" <;> simp [format, additional, arrival]

theorem lookup_written (key : String) (node : Node) :
    Keyed.lookup key node.written =
      (Keyed.lookup key (Keyed.ofList (labelKeywords node.label))).or
        (Keyed.lookup key (Keyed.ofList node.shapeKeywords)) := by
  rw [written, keywords_eq, Keyed.lookup_ofList_append]

theorem lookup_written_shape (key : String) (node : Node) (read : key ∉ adviceKeywords)
    (unnoted : key ∉ noteKeywords) :
    Keyed.lookup key node.written = Keyed.lookup key (Keyed.ofList node.shapeKeywords) := by
  simp only [noteKeywords, List.mem_cons, List.not_mem_nil, or_false, not_or] at unnoted
  rw [lookup_written, lookup_labelKeywords key node.label read]
  simp [unnoted]

theorem lookup_written_note (key : String) (node : Node) (noted : key ∈ noteKeywords)
    (unmarked : key ≠ "additionalProperties" ∨ node.isMixedArray = false) :
    Keyed.lookup key node.written = Keyed.lookup key (Keyed.ofList (labelKeywords node.label)) := by
  have silent : Keyed.lookup key (Keyed.ofList node.shapeKeywords) = none := by
    simp only [noteKeywords, List.mem_cons, List.not_mem_nil, or_false] at noted
    cases node with
    | mixedArray label =>
        rcases noted with rfl | rfl | rfl | rfl
        · rfl
        · simp [isMixedArray] at unmarked
        · rfl
        · rfl
    | _ =>
        rcases noted with rfl | rfl | rfl | rfl <;>
          simp [shapeKeywords, Keyed.lookup_ofList_cons, Keyed.lookup_ofList_ite]
  rw [lookup_written, silent, Option.or_none]

end Keywords

section Retained

def isScalar : Node → Bool
  | scalar _ _ => true
  | _ => false

@[simp] theorem isScalar_relabel (label : Label) (node : Node) :
    (node.relabel label).isScalar = node.isScalar := by
  cases node <;> rfl

def retainedLabel (type : ValueType) (label : Label) : Label where
  format := none
  notes :=
    { arrival := label.notes.arrival
      dataType := label.notes.dataType
      additionalProperties := if type = .array then none else label.notes.additionalProperties }

mutual

/-- What a document holds of a tree. The note on further properties of an array without items stands
where the mark of mixed arrays does, and is taken for it. -/
def retained : Node → Node
  | scalar label type => scalar { retainedLabel type label with format := label.format } type
  | object label properties required =>
    object (retainedLabel .object label) (retainedProperties properties)
      ((Keyed.keys properties).filter (· ∈ required))
  | emptyArray label =>
    if label.notes.additionalProperties = some false then mixedArray (retainedLabel .array label)
    else emptyArray (retainedLabel .array label)
  | arrayOf label items => arrayOf (retainedLabel .array label) (retained items)
  | mixedArray label =>
    if label.notes.additionalProperties = some true then emptyArray (retainedLabel .array label)
    else mixedArray (retainedLabel .array label)
  | union label branches =>
    union (retainedLabel (union label branches).type label) (retainedBranches branches)

def retainedProperties : List (String × Node) → List (String × Node)
  | [] => []
  | (name, child) :: rest => (name, retained child) :: retainedProperties rest

def retainedBranches : List Node → List Node
  | [] => []
  | branch :: rest => retained branch :: retainedBranches rest

end

theorem retainedProperties_eq_map (properties : List (String × Node)) :
    retainedProperties properties = properties.map fun entry => (entry.1, entry.2.retained) := by
  induction properties with
  | nil => rfl
  | cons entry rest ih => simp [retainedProperties, ih]

theorem retainedBranches_eq_map (branches : List Node) :
    retainedBranches branches = branches.map retained := by
  induction branches with
  | nil => rfl
  | cons branch rest ih => simp [retainedBranches, ih]

theorem keys_retainedProperties (properties : List (String × Node)) :
    Keyed.keys (retainedProperties properties) = Keyed.keys properties := by
  simp [retainedProperties_eq_map, Keyed.keys, Function.comp_def]

theorem type_retained : (node : Node) → node.retained.type = node.type
  | scalar _ _ => rfl
  | object _ _ _ => rfl
  | emptyArray _ => by
      rw [retained]
      split <;> rfl
  | arrayOf _ _ => rfl
  | mixedArray _ => by
      rw [retained]
      split <;> rfl
  | union _ [] => rfl
  | union _ (branch :: _) => type_retained branch

theorem label_retained (node : Node) :
    node.retained.label =
      { retainedLabel node.type node.label with
        format := if node.isScalar then node.format? else none } := by
  cases node with
  | emptyArray label =>
      rw [retained]
      split <;> rfl
  | mixedArray label =>
      rw [retained]
      split <;> rfl
  | _ => rfl

theorem properties?_retained (node : Node) :
    node.retained.properties? =
      node.properties?.map (List.map fun entry => (entry.1, entry.2.retained)) := by
  cases node with
  | object label properties required => exact congrArg some (retainedProperties_eq_map properties)
  | emptyArray label =>
      rw [retained]
      split <;> rfl
  | mixedArray label =>
      rw [retained]
      split <;> rfl
  | _ => rfl

end Retained

section RoundTrip

theorem readNotes_written (node read : Node) (same : read.type = node.type) :
    readNotes node.written read = (retainedLabel node.type node.label).notes := by
  have arrival : Keyed.lookup "arrival_format" node.written =
      node.label.notes.arrival.map fun arrival => .string arrival.name := by
    rw [lookup_written_note _ node (by decide) (.inl (by decide)),
      lookup_labelKeywords _ _ (by decide)]
    simp
  have dataType : Keyed.lookup "data_type" node.written =
      node.label.notes.dataType.map .string := by
    rw [lookup_written_note _ node (by decide) (.inl (by decide)),
      lookup_labelKeywords _ _ (by decide)]
    simp
  have additional : node.type ≠ .array → Keyed.lookup "additionalProperties" node.written =
      node.label.notes.additionalProperties.map .bool := by
    intro other
    have unmarked : node.isMixedArray = false := by
      cases node with
      | mixedArray label => exact absurd rfl other
      | _ => rfl
    rw [lookup_written_note _ node (by decide) (.inr unmarked),
      lookup_labelKeywords _ _ (by decide)]
    simp
  simp only [readNotes, retainedLabel, arrival, dataType, same]
  congr 1
  · cases node.label.notes.arrival <;> simp [Json.text?, Arrival.ofName?_name]
  · cases node.label.notes.dataType <;> simp [Json.text?]
  · by_cases array : node.type = .array
    · simp [array]
    · rw [if_neg array, if_neg array, additional array]
      cases node.label.notes.additionalProperties <;> rfl

theorem readFormat_written (node : Node) : readFormat node.written = node.label.format := by
  rw [readFormat, lookup_written_note _ node (by decide) (.inl (by decide)),
    lookup_labelKeywords _ _ (by decide)]
  cases node.label.format <;> simp [Json.text?, Format.ofName?_name]

theorem readRequired_written (label : Label) (properties : List (String × Node))
    (required : List String) :
    readRequired (written (object label properties required)) = required := by
  rw [readRequired, lookup_written_shape _ _ (by decide) (by decide)]
  cases required with
  | nil => rfl
  | cons name rest =>
      simp [shapeKeywords, Keyed.lookup_ofList_cons, Json.strings, Json.text?, List.filterMap_map,
        Function.comp_def]

theorem lookup_type_written {node : Node} {type : ValueType} (plain : node.plainType? = some type) :
    Keyed.lookup "type" node.written = some (.string type.name) := by
  rw [lookup_written_shape _ _ (by decide) (by decide)]
  cases node with
  | object label properties required =>
      cases plain
      simp [shapeKeywords, Keyed.lookup_ofList_cons, Keyed.lookup_ofList_ite, type, ValueType.name]
  | union label branches => cases plain
  | _ =>
      cases plain
      rfl

theorem readNode_written (node read : Node) (path : Path) {type : ValueType}
    (plain : node.plainType? = some type)
    (typed : assembleTyped node.written (partsAt path node.written) type = .ok read)
    (same : read.type = type) :
    readNode path node.render = .ok (read.withNotes (retainedLabel type node.label).notes) := by
  have own := ((plainType?_eq_some_iff node type).mp plain).2
  have notes := readNotes_written node read (same.trans own.symm)
  rw [render, ← written, readNode_object]
  rw [assemble_typed path _ _ type read (lookup_type_written plain) typed, notes, own]

theorem assembleTyped_scalar (members : List (String × Json)) (parts : Parts) (type : ScalarType) :
    assembleTyped members parts type = .ok (scalar { format := readFormat members } type) := by
  cases type <;> rfl

theorem readNode_render_scalar (label : Label) (type : ScalarType) (path : Path) :
    readNode path (scalar label type).render = .ok (scalar label type).retained := by
  have typed := assembleTyped_scalar (written (scalar label type))
    (partsAt path (written (scalar label type))) type
  rw [readFormat_written] at typed
  exact readNode_written _ _ path rfl typed rfl

theorem readNode_render_object (label : Label) (properties : List (String × Node))
    (required : List String) (path : Path)
    (children : readChildren path (renderProperties properties) =
      .ok (retainedProperties properties)) :
    readNode path (object label properties required).render =
      .ok (object label properties required).retained := by
  have found : Keyed.lookup "properties" (written (object label properties required)) =
      some (.object (renderProperties properties)) := by
    rw [lookup_written_shape _ _ (by decide) (by decide)]
    simp [shapeKeywords, Keyed.lookup_ofList_cons, Keyed.lookup_ofList_ite]
  refine readNode_written _ (object {} (retainedProperties properties)
    ((Keyed.keys properties).filter (· ∈ required))) path rfl ?_ rfl
  simp only [assembleTyped, partsAt, readProperties_eq, found, Option.map_some, Json.members?,
    children, readRequired_written, bind, Except.bind, pure, Except.pure, keys_retainedProperties]

theorem readNode_render_emptyArray (label : Label) (path : Path) :
    readNode path (emptyArray label).render = .ok (emptyArray label).retained := by
  have items : Keyed.lookup "items" (written (emptyArray label)) = none := by
    rw [lookup_written_shape _ _ (by decide) (by decide)]
    rfl
  have mark : Keyed.lookup "additionalProperties" (written (emptyArray label)) =
      label.notes.additionalProperties.map .bool := by
    rw [lookup_written_note _ _ (by decide) (.inr rfl), lookup_labelKeywords _ _ (by decide)]
    rfl
  have typed : assembleTyped (written (emptyArray label))
      (partsAt path (written (emptyArray label))) .array =
        .ok (if label.notes.additionalProperties = some false then mixedArray {}
          else emptyArray {}) := by
    simp only [assembleTyped, partsAt, readItems_eq, items, mark, Option.map_none]
    cases label.notes.additionalProperties with
    | none => rfl
    | some allowed => cases allowed <;> rfl
  rw [readNode_written _ _ path rfl typed (by split <;> rfl), retained]
  split <;> rfl

theorem readNode_render_mixedArray (label : Label) (path : Path) :
    readNode path (mixedArray label).render = .ok (mixedArray label).retained := by
  have items : Keyed.lookup "items" (written (mixedArray label)) = none := by
    rw [lookup_written_shape _ _ (by decide) (by decide)]
    rfl
  have mark : Keyed.lookup "additionalProperties" (written (mixedArray label)) =
      (label.notes.additionalProperties.map .bool).or (some (.bool false)) := by
    rw [lookup_written, lookup_labelKeywords _ _ (by decide)]
    rfl
  have typed : assembleTyped (written (mixedArray label))
      (partsAt path (written (mixedArray label))) .array =
        .ok (if label.notes.additionalProperties = some true then emptyArray {}
          else mixedArray {}) := by
    simp only [assembleTyped, partsAt, readItems_eq, items, mark, Option.map_none]
    cases label.notes.additionalProperties with
    | none => rfl
    | some allowed => cases allowed <;> rfl
  rw [readNode_written _ _ path rfl typed (by split <;> rfl), retained]
  split <;> rfl

theorem readNode_render_arrayOf (label : Label) (items : Node) (path : Path)
    (inner : readNode path.items items.render = .ok items.retained) :
    readNode path (arrayOf label items).render = .ok (arrayOf label items).retained := by
  have found : Keyed.lookup "items" (written (arrayOf label items)) = some items.render := by
    rw [lookup_written_shape _ _ (by decide) (by decide)]
    rfl
  refine readNode_written _ (arrayOf {} items.retained) path rfl ?_ rfl
  simp only [assembleTyped, partsAt, readItems_eq, found, Option.map_some, inner]
  rfl

theorem readNode_render_union (label : Label) (branches : List Node) (path : Path)
    (each : readBranches path (renderBranches branches) = .ok (retainedBranches branches)) :
    readNode path (union label branches).render = .ok (union label branches).retained := by
  have untyped : Keyed.lookup "type" (written (union label branches)) = none := by
    rw [lookup_written_shape _ _ (by decide) (by decide)]
    rfl
  have found : Keyed.lookup "anyOf" (written (union label branches)) =
      some (.array (renderBranches branches)) := by
    rw [lookup_written_shape _ _ (by decide) (by decide)]
    rfl
  have read : (partsAt path (written (union label branches))).anyOf =
      some (some (.ok (retainedBranches branches))) := by
    simp [partsAt, readAlternatives_eq, found, Json.elements?, each]
  have same : (union {} (retainedBranches branches)).type = (union label branches).type := by
    cases branches with
    | nil => rfl
    | cons branch rest => exact type_retained branch
  rw [render, ← written, readNode_object, assemble_anyOf path _ _ _ untyped read]
  rw [readNotes_written (union label branches) _ same]
  rfl

mutual

theorem readNode_render : (node : Node) → (path : Path) →
    readNode path node.render = .ok node.retained
  | .scalar label type, path => readNode_render_scalar label type path
  | .object label properties required, path =>
      readNode_render_object label properties required path (readChildren_render properties path)
  | .emptyArray label, path => readNode_render_emptyArray label path
  | .arrayOf label items, path =>
      readNode_render_arrayOf label items path (readNode_render items path.items)
  | .mixedArray label, path => readNode_render_mixedArray label path
  | .union label branches, path =>
      readNode_render_union label branches path (readBranches_render branches path)

theorem readChildren_render : (properties : List (String × Node)) → (path : Path) →
    readChildren path (renderProperties properties) = .ok (retainedProperties properties)
  | [], _ => rfl
  | (name, child) :: rest, path => by
      rw [renderProperties, ← render, readChildren, readNode_render child, readChildren_render rest]
      rfl

theorem readBranches_render : (branches : List Node) → (path : Path) →
    readBranches path (renderBranches branches) = .ok (retainedBranches branches)
  | [], _ => rfl
  | branch :: rest, path => by
      rw [renderBranches, ← render, readBranches, readNode_render branch, readBranches_render rest]
      rfl

end

theorem readNode_document (path : Path) (node : Node) :
    readNode path node.document = readNode path node.render := by
  apply readNode_congr
  intro key other
  simp [Keyed.lookup_ofList_cons, other]

theorem ofDocument_document (tree : Node) : ofDocument tree.document = .ok tree.retained := by
  rw [ofDocument, readNode_document, readNode_render]

end RoundTrip

end Node

end EventSchema
