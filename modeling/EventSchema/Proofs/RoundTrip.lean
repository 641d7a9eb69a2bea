import EventSchema.Proofs.DocumentReading

namespace EventSchema.Node

/-- What a document can hold of a node. -/
structure Documentable (node : Node) : Prop where
  format : node.isScalar = false → node.format? = none
  required : ∀ label properties required, node = object label properties required →
    ∀ name ∈ required, name ∈ Keyed.keys properties
  additionalProperties : node.type = .array → node.notes.additionalProperties = none
  oneOf : node.notes.oneOf = []
  arrivalOneOf : node.notes.arrivalOneOf = []
  suggestions : node.notes.suggestions = []

structure Settled (node : Node) : Prop where
  format : node.isScalar = false → node.format? = none
  required : ∀ label properties required, node = object label properties required →
    (Keyed.keys properties).filter (· ∈ required) = required
  notes : (retainedLabel node.type node.label).notes = node.notes

theorem retainedLabel_notes_eq_iff (type : ValueType) (label : Label) :
    (retainedLabel type label).notes = label.notes ↔
      (type = .array → label.notes.additionalProperties = none) ∧ label.notes.oneOf = [] ∧
        label.notes.arrivalOneOf = [] ∧ label.notes.suggestions = [] := by
  rcases label with ⟨format, arrival, dataType, oneOf, arrivalOneOf, suggestions, additional⟩
  by_cases array : type = .array
  · simp only [retainedLabel, array, if_true, Notes.mk.injEq, true_and, true_implies]
    grind
  · simp only [retainedLabel, array, if_false, Notes.mk.injEq, true_and, false_implies]
    grind

theorem Settled.label {node : Node} (settled : node.Settled) (other : node.isScalar = false) :
    retainedLabel node.type node.label = node.label := by
  have format : node.label.format = none := settled.format other
  have notes : (retainedLabel node.type node.label).notes = node.label.notes := settled.notes
  calc
    retainedLabel node.type node.label =
        ⟨none, (retainedLabel node.type node.label).notes⟩ := rfl
    _ = node.label := by rw [notes, ← format]

theorem filter_keys_eq_iff {properties : List (String × Node)} {required : List String}
    (increasing : Keyed.Increasing properties) (ordered : Ordered.Increasing required) :
    (Keyed.keys properties).filter (· ∈ required) = required ↔
      ∀ name ∈ required, name ∈ Keyed.keys properties := by
  constructor
  · intro same name member
    rw [← same] at member
    exact List.mem_of_mem_filter member
  · intro present
    apply Ordered.eq_of_mem_iff (List.Pairwise.filter _ increasing) ordered
    intro name
    simp only [List.mem_filter, decide_eq_true_eq, and_iff_right_iff_imp]
    exact present name

theorem settled_iff {node : Node} (ordered : node.InKeyOrder) :
    node.Settled ↔ node.Documentable := by
  constructor
  · intro settled
    obtain ⟨array, oneOf, arrivalOneOf, suggestions⟩ :=
      (retainedLabel_notes_eq_iff node.type node.label).mp settled.notes
    refine ⟨settled.format, ?_, array, oneOf, arrivalOneOf, suggestions⟩
    intro label properties required same
    obtain ⟨increasing, names⟩ := ordered label properties required same
    exact (filter_keys_eq_iff increasing names).mp (settled.required _ _ _ same)
  · intro documentable
    refine ⟨documentable.format, ?_, ?_⟩
    · intro label properties required same
      obtain ⟨increasing, names⟩ := ordered label properties required same
      exact (filter_keys_eq_iff increasing names).mpr (documentable.required _ _ _ same)
    · exact (retainedLabel_notes_eq_iff node.type node.label).mpr ⟨documentable.additionalProperties,
        documentable.oneOf, documentable.arrivalOneOf, documentable.suggestions⟩

theorem retainedProperties_eq_self_iff (properties : List (String × Node)) :
    retainedProperties properties = properties ↔
      ∀ entry ∈ properties, entry.2.retained = entry.2 := by
  rw [retainedProperties_eq_map, ← List.map_id properties, List.map_map, List.map_inj_left]
  simp [Prod.ext_iff]

theorem retainedBranches_eq_self_iff (branches : List Node) :
    retainedBranches branches = branches ↔ ∀ branch ∈ branches, branch.retained = branch := by
  rw [retainedBranches_eq_map, ← List.map_id branches, List.map_map, List.map_inj_left]
  simp

theorem Settled.additional {node : Node} (settled : node.Settled) (array : node.type = .array) :
    node.label.notes.additionalProperties = none :=
  ((retainedLabel_notes_eq_iff node.type node.label).mp settled.notes).1 array

theorem retained_of_settled {node : Node} (everywhere : node.Everywhere Settled) :
    node.retained = node := by
  induction everywhere with
  | scalar label type own =>
      rcases label with ⟨format, notes⟩
      exact congrArg (fun notes => scalar ⟨format, notes⟩ type) own.notes
  | object label properties required own _ ih =>
      rw [retained, (retainedProperties_eq_self_iff properties).mpr ih, own.required _ _ _ rfl]
      exact congrArg (object · properties required) (own.label rfl)
  | emptyArray label own =>
      have unnoted : label.notes.additionalProperties = none := own.additional rfl
      rw [retained, if_neg (by simp [unnoted])]
      exact congrArg emptyArray (own.label rfl)
  | arrayOf label items own _ ih =>
      rw [retained, ih]
      exact congrArg (arrayOf · items) (own.label rfl)
  | mixedArray label own =>
      have unnoted : label.notes.additionalProperties = none := own.additional rfl
      rw [retained, if_neg (by simp [unnoted])]
      exact congrArg mixedArray (own.label rfl)
  | union label branches own _ ih =>
      rw [retained, (retainedBranches_eq_self_iff branches).mpr ih]
      exact congrArg (union · branches) (own.label rfl)

theorem own_settled_of_retained {node : Node} (same : node.retained = node) : node.Settled := by
  have labelled := label_retained node
  rw [same] at labelled
  refine ⟨?_, ?_, (congrArg Label.notes labelled).symm⟩
  · intro other
    rw [format?, labelled, other]
    rfl
  · intro label properties required object
    rw [object, retained] at same
    exact (Node.object.inj same).2.2

theorem settled_of_retained {holds : Node → Prop} {node : Node}
    (everywhere : node.Everywhere holds) (same : node.retained = node) :
    node.Everywhere Settled := by
  have own := own_settled_of_retained same
  induction everywhere with
  | scalar label type _ => exact .scalar label type own
  | object label properties required _ _ ih =>
      have children := (retainedProperties_eq_self_iff properties).mp (Node.object.inj same).2.1
      refine .object _ _ _ own ?_
      intro entry member
      have kept := children entry member
      exact ih entry member kept (own_settled_of_retained kept)
  | emptyArray label _ => exact .emptyArray label own
  | arrayOf label items _ _ ih =>
      have kept := (Node.arrayOf.inj same).2
      exact .arrayOf _ _ own (ih kept (own_settled_of_retained kept))
  | mixedArray label _ => exact .mixedArray label own
  | union label branches _ _ ih =>
      have each := (retainedBranches_eq_self_iff branches).mp (Node.union.inj same).2
      refine .union _ _ own ?_
      intro branch member
      have kept := each branch member
      exact ih branch member kept (own_settled_of_retained kept)

/-- Reading undoes writing exactly where documents can hold every node. -/
theorem ofDocument_document_iff (tree : Node) (ordered : tree.Everywhere InKeyOrder) :
    ofDocument tree.document = .ok tree ↔ tree.Everywhere Documentable := by
  rw [ofDocument_document, Except.ok.injEq]
  constructor
  · intro same
    refine ((settled_of_retained ordered same).and ordered).imp ?_
    intro part both
    exact (settled_iff both.2).mp both.1
  · intro documentable
    refine retained_of_settled ((documentable.and ordered).imp ?_)
    intro part both
    exact (settled_iff both.2).mpr both.1

/-- Unions in a union, items of arrays, formats and notes all come back. -/
theorem ofDocument_document_nested :
    let tree : Node := object { notes := { additionalProperties := some true } }
      [("kind", union { notes := { arrival := some .text, dataType := some "string" } }
          [union {} [scalar {} .string, mixedArray {}, scalar {} .null],
            arrayOf {} (emptyArray {})]),
        ("seen", scalar { format := some .dateTime } .string)]
      ["seen"]
    tree.Everywhere InKeyOrder ∧ tree.Everywhere Documentable ∧
      ofDocument tree.document = .ok tree := by
  intro tree
  have leaf : ∀ node : Node, node.isObject = false → (node.isScalar = false → node.format? = none) →
      (node.type = .array → node.notes.additionalProperties = none) → node.notes.oneOf = [] →
        node.notes.arrivalOneOf = [] → node.notes.suggestions = [] →
          node.InKeyOrder ∧ node.Documentable := by
    intro node other format additional oneOf arrivalOneOf suggestions
    refine ⟨?_, format, ?_, additional, oneOf, arrivalOneOf, suggestions⟩
    · rintro label properties required rfl
      cases other
    · rintro label properties required rfl
      cases other
  have plain : ∀ node : Node, node.isObject = false → node.label = {} →
      node.InKeyOrder ∧ node.Documentable := by
    intro node other unlabelled
    apply leaf node other <;> simp [format?, notes, unlabelled]
  have kind : (union { notes := { arrival := some .text, dataType := some "string" } }
      [union {} [scalar {} .string, mixedArray {}, scalar {} .null],
        arrayOf {} (emptyArray {})]).Everywhere fun part => part.InKeyOrder ∧ part.Documentable := by
    refine .union _ _ ?_ ?_
    · apply leaf <;> simp [isObject, format?, notes, label, type]
    · simp only [List.forall_mem_cons]
      refine ⟨.union _ _ (plain _ rfl rfl) ?_,
        .arrayOf _ _ (plain _ rfl rfl) (.emptyArray _ (plain _ rfl rfl)), by simp⟩
      simp only [List.forall_mem_cons]
      exact ⟨.scalar _ _ (plain _ rfl rfl), .mixedArray _ (plain _ rfl rfl),
        .scalar _ _ (plain _ rfl rfl), by simp⟩
  have each : tree.Everywhere fun part => part.InKeyOrder ∧ part.Documentable := by
    refine .object _ _ _ ⟨?_, fun _ => rfl, ?_, by simp [type], rfl, rfl, rfl⟩ ?_
    · intro label properties required same
      cases same
      exact ⟨Ordered.increasing_ofList ["kind", "seen"], List.pairwise_singleton _ _⟩
    · intro label properties required same
      cases same
      decide
    · simp only [List.forall_mem_cons]
      refine ⟨kind, .scalar _ _ ?_, by simp⟩
      apply leaf <;> simp [isObject, isScalar, notes, label, type]
  have ordered := each.imp fun _ => And.left
  have documentable := each.imp fun _ => And.right
  exact ⟨ordered, documentable, (ofDocument_document_iff tree ordered).mpr documentable⟩
theorem Settled.withNotes {node : Node} {notes : Notes} (settled : node.Settled)
    (fits : (retainedLabel node.type { notes }).notes = notes) : (node.withNotes notes).Settled := by
  refine ⟨?_, ?_, ?_⟩
  · intro other
    rw [Node.withNotes, isScalar_relabel] at other
    rw [format?, Node.withNotes, label_relabel]
    exact settled.format other
  · intro label properties required same
    cases node with
    | object own _ _ =>
        cases same
        exact settled.required _ _ _ rfl
    | _ => cases same
  · rw [Node.withNotes, type_relabel, Node.notes, label_relabel]
    exact fits

theorem readNotes_fit (members : List (String × Json)) (node : Node) :
    (retainedLabel node.type { notes := readNotes members node }).notes =
      readNotes members node := by
  by_cases array : node.type = .array <;> simp [retainedLabel, readNotes, array]

theorem settled_of_typedAs {members : List (String × Json)} {node : Node}
    (typed : node.TypedAs (fun _ tree => tree.Everywhere Settled) members) :
    node.Everywhere Settled := by
  have plain : ∀ type, (retainedLabel type {}).notes = {} := by
    intro type
    simp [retainedLabel]
  cases typed with
  | scalar format type => exact .scalar _ _ ⟨by simp [isScalar], by simp, plain _⟩
  | bareObject =>
      refine .object _ _ _ ⟨fun _ => rfl, ?_, plain _⟩ (by simp)
      intro label properties required same
      cases same
      rfl
  | object children properties found each =>
      refine .object _ _ _ ⟨fun _ => rfl, ?_, plain _⟩ ?_
      · intro label properties' required same
        cases same
        apply List.filter_congr
        intro name member
        simp [member]
      · intro entry member
        obtain ⟨child, -, -, kept⟩ := exists_of_forall₂ each member
        exact kept
  | emptyArray => exact .emptyArray _ ⟨fun _ => rfl, by simp, plain _⟩
  | arrayOf value items found kept => exact .arrayOf _ _ ⟨fun _ => rfl, by simp, plain _⟩ kept
  | mixedArray => exact .mixedArray _ ⟨fun _ => rfl, by simp, plain _⟩

theorem settled_of_ofDocument {document : Json} {tree : Node}
    (read : ofDocument document = .ok tree) : tree.Everywhere Settled := by
  refine readNode_induction (motive := fun _ tree => tree.Everywhere Settled) ?_ document Path.root
    tree read
  intro members node readAs
  have everywhere : node.Everywhere Settled := by
    cases readAs with
    | typed _ own => exact settled_of_typedAs own
    | types branches each =>
        exact .union _ _ ⟨fun _ => rfl, by simp, by simp [retainedLabel, Node.notes, Node.label]⟩
          fun branch member => settled_of_typedAs (each branch member)
    | alternatives keyword values branches found each =>
        refine .union _ _ ⟨fun _ => rfl, by simp, by simp [retainedLabel, Node.notes, Node.label]⟩ ?_
        intro branch member
        obtain ⟨value, -, kept⟩ := exists_of_forall₂ each member
        exact kept
  exact everywhere.relabel _ (everywhere.own.withNotes (readNotes_fit members node))

/-- What is read from any document is read again from its own. -/
theorem ofDocument_document_of_ofDocument (document : Json) (tree : Node)
    (read : ofDocument document = .ok tree) : ofDocument tree.document = .ok tree := by
  rw [ofDocument_document, retained_of_settled (settled_of_ofDocument read)]

/-- A list of types and `oneOf` come back as `anyOf`; a name that is required twice or that no
property has, an unknown keyword and an unknown format do not come back. -/
theorem ofDocument_document_of_ofDocument_tolerant :
    let document : Json := .object
      [("additionalProperties", .bool false),
        ("properties", .object
          [("a", .object
              [("additionalProperties", .bool false), ("format", .string "date"),
                ("type", .array [.string "string", .string "array", .string "null"])]),
            ("b", .object
              [("arrival_format", .string "Text"), ("format", .string "colour"),
                ("type", .string "string")]),
            ("c", .object
              [("oneOf", .array
                [.object [("items", .object [("type", .string "boolean")]),
                    ("type", .string "array")],
                  .object [("type", .string "null")]])])]),
        ("required", .array [.string "d", .string "b", .null, .string "b"]),
        ("title", .string "Orders")]
    let tree : Node := object { notes := { additionalProperties := some false } }
      [("a", union { notes := { additionalProperties := some false } }
          [scalar { format := some .date } .string, mixedArray {},
            scalar { format := some .date } .null]),
        ("b", scalar { notes := { arrival := some .text } } .string),
        ("c", union {} [arrayOf {} (scalar {} .boolean), scalar {} .null])]
      ["b"]
    ofDocument document = .ok tree ∧ ofDocument tree.document = .ok tree := by
  intro document tree
  have read : ofDocument document = .ok tree := by rfl
  exact ⟨read, ofDocument_document_of_ofDocument document tree read⟩

end EventSchema.Node
