import EventSchema.Proofs.Finishing
import EventSchema.Proofs.Representation

namespace EventSchema

/-- In the table, values of the type arrive in this format and can be stored as named. -/
def Arrival.Stores (arrival : Arrival) (type : ValueType) (dataType : String) : Prop :=
  ∃ entry, entry? arrival = some entry ∧ type ∈ entry.valueTypes ∧ dataType ∈ entry.storeFormats

theorem storage?_eq_none_iff (type : ValueType) (format : Option Format) :
    storage? type format = none ↔ type = .null := by
  cases type with
  | string =>
      cases format with
      | none => decide
      | some format => cases format <;> decide
  | _ => simp [storage?]

theorem stores_of_storage? {type : ValueType} {format : Option Format} {arrival : Arrival}
    {dataType : String} (stored : storage? type format = some (arrival, dataType)) :
    arrival.Stores type dataType := by
  have epochOr : ∀ name ∈ ["integer", "number"],
      (if format = some .epoch then "epoch" else name) ∈ ["integer", "number", "epoch"] := by
    intro name listed
    split
    · decide
    · exact List.mem_append_left ["epoch"] listed
  cases type with
  | string =>
      cases format with
      | none =>
          cases stored
          exact ⟨_, rfl, by decide, by decide⟩
      | some format => cases format <;> cases stored <;> exact ⟨_, rfl, by decide, by decide⟩
  | integer =>
      cases stored
      exact ⟨_, rfl, by decide, epochOr "integer" (by decide)⟩
  | number =>
      cases stored
      exact ⟨_, rfl, by decide, epochOr "number" (by decide)⟩
  | null => cases stored
  | _ =>
      cases stored
      exact ⟨_, rfl, by decide, by decide⟩

theorem exists_storage {type : ValueType} (given : Option Format) (notNull : type ≠ .null) :
    ∃ arrival dataType, storage? type given = some (arrival, dataType) := by
  cases stored : storage? type given with
  | none => exact absurd ((storage?_eq_none_iff type given).mp stored) notNull
  | some entry => exact ⟨entry.1, entry.2, rfl⟩

def Label.withoutStorage (label : Label) : Label where
  format := none
  notes := { label.notes with arrival := none, dataType := none }

theorem withoutStorage_storedLabel (type : ValueType) (label : Label) :
    (Node.storedLabel type label).withoutStorage = label.withoutStorage := by
  simp only [Node.storedLabel, Label.withoutStorage]
  cases storage? type label.format <;> rfl

namespace Node

mutual

def mapLabels (change : Label → Label) : Node → Node
  | scalar label type => scalar (change label) type
  | object label properties required =>
    object (change label) (mapLabelsOfProperties change properties) required
  | emptyArray label => emptyArray (change label)
  | arrayOf label items => arrayOf (change label) (mapLabels change items)
  | mixedArray label => mixedArray (change label)
  | union label branches => union (change label) (mapLabelsOfBranches change branches)

def mapLabelsOfProperties (change : Label → Label) :
    List (String × Node) → List (String × Node)
  | [] => []
  | (name, child) :: rest => (name, mapLabels change child) :: mapLabelsOfProperties change rest

def mapLabelsOfBranches (change : Label → Label) : List Node → List Node
  | [] => []
  | branch :: rest => mapLabels change branch :: mapLabelsOfBranches change rest

end

theorem mapLabels_relabel (change : Label → Label) (label : Label) (node : Node) :
    (node.relabel label).mapLabels change = (node.mapLabels change).relabel (change label) := by
  cases node <;> rfl

mutual

/-- A view of the labels that does not show how values are stored is the same before and after. -/
theorem mapLabels_store {change : Label → Label}
    (unseen : ∀ type label, change (storedLabel type label) = change label) :
    (node : Node) → node.store.mapLabels change = node.mapLabels change
  | scalar label type => by simp only [store, mapLabels, unseen]
  | object label properties required => by
      simp only [store, mapLabels, unseen, mapLabels_storeProperties unseen properties]
  | emptyArray label => by simp only [store, mapLabels, unseen]
  | arrayOf label items => by simp only [store, mapLabels, unseen, mapLabels_store unseen items]
  | mixedArray label => by simp only [store, mapLabels, unseen]
  | union label branches => by
      simp only [store, mapLabels, unseen, mapLabels_storeBranches unseen branches]

theorem mapLabels_storeProperties {change : Label → Label}
    (unseen : ∀ type label, change (storedLabel type label) = change label) :
    (properties : List (String × Node)) →
      mapLabelsOfProperties change (storeProperties properties) =
        mapLabelsOfProperties change properties
  | [] => rfl
  | (name, child) :: rest => by
      simp only [storeProperties, mapLabelsOfProperties, mapLabels_store unseen child,
        mapLabels_storeProperties unseen rest]

theorem mapLabels_storeBranches {change : Label → Label}
    (unseen : ∀ type label, change (storedLabel type label) = change label) :
    (branches : List Node) →
      mapLabelsOfBranches change (storeBranches branches) = mapLabelsOfBranches change branches
  | [] => rfl
  | branch :: rest => by
      simp only [storeBranches, mapLabelsOfBranches, mapLabels_store unseen branch,
        mapLabels_storeBranches unseen rest]

end

theorem Everywhere.store {holds holds' : Node → Prop}
    (stored : ∀ part : Node, holds part → holds' part.store) {node : Node}
    (everywhere : node.Everywhere holds) : node.store.Everywhere holds' := by
  induction everywhere with
  | scalar label type own => exact .scalar _ _ (stored _ own)
  | object label properties required own _ ih =>
      have own' := stored _ own
      rw [Node.store, storeProperties_eq_map] at own' ⊢
      apply Everywhere.object _ _ _ own'
      intro entry member
      obtain ⟨former, inside, rfl⟩ := List.mem_map.mp member
      exact ih former inside
  | emptyArray label own => exact .emptyArray _ (stored _ own)
  | arrayOf label items own _ ih => exact .arrayOf _ _ (stored _ own) ih
  | mixedArray label own => exact .mixedArray _ (stored _ own)
  | union label branches own _ ih =>
      apply Everywhere.union _ _ (stored _ own)
      intro branch member
      rw [storeBranches_eq_map] at member
      obtain ⟨former, inside, rfl⟩ := List.mem_map.mp member
      exact ih former inside

def inside : Node → List Node
  | object _ properties _ => Keyed.values properties
  | arrayOf _ items => [items]
  | union _ branches => branches
  | scalar _ _ | emptyArray _ | mixedArray _ => []

theorem inside_relabel (label : Label) (node : Node) :
    (node.relabel label).inside = node.inside := by
  cases node <;> rfl

theorem Everywhere.inside {holds : Node → Prop} {node part : Node}
    (everywhere : node.Everywhere holds) (member : part ∈ node.inside) : part.Everywhere holds := by
  cases everywhere with
  | object label properties required own children =>
      obtain ⟨entry, listed, rfl⟩ := List.mem_map.mp member
      exact children entry listed
  | arrayOf label items own inner => exact List.mem_singleton.mp member ▸ inner
  | union label branches own each => exact each part member
  | _ => cases member

def Unnoted (node : Node) : Prop := node.notes.arrival = none ∧ node.notes.dataType = none

instance : DecidablePred Unnoted := fun _ => inferInstanceAs (Decidable (_ ∧ _))

/-- The notes tell one way of the table to store values of the node's type; null is not stored. -/
structure InStorage (node : Node) : Prop where
  null : node.type = .null → node.Unnoted
  stored : node.type ≠ .null → ∃ arrival dataType, node.notes.arrival = some arrival ∧
    node.notes.dataType = some dataType ∧ arrival.Stores node.type dataType

theorem inStorage_store {node : Node} (unnoted : node.Unnoted) : node.store.InStorage := by
  have noted : node.store.notes = (storedLabel node.type node.label).notes :=
    congrArg Label.notes (label_store node)
  constructor
  · intro null
    rw [type_store] at null
    have none := (storage?_eq_none_iff node.type node.label.format).mpr null
    simp only [Unnoted, noted, storedLabel, none]
    exact unnoted
  · intro notNull
    rw [type_store] at notNull ⊢
    obtain ⟨arrival, dataType, stored⟩ := exists_storage node.label.format notNull
    refine ⟨arrival, dataType, ?_, ?_, stores_of_storage? stored⟩
    · simp [noted, storedLabel, stored]
    · simp [noted, storedLabel, stored]

/-- A tree with no storage noted on it gets it noted on every node below the root, if the node is
not null. No format is left, and but for this the tree only comes to admit further properties. -/
theorem mapTypes_stores (tree : Node) (unnoted : tree.Everywhere Unnoted) :
    let admitting := tree.withNotes { tree.notes with additionalProperties := some true }
    tree.mapTypes.mapLabels Label.withoutStorage = admitting.mapLabels Label.withoutStorage ∧
      tree.mapTypes.notes = admitting.notes ∧
        (tree.mapTypes.Everywhere fun node => node.format? = none) ∧
          ∀ part ∈ tree.mapTypes.inside, part.Everywhere InStorage := by
  intro admitting
  refine ⟨?_, ?_, ?_, ?_⟩
  · rw [mapTypes, mapLabels_relabel, mapLabels_store withoutStorage_storedLabel,
      show admitting = tree.relabel _ from rfl, mapLabels_relabel]
    rfl
  · simp only [admitting, mapTypes, withNotes, Node.notes, label_relabel]
  · have spent : tree.store.Everywhere fun node => node.format? = none :=
      unnoted.store fun part _ => format?_store part
    exact spent.relabel _ (by rw [format?, label_relabel])
  · intro part member
    rw [mapTypes, inside_relabel] at member
    have stored : tree.store.Everywhere InStorage := unnoted.store fun _ => inStorage_store
    exact stored.inside member

/-- A union that starts with null is not stored, and its other alternative is. -/
theorem mapTypes_stores_union :
    let date := scalar { format := some .date } .string
    let tree := object {}
      [("n", union {} [scalar {} .null, date]),
        ("xs", arrayOf {} (scalar { format := some .epoch } .integer))] ["n"]
    let admitting := tree.withNotes { additionalProperties := some true }
    let stored (arrival : Arrival) (dataType : String) : Label :=
      { notes := { arrival := some arrival, dataType := some dataType } }
    tree.Everywhere Unnoted ∧
      tree.mapTypes.mapLabels Label.withoutStorage = admitting.mapLabels Label.withoutStorage ∧
        tree.mapTypes.notes = admitting.notes ∧
          (tree.mapTypes.Everywhere fun node => node.format? = none) ∧
            (∀ part ∈ tree.mapTypes.inside, part.Everywhere InStorage) ∧
              tree.mapTypes.inside =
                [union {} [scalar {} .null, scalar (stored .text "date") .string],
                  arrayOf (stored .array "array") (scalar (stored .number "epoch") .integer)] := by
  intro date tree admitting stored
  have unnoted : tree.Everywhere Unnoted := by decide
  obtain ⟨same, notes, spent, inside⟩ := mapTypes_stores tree unnoted
  exact ⟨unnoted, same, notes, spent, inside, rfl⟩

end Node

end EventSchema
