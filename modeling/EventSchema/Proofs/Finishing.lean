import EventSchema.Proofs.WellFormed
import EventSchema.Storage
import EventSchema.Survey.Advice

namespace EventSchema

namespace Node

theorem storeProperties_eq_map (properties : List (String × Node)) :
    storeProperties properties = properties.map fun entry => (entry.1, entry.2.store) := by
  induction properties with
  | nil => rfl
  | cons entry rest ih => simp [storeProperties, ih]

theorem storeBranches_eq_map (branches : List Node) : storeBranches branches = branches.map store := by
  induction branches with
  | nil => rfl
  | cons branch rest ih => simp [storeBranches, ih]

theorem step?_store (node : Node) (step : Step) :
    node.store.step? step = (node.step? step).map store := by
  cases node with
  | object label properties required =>
      cases step with
      | items => rfl
      | property name =>
          simp only [store, step?, storeProperties_eq_map]
          exact Keyed.lookup_map name store properties
  | _ => cases step <;> rfl

theorem get?_store (path : Path) (node : Node) :
    node.store.get? path = (node.get? path).map store := by
  induction path generalizing node with
  | nil => rfl
  | cons step path ih =>
      rw [get?_cons, get?_cons, step?_store]
      cases node.step? step with
      | none => rfl
      | some child => exact ih child

theorem type_store : (node : Node) → node.store.type = node.type
  | union _ [] => rfl
  | union _ (branch :: _) => type_store branch
  | scalar _ _ => rfl
  | object _ _ _ => rfl
  | emptyArray _ => rfl
  | arrayOf _ _ => rfl
  | mixedArray _ => rfl

theorem label_store (node : Node) : node.store.label = storedLabel node.type node.label := by
  cases node <;> rfl

theorem format?_store (node : Node) : node.store.format? = none := by
  rw [format?, label_store]
  rfl

theorem properties?_store (node : Node) :
    node.store.properties? =
      node.properties?.map (List.map fun entry => (entry.1, entry.2.store)) := by
  cases node with
  | object label properties required => exact congrArg some (storeProperties_eq_map properties)
  | _ => rfl

theorem required?_store (node : Node) : node.store.required? = node.required? := by
  cases node <;> rfl

theorem store_wellFormed {mixed : Prop} (node : Node) (wellFormed : node.WellFormed mixed) :
    node.store.WellFormed mixed := by
  induction wellFormed with
  | scalar label type => exact .scalar _ _
  | object label properties required increasing _ ih =>
      rw [store, storeProperties_eq_map]
      refine .object _ _ _ ?_ ?_
      · simpa [Keyed.Increasing, Keyed.keys, Function.comp_def] using increasing
      · intro entry member
        rcases List.mem_map.mp member with ⟨former, inside, rfl⟩
        exact ih former inside
  | emptyArray label => exact .emptyArray _
  | arrayOf label items _ ih => exact .arrayOf _ _ ih
  | mixedArray label allowed => exact .mixedArray _ allowed
  | union label first second different _ _ former latter =>
      refine .union _ first.store second.store ?_ former latter
      simpa [family, type_store] using different

theorem mapTypes_wellFormed {mixed : Prop} (root : Node) (wellFormed : root.WellFormed mixed) :
    root.mapTypes.WellFormed mixed :=
  (store_wellFormed root wellFormed).relabel _

end Node

namespace Conflict

theorem annotateAll_wellFormed {mixed : Prop} (conflicts : List Conflict) (tree : Node)
    (wellFormed : tree.WellFormed mixed) : (annotateAll conflicts tree).WellFormed mixed := by
  rw [annotateAll]
  induction conflicts generalizing tree with
  | nil => exact wellFormed
  | cons conflict rest ih =>
      exact ih _ (wellFormed.update _ conflict.path fun part inner => inner.relabel _)

end Conflict

section View

variable {α : Type} (view : Node → α)
  (below : ∀ change step rest node, view (node.update change (step :: rest)) = view node)
  (relabelled : ∀ label node, view (node.relabel label) = view node)

include below relabelled

omit relabelled in
theorem Conflict.map_get?_annotateAll
    (noted : ∀ notes node, view (Node.withNotes notes node) = view node) (conflicts : List Conflict)
    (tree : Node) (path : Path) :
    ((annotateAll conflicts tree).get? path).map view = (tree.get? path).map view := by
  rw [annotateAll]
  induction conflicts generalizing tree with
  | nil => rfl
  | cons conflict rest ih =>
      rw [List.foldl_cons, ih]
      exact Node.map_get?_update_of_steps _ view below (fun node => node.step?_relabel _)
        conflict.path path (fun _ node => noted _ node) tree

omit below in
theorem Node.map_get?_mapTypes (stored : ∀ node : Node, view node.store = view node) (root : Node)
    (path : Path) : (root.mapTypes.get? path).map view = (root.get? path).map view := by
  have inner : (root.store.get? path).map view = (root.get? path).map view := by
    rw [get?_store, Option.map_map]
    congr 1
    funext node
    exact stored node
  rw [mapTypes]
  cases path with
  | nil => simp [relabelled, stored]
  | cons step rest => rw [get?_relabel_cons, inner]

theorem map_get?_finished (stored : ∀ node : Node, view node.store = view node)
    (conflicts : List Conflict) (tree : Node) (path : Path) :
    ((Conflict.annotateAll conflicts tree).mapTypes.get? path).map view =
      (tree.get? path).map view := by
  have finished := Node.map_get?_mapTypes view relabelled stored
    (Conflict.annotateAll conflicts tree) path
  exact finished.trans (Conflict.map_get?_annotateAll view below (fun _ node => relabelled _ node)
    conflicts tree path)

end View

end EventSchema
