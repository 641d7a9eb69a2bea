import EventSchema.Proofs.Documents
import EventSchema.Proofs.Preparation
import EventSchema.Proofs.Representation
import EventSchema.Proofs.Results
/-!
What reading a document can give. A schema object reads as a node of one type or as a union, made of
what the schema objects inside it read as, so whatever this one step keeps holds of every tree that
is read. Such a tree is all that its own document holds, and its keys are in order if those of the
document are.
-/
namespace EventSchema.Node

/-- A node of one type as the members of a schema object describe it. A value among them is related
to what it reads as. -/
inductive TypedAs (related : Json → Node → Prop) (members : List (String × Json)) : Node → Prop where
  | scalar (format : Option Format) (type : ScalarType) :
      TypedAs related members (scalar { format } type)
  | bareObject : TypedAs related members (object {} [] [])
  | object (children : List (String × Json)) (properties : List (String × Node))
      (found : Keyed.lookup "properties" members = some (.object children))
      (each : List.Forall₂ (fun child entry => child.1 = entry.1 ∧ related child.2 entry.2)
        children properties) :
      TypedAs related members (object {} properties
        ((Keyed.keys properties).filter (· ∈ readRequired members)))
  | emptyArray : TypedAs related members (emptyArray {})
  | arrayOf (value : Json) (items : Node) (found : Keyed.lookup "items" members = some value)
      (inner : related value items) : TypedAs related members (arrayOf {} items)
  | mixedArray : TypedAs related members (mixedArray {})

inductive ReadAs (related : Json → Node → Prop) (members : List (String × Json)) : Node → Prop where
  | typed (node : Node) (own : node.TypedAs related members) : ReadAs related members node
  | types (branches : List Node) (each : ∀ branch ∈ branches, branch.TypedAs related members) :
      ReadAs related members (union {} branches)
  | alternatives (keyword : String) (values : List Json) (branches : List Node)
      (found : Keyed.lookup keyword members = some (.array values))
      (each : List.Forall₂ related values branches) : ReadAs related members (union {} branches)

section Inversion

variable {related : Json → Node → Prop} {members : List (String × Json)} {path : Path}

theorem forall₂_readChildren {children : List (String × Json)} {properties : List (String × Node)}
    (inner : ∀ child ∈ children, ∀ path node, readNode path child.2 = .ok node →
      related child.2 node)
    (read : readChildren path children = .ok properties) :
    List.Forall₂ (fun child entry => child.1 = entry.1 ∧ related child.2 entry.2)
      children properties := by
  induction children generalizing properties with
  | nil =>
      cases read
      exact .nil
  | cons child rest ih =>
      obtain ⟨first, others⟩ := List.forall_mem_cons.mp inner
      rw [readChildren, bind_eq_ok_iff] at read
      obtain ⟨node, own, read⟩ := read
      rw [bind_eq_ok_iff] at read
      obtain ⟨nodes, later, read⟩ := read
      cases read
      exact .cons ⟨rfl, first _ node own⟩ (ih others later)

theorem forall₂_readBranches {values : List Json} {branches : List Node}
    (inner : ∀ value ∈ values, ∀ path node, readNode path value = .ok node → related value node)
    (read : readBranches path values = .ok branches) : List.Forall₂ related values branches := by
  induction values generalizing branches with
  | nil =>
      cases read
      exact .nil
  | cons value rest ih =>
      obtain ⟨first, others⟩ := List.forall_mem_cons.mp inner
      rw [readBranches, bind_eq_ok_iff] at read
      obtain ⟨node, own, read⟩ := read
      rw [bind_eq_ok_iff] at read
      obtain ⟨nodes, later, read⟩ := read
      cases read
      exact .cons (first _ node own) (ih others later)

theorem sizeOf_of_lookup {key : String} {value : Json}
    (found : Keyed.lookup key members = some value) : sizeOf value < sizeOf members := by
  have listed := List.sizeOf_lt_of_mem (Keyed.mem_of_lookup found)
  simp only [Prod.mk.sizeOf_spec] at listed
  omega

variable (inner : ∀ value path node, sizeOf value < sizeOf members →
  readNode path value = .ok node → related value node)

include inner

theorem typedAs_object {children : List (String × Json)} {properties : List (String × Node)}
    (found : Keyed.lookup "properties" members = some (.object children))
    (read : readChildren path children = .ok properties) :
    TypedAs related members (object {} properties
      ((Keyed.keys properties).filter (· ∈ readRequired members))) := by
  refine .object children properties found (forall₂_readChildren ?_ read)
  intro child member path' node
  apply inner
  have outer := sizeOf_of_lookup found
  have listed := List.sizeOf_lt_of_mem member
  cases child
  simp only [Prod.mk.sizeOf_spec, Json.object.sizeOf_spec] at outer listed ⊢
  omega

theorem typedAs_of_assembleTyped {type : ValueType} {node : Node}
    (read : assembleTyped members (partsAt path members) type = .ok node) :
    node.TypedAs related members := by
  cases type with
  | object =>
      simp only [assembleTyped, partsAt, readProperties_eq] at read
      cases found : Keyed.lookup "properties" members with
      | none =>
          rw [found] at read
          cases read
          exact .bareObject
      | some value =>
          simp only [found, Option.map_some] at read
          obtain ⟨properties, listed, read⟩ := bind_eq_ok_iff.mp read
          cases read
          cases value with
          | object children => exact typedAs_object inner found listed
          | null | bool _ | number _ | string _ | array _ => cases listed
  | array =>
      simp only [assembleTyped, partsAt, readItems_eq] at read
      cases found : Keyed.lookup "items" members with
      | none =>
          simp only [found, Option.map_none] at read
          split at read
          · cases read
            exact .mixedArray
          · cases read
            exact .emptyArray
      | some value =>
          simp only [found, Option.map_some] at read
          obtain ⟨items, own, rfl⟩ := map_eq_ok_iff.mp read
          exact .arrayOf value items found (inner _ _ _ (sizeOf_of_lookup found) own)
  | string | number | integer | boolean | null =>
      cases read
      exact .scalar _ _

theorem typedAs_of_assembleNamed {value : Json} {node : Node}
    (read : assembleNamed path members (partsAt path members) value = .ok node) :
    node.TypedAs related members := by
  cases value with
  | string name =>
      obtain ⟨type, -, typed⟩ := bind_eq_ok_iff.mp read
      exact typedAs_of_assembleTyped inner typed
  | null | bool _ | number _ | array _ | object _ => cases read

theorem readAs_alternatives {keyword : String} {branches : List Node}
    (read : readAlternatives path keyword members = some (some (.ok branches))) :
    (union {} branches).ReadAs related members := by
  rw [readAlternatives_eq] at read
  obtain ⟨value, found, read⟩ := Option.map_eq_some_iff.mp read
  obtain ⟨values, listed, read⟩ := Option.map_eq_some_iff.mp read
  cases value with
  | array elements =>
      obtain rfl : elements = values := Option.some.inj listed
      refine .alternatives keyword elements branches found (forall₂_readBranches ?_ read)
      intro value member path' node
      apply inner
      have outer := sizeOf_of_lookup found
      have listed := List.sizeOf_lt_of_mem member
      simp only [Json.array.sizeOf_spec] at outer
      omega
  | null | bool _ | number _ | string _ | object _ => cases listed

theorem readAs_of_readNode {tree : Node} (read : readNode path (.object members) = .ok tree) :
    ∃ node : Node, node.ReadAs related members ∧
      tree = node.withNotes (readNotes members node) := by
  rw [readNode_object, assemble] at read
  split at read
  · obtain ⟨node, named, finished⟩ := bind_eq_ok_iff.mp read
    exact ⟨node, .typed node (typedAs_of_assembleNamed inner named),
      (Except.ok.inj finished).symm⟩
  · obtain ⟨node, shaped, finished⟩ := bind_eq_ok_iff.mp read
    obtain ⟨branches, listed, rfl⟩ := map_eq_ok_iff.mp shaped
    refine ⟨_, .types branches ?_, (Except.ok.inj finished).symm⟩
    intro branch member
    obtain ⟨name, -, named⟩ := exists_of_forall₂ (mapM_eq_ok_iff.mp listed) member
    exact typedAs_of_assembleNamed inner named
  · cases read
  · split at read
    · rename_i result alternatives
      obtain ⟨node, shaped, finished⟩ := bind_eq_ok_iff.mp read
      obtain ⟨branches, rfl, rfl⟩ := map_eq_ok_iff.mp shaped
      refine ⟨_, ?_, (Except.ok.inj finished).symm⟩
      rcases Option.or_eq_some_iff.mp alternatives with first | ⟨-, second⟩
      · exact readAs_alternatives inner first
      · exact readAs_alternatives inner second
    · split at read
      · obtain ⟨node, typed, finished⟩ := bind_eq_ok_iff.mp read
        exact ⟨node, .typed node (typedAs_of_assembleTyped inner typed),
          (Except.ok.inj finished).symm⟩
      · cases read

end Inversion

/-- Whatever the reading of a schema object keeps, if the reading of the schema objects in it does,
holds of every tree that is read. -/
theorem readNode_induction {motive : Json → Node → Prop}
    (step : ∀ (members : List (String × Json)) (node : Node), node.ReadAs motive members →
      motive (.object members) (node.withNotes (readNotes members node))) :
    (value : Json) → (path : Path) → (tree : Node) → readNode path value = .ok tree →
      motive value tree
  | .object members, path, tree, read => by
      have inner : ∀ value path node, sizeOf value < sizeOf members →
          readNode path value = .ok node → motive value node := by
        intro value path node smaller
        exact readNode_induction step value path node
      obtain ⟨node, readAs, rfl⟩ := readAs_of_readNode inner read
      exact step members node readAs
  | .null, _, _, read | .bool _, _, _, read | .number _, _, _, read | .string _, _, _, read
  | .array _, _, _, read => by simp [readNode] at read
termination_by value => sizeOf value

/-- Keys and required names are kept in order, as maps and sets are. -/
def InKeyOrder (node : Node) : Prop :=
  ∀ label properties required, node = object label properties required →
    Keyed.Increasing properties ∧ Ordered.Increasing required

theorem inKeyOrder_object {properties : List (String × Node)} {required : List String} (label : Label)
    (increasing : Keyed.Increasing properties) (sorted : Ordered.Increasing required) :
    (object label properties required).InKeyOrder := by
  intro label' properties' required' same
  cases same
  exact ⟨increasing, sorted⟩

theorem inKeyOrder_of_not_object {node : Node} (other : node.isObject = false) :
    node.InKeyOrder := by
  rintro label properties required rfl
  cases other

instance (node : Node) : Decidable node.InKeyOrder :=
  match node with
  | object _ properties required =>
    decidable_of_iff
      ((Keyed.keys properties).Pairwise (· < ·) ∧ required.Pairwise (· < ·))
      ⟨fun sorted => inKeyOrder_object _ sorted.1 sorted.2, fun ordered => ordered _ _ _ rfl⟩
  | scalar _ _ | emptyArray _ | arrayOf _ _ | mixedArray _ | union _ _ =>
    isTrue (inKeyOrder_of_not_object rfl)

theorem keys_of_forall₂ {children : List (String × Json)} {properties : List (String × Node)}
    (each : List.Forall₂ (fun child entry => child.1 = entry.1) children properties) :
    Keyed.keys properties = Keyed.keys children := by
  induction each with
  | nil => rfl
  | cons own _ ih => exact congrArg₂ List.cons own.symm ih

theorem inKeyOrder_of_typedAs {members : List (String × Json)} {node : Node}
    (ordered : (Json.object members).Ordered)
    (typed : node.TypedAs (fun value tree => value.Ordered → tree.Everywhere InKeyOrder) members) :
    node.Everywhere InKeyOrder := by
  have inner : ∀ {key value}, Keyed.lookup key members = some value → value.Ordered := by
    intro key value found
    cases ordered with
    | object _ _ each => exact each _ (Keyed.mem_of_lookup found)
  cases typed with
  | scalar format type => exact .scalar _ _ (inKeyOrder_of_not_object rfl)
  | bareObject =>
      exact .object _ _ _ (inKeyOrder_object _ List.Pairwise.nil List.Pairwise.nil) (by simp)
  | object children properties found each =>
      cases inner found with
      | object _ increasing values =>
          have sorted : Keyed.Increasing properties := by
            rw [Keyed.Increasing, keys_of_forall₂ (each.imp fun _ _ => And.left)]
            exact increasing
          refine .object _ _ _ ?_ ?_
          · intro label properties' required same
            cases same
            exact ⟨sorted, List.Pairwise.filter _ sorted⟩
          · intro entry member
            obtain ⟨child, listed, -, kept⟩ := exists_of_forall₂ each member
            exact kept (values child listed)
  | emptyArray => exact .emptyArray _ (inKeyOrder_of_not_object rfl)
  | arrayOf value items found kept =>
      exact .arrayOf _ _ (inKeyOrder_of_not_object rfl) (kept (inner found))
  | mixedArray => exact .mixedArray _ (inKeyOrder_of_not_object rfl)

theorem InKeyOrder.relabel {node : Node} (label : Label) (ordered : node.InKeyOrder) :
    (node.relabel label).InKeyOrder := by
  intro label' properties required same
  cases node with
  | object own properties' required' =>
      cases same
      exact ordered own _ _ rfl
  | _ => cases same

theorem InKeyOrder.update_cons {node : Node} (change : Node → Node) (step : Step) (rest : Path)
    (ordered : node.InKeyOrder) : (node.update change (step :: rest)).InKeyOrder := by
  cases node with
  | object label properties required =>
      cases step with
      | items => exact ordered
      | property name =>
          obtain ⟨increasing, sorted⟩ := ordered label properties required rfl
          rw [update]
          split
          · exact inKeyOrder_object label (Keyed.increasing_insert _ _ _ increasing) sorted
          · exact ordered
  | arrayOf label items => cases step <;> exact inKeyOrder_of_not_object rfl
  | _ => cases step <;> exact ordered

theorem inKeyOrder_of_ofDocument {document : Json} {tree : Node} (ordered : document.Ordered)
    (read : ofDocument document = .ok tree) : tree.Everywhere InKeyOrder := by
  refine readNode_induction (motive := fun value tree =>
    value.Ordered → tree.Everywhere InKeyOrder) ?_ document Path.root tree read ordered
  intro members node readAs ordered
  have everywhere : node.Everywhere InKeyOrder := by
    cases readAs with
    | typed _ own => exact inKeyOrder_of_typedAs ordered own
    | types branches each =>
        exact .union _ _ (inKeyOrder_of_not_object rfl) fun branch member =>
          inKeyOrder_of_typedAs ordered (each branch member)
    | alternatives keyword values branches found each =>
        refine .union _ _ (inKeyOrder_of_not_object rfl) ?_
        intro branch member
        obtain ⟨value, listed, kept⟩ := exists_of_forall₂ each member
        cases ordered with
        | object _ _ parts =>
            cases parts _ (Keyed.mem_of_lookup found) with
            | array _ elements => exact kept (elements value listed)
  exact everywhere.relabel _ (everywhere.own.relabel _)

end EventSchema.Node
