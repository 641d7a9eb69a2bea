import EventSchema.Proofs.Keyed
import EventSchema.Proofs.KeyOrder
import EventSchema.Schema.Node
/-!
Finding and changing nodes by their paths. A change at one place shows at that place and below it;
outside it is seen only in what the nodes above the place lead to, and nodes elsewhere stay.
-/
namespace EventSchema.Node

def plainType? : Node → Option ValueType
  | union _ _ => none
  | node => some node.type

@[simp] theorem type_relabel (label : Label) (node : Node) :
    (node.relabel label).type = node.type := by
  cases node with
  | union own branches => cases branches <;> rfl
  | _ => rfl

@[simp] theorem plainType?_relabel (label : Label) (node : Node) :
    (node.relabel label).plainType? = node.plainType? := by
  cases node <;> rfl

theorem label_relabel (label : Label) (node : Node) : (node.relabel label).label = label := by
  cases node <;> rfl

@[simp] theorem required?_relabel (label : Label) (node : Node) :
    (node.relabel label).required? = node.required? := by
  cases node <;> rfl

@[simp] theorem properties?_relabel (label : Label) (node : Node) :
    (node.relabel label).properties? = node.properties? := by
  cases node <;> rfl

@[simp] theorem step?_relabel (label : Label) (node : Node) (step : Step) :
    (node.relabel label).step? step = node.step? step := by
  cases node <;> cases step <;> rfl

theorem plainType?_eq_some_iff (node : Node) (type : ValueType) :
    node.plainType? = some type ↔ node.plainType? ≠ none ∧ node.type = type := by
  cases node <;> simp [plainType?]

theorem exists_object_of_plain {node : Node} (object : node.plainType? = some .object) :
    ∃ label properties required, node = .object label properties required := by
  cases node with
  | object label properties required => exact ⟨label, properties, required, rfl⟩
  | scalar label type => cases type <;> cases object
  | _ => cases object

theorem step?_property_eq_some_iff (name : String) (node child : Node) :
    node.step? (.property name) = some child ↔
      ∃ label properties required, node = object label properties required ∧
        Keyed.lookup name properties = some child := by
  cases node with
  | object label properties required => simp [step?]
  | _ => simp [step?]

theorem step?_items_eq_some_iff (node child : Node) :
    node.step? .items = some child ↔ ∃ label, node = arrayOf label child := by
  cases node <;> simp [step?]

def container : Step → ValueType
  | .property _ => .object
  | .items => .array

theorem plainType?_of_step? {node child : Node} {step : Step} (found : node.step? step = some child) :
    node.plainType? = some (container step) := by
  cases step with
  | property name =>
      rcases (step?_property_eq_some_iff name node child).mp found with ⟨_, _, _, rfl, -⟩
      rfl
  | items =>
      rcases (step?_items_eq_some_iff node child).mp found with ⟨_, rfl⟩
      rfl

@[simp] theorem get?_nil (node : Node) : node.get? [] = some node := rfl

theorem get?_cons (step : Step) (path : Path) (node : Node) :
    node.get? (step :: path) = (node.step? step).bind (get? path) := rfl

@[simp] theorem get?_single (step : Step) (node : Node) : node.get? [step] = node.step? step := by
  rw [get?_cons]
  cases node.step? step <;> rfl

theorem get?_append (path rest : Path) (node : Node) :
    node.get? (path ++ rest) = (node.get? path).bind (get? rest) := by
  induction path generalizing node with
  | nil => rfl
  | cons step path ih =>
      rw [List.cons_append, get?_cons, get?_cons, Option.bind_assoc]
      congr 1
      funext child
      exact ih child

theorem exists_of_map_get? {α : Type} {view : Node → α} {tree tree' : Node} {path : Path}
    {node : Node} (same : (tree.get? path).map view = (tree'.get? path).map view)
    (present : tree.get? path = some node) :
    ∃ node', tree'.get? path = some node' ∧ view node' = view node := by
  rw [present] at same
  exact Option.map_eq_some_iff.mp same.symm

theorem get?_relabel_cons (label : Label) (node : Node) (step : Step) (path : Path) :
    (node.relabel label).get? (step :: path) = node.get? (step :: path) := by
  rw [get?_cons, get?_cons, step?_relabel]

theorem get?_of_prefix (outer path : Path) (node found : Node) (inside : outer <+: path)
    (present : node.get? path = some found) : ∃ above, node.get? outer = some above := by
  rcases inside with ⟨rest, rfl⟩
  rw [get?_append] at present
  rcases Option.bind_eq_some_iff.mp present with ⟨above, here, -⟩
  exact ⟨above, here⟩

theorem exists_step_of_get? {outer : Path} {step : Step} {rest : Path} {tree found : Node}
    (present : tree.get? (outer ++ step :: rest) = some found) :
    ∃ node child, tree.get? outer = some node ∧ node.step? step = some child ∧
      child.get? rest = some found := by
  rw [get?_append] at present
  rcases Option.bind_eq_some_iff.mp present with ⟨node, here, below⟩
  rcases Option.bind_eq_some_iff.mp below with ⟨child, next, last⟩
  exact ⟨node, child, here, next, last⟩

theorem exists_array_of_get? {outer rest : Path} {tree found : Node}
    (present : tree.get? (outer ++ .items :: rest) = some found) :
    ∃ label items, tree.get? outer = some (arrayOf label items) ∧
      items.get? rest = some found := by
  rcases exists_step_of_get? present with ⟨array, items, here, next, last⟩
  rcases (step?_items_eq_some_iff array items).mp next with ⟨label, rfl⟩
  exact ⟨label, items, here, last⟩

theorem get?_append_property (path : Path) (name : String) (node child : Node) :
    node.get? (path ++ [.property name]) = some child ↔
      ∃ label properties required, node.get? path = some (object label properties required) ∧
        Keyed.lookup name properties = some child := by
  rw [get?_append]
  constructor
  · intro found
    rcases Option.bind_eq_some_iff.mp found with ⟨above, here, last⟩
    have next : above.step? (.property name) = some child := by simpa using last
    rcases (step?_property_eq_some_iff name above child).mp next with
      ⟨label, properties, required, rfl, member⟩
    exact ⟨label, properties, required, here, member⟩
  · intro found
    rcases found with ⟨label, properties, required, here, member⟩
    simp [here, step?, member]

section Update

variable (change : Node → Node)

@[simp] theorem update_nil (node : Node) : node.update change [] = change node := rfl

theorem step?_update_cons (step other : Step) (path : Path) (node : Node) :
    (node.update change (step :: path)).step? other =
      if other = step then (node.step? step).map (update change path) else node.step? other := by
  cases node with
  | object label properties required =>
      cases step with
      | items => cases other <;> simp [update, step?]
      | property name =>
          cases found : Keyed.lookup name properties with
          | none =>
              have kept : update change (.property name :: path) (object label properties required) =
                  object label properties required := by simp [update, found]
              rw [kept]
              by_cases same : other = .property name
              · simp [same, step?, found]
              · simp [same]
          | some child =>
              have changed : update change (.property name :: path)
                  (object label properties required) = object label
                    (Keyed.insert name (update change path child) properties) required := by
                simp [update, found]
              rw [changed]
              cases other with
              | items => simp [step?]
              | property name' => simp [step?, Keyed.lookup_insert, found]
  | arrayOf label items => cases step <;> cases other <;> simp [update, step?]
  | _ => cases step <;> cases other <;> simp [update, step?]

theorem update_cons_cases (step : Step) (path : Path) (node : Node) :
    node.update change (step :: path) = node ∨
      (∃ label properties properties' required, node = object label properties required ∧
        node.update change (step :: path) = object label properties' required) ∨
      ∃ label items items', node = arrayOf label items ∧
        node.update change (step :: path) = arrayOf label items' := by
  cases node with
  | object label properties required =>
      cases step with
      | items => exact .inl rfl
      | property name =>
          cases found : Keyed.lookup name properties with
          | none => exact .inl (by simp [update, found])
          | some child =>
              refine .inr (.inl ⟨label, properties,
                Keyed.insert name (update change path child) properties, required, rfl, ?_⟩)
              simp only [update, found]
  | arrayOf label items =>
      cases step with
      | items => exact .inr (.inr ⟨label, items, _, rfl, rfl⟩)
      | property name => exact .inl rfl
  | _ => cases step <;> exact .inl rfl

@[simp] theorem plainType?_update_cons (step : Step) (path : Path) (node : Node) :
    (node.update change (step :: path)).plainType? = node.plainType? := by
  rcases update_cons_cases change step path node with same | ⟨_, _, _, _, rfl, same⟩ |
    ⟨_, _, _, rfl, same⟩ <;> rw [same] <;> rfl

@[simp] theorem type_update_cons (step : Step) (path : Path) (node : Node) :
    (node.update change (step :: path)).type = node.type := by
  rcases update_cons_cases change step path node with same | ⟨_, _, _, _, rfl, same⟩ |
    ⟨_, _, _, rfl, same⟩ <;> rw [same] <;> rfl

@[simp] theorem required?_update_cons (step : Step) (path : Path) (node : Node) :
    (node.update change (step :: path)).required? = node.required? := by
  rcases update_cons_cases change step path node with same | ⟨_, _, _, _, rfl, same⟩ |
    ⟨_, _, _, rfl, same⟩ <;> rw [same] <;> rfl

theorem get?_update_below (place rest : Path) (tree : Node) :
    (tree.update change place).get? (place ++ rest) =
      (tree.get? place).bind fun node => (change node).get? rest := by
  induction place generalizing tree with
  | nil => rfl
  | cons step place ih =>
      rw [List.cons_append, get?_cons, step?_update_cons, if_pos rfl, get?_cons, Option.bind_assoc]
      cases tree.step? step with
      | none => rfl
      | some child => exact ih child

theorem get?_update_self {place : Path} {tree found : Node}
    (present : (tree.update change place).get? place = some found) :
    ∃ node, tree.get? place = some node ∧ change node = found := by
  have here := get?_update_below change place [] tree
  rw [List.append_nil, present] at here
  rcases Option.bind_eq_some_iff.mp here.symm with ⟨node, there, changed⟩
  exact ⟨node, there, Option.some.inj changed⟩

theorem get?_update_above (path : Path) (step : Step) (rest : Path) (tree : Node) :
    (tree.update change (path ++ step :: rest)).get? path =
      (tree.get? path).map (update change (step :: rest)) := by
  induction path generalizing tree with
  | nil => rfl
  | cons first path ih =>
      rw [List.cons_append, get?_cons, step?_update_cons, if_pos rfl, get?_cons]
      cases tree.step? first with
      | none => rfl
      | some child => exact ih child

theorem get?_update_apart (place path : Path) (tree : Node) (notAbove : ¬ path <+: place)
    (notBelow : ¬ place <+: path) : (tree.update change place).get? path = tree.get? path := by
  induction place generalizing tree path with
  | nil => exact absurd List.nil_prefix notBelow
  | cons step place ih =>
      cases path with
      | nil => exact absurd List.nil_prefix notAbove
      | cons first path =>
          rw [get?_cons, get?_cons, step?_update_cons]
          by_cases same : first = step
          · subst first
            rw [if_pos rfl]
            cases tree.step? step with
            | none => rfl
            | some child =>
                exact ih path child
                  (fun inside => notAbove (List.cons_prefix_cons.mpr ⟨rfl, inside⟩))
                  (fun inside => notBelow (List.cons_prefix_cons.mpr ⟨rfl, inside⟩))
          · rw [if_neg same]

theorem isSome_get?_update (place path : Path) (tree : Node)
    (notBelow : ¬ ∃ step rest, path = place ++ step :: rest) :
    ((tree.update change place).get? path).isSome = (tree.get? path).isSome := by
  by_cases below : place <+: path
  · rcases below with ⟨rest, rfl⟩
    cases rest with
    | nil =>
        rw [get?_update_below, List.append_nil]
        cases tree.get? place <;> rfl
    | cons step rest => exact absurd ⟨step, rest, rfl⟩ notBelow
  · by_cases above : path <+: place
    · rcases above with ⟨rest, rfl⟩
      cases rest with
      | nil => exact absurd (by simp) below
      | cons step rest => simp [get?_update_above]
    · rw [get?_update_apart change place path tree above below]

section View

variable {α : Type} (view : Node → α)
  (below : ∀ change step rest node, view (node.update change (step :: rest)) = view node)

include below

/-- What a node shows that does not depend on what lies below it changes only from the place on. -/
theorem map_get?_update_outside (place path : Path) (tree : Node) (outside : ¬ place <+: path) :
    ((tree.update change place).get? path).map view = (tree.get? path).map view := by
  by_cases above : path <+: place
  · rcases above with ⟨rest, rfl⟩
    cases rest with
    | nil => exact absurd (by simp) outside
    | cons step rest =>
        rw [get?_update_above, Option.map_map]
        congr 1
        funext node
        exact below change step rest node
  · rw [get?_update_apart change place path tree above outside]

theorem map_get?_update_of_steps (steps : ∀ node step, (change node).step? step = node.step? step)
    (place path : Path) (own : path = place → ∀ node, view (change node) = view node) (tree : Node) :
    ((tree.update change place).get? path).map view = (tree.get? path).map view := by
  by_cases inside : place <+: path
  · rcases inside with ⟨rest, rfl⟩
    rw [get?_update_below, get?_append]
    cases tree.get? place with
    | none => rfl
    | some node =>
        cases rest with
        | nil => simp [own (List.append_nil place)]
        | cons step rest => simp [get?_cons, steps]
  · exact map_get?_update_outside change view below place path tree inside

end View

end Update

/-- A node without what lies below it and without what it requires. The alternatives of a union do
not lie below it, for no path leads to them. -/
def bare : Node → Node
  | scalar label type => scalar label type
  | object label _ _ => object label [] []
  | emptyArray label => emptyArray label
  | arrayOf label _ => arrayOf label (scalar {} .null)
  | mixedArray label => mixedArray label
  | union label branches => union label branches

theorem label_bare (node : Node) : node.bare.label = node.label := by
  cases node <;> rfl

theorem type_bare (node : Node) : node.bare.type = node.type := by
  cases node <;> rfl

theorem plainType?_bare (node : Node) : node.bare.plainType? = node.plainType? := by
  cases node <;> rfl

theorem bare_update_cons (change : Node → Node) (step : Step) (path : Path) (node : Node) :
    (node.update change (step :: path)).bare = node.bare := by
  rcases update_cons_cases change step path node with same | ⟨_, _, _, _, rfl, same⟩ |
    ⟨_, _, _, rfl, same⟩ <;> rw [same] <;> rfl

theorem label_update_cons (change : Node → Node) (step : Step) (path : Path) (node : Node) :
    (node.update change (step :: path)).label = node.label := by
  rw [← label_bare, bare_update_cons, label_bare]

end EventSchema.Node
