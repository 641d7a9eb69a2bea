import EventSchema.Proofs.Conflicts
import EventSchema.Survey.Resolution

namespace EventSchema

namespace Node

theorem relabel_relabel (label label' : Label) (node : Node) :
    (node.relabel label).relabel label' = node.relabel label' := by
  cases node <;> rfl

theorem relabel_label (node : Node) : node.relabel node.label = node := by
  cases node <;> rfl

theorem type_ofType (type : ValueType) : (ofType type).type = type := by
  cases type <;> rfl

theorem plainType?_ofType (type : ValueType) : (ofType type).plainType? = some type := by
  cases type <;> rfl

theorem step?_ofType (type : ValueType) (step : Step) : (ofType type).step? step = none := by
  cases type <;> cases step <;> rfl

theorem step?_of_type_null (node : Node) (step : Step) (null : node.type = .null) :
    node.step? step = none := by
  cases node with
  | object _ _ _ | arrayOf _ _ => cases null
  | _ => cases step <;> rfl

def startingShape (target : ValueType) : Option Node → Node
  | some sample => if sample.type = target && target.isStructural then sample else ofType target
  | none => ofType target

theorem startingShape_cases (target : ValueType) (template : Option Node) :
    (∃ sample, template = some sample ∧ sample.type = target ∧
      startingShape target template = sample) ∨ startingShape target template = ofType target := by
  cases template with
  | none => exact .inr rfl
  | some sample =>
      by_cases fits : sample.type = target ∧ target.isStructural = true
      · exact .inl ⟨sample, rfl, fits.1, by simp [startingShape, fits]⟩
      · exact .inr (by simp [startingShape, fits])

theorem retype_of_plain (target : ValueType) (template : Option Node) (node : Node)
    (plain : node.plainType? = some node.type) :
    node.retype target template =
      if node.type = target then node
      else (startingShape target template).relabel
        (if target.isStructural then { node.label with format := none } else node.label) := by
  cases node with
  | union _ _ => cases plain
  | _ => cases template <;> rfl

theorem retype_union (target : ValueType) (template : Option Node) (label : Label)
    (branches : List Node) :
    (union label branches).retype target template =
      match branches.find? (·.type = target) with
      | some branch => branch.relabel { label with format := branch.format? }
      | none => (startingShape target template).relabel
        (if target.isStructural then { label with format := none } else label) := by
  cases template <;> rfl

/-- Up to its label a node that changes its type stays, collapses onto a branch, is borrowed from
the template, or starts empty. -/
theorem retype_cases (target : ValueType) (template : Option Node) (node : Node) :
    (node.retype target template = node ∧ node.type = target ∧ node.plainType? = some target) ∨
      (∃ label branches branch label', node = union label branches ∧ branch ∈ branches ∧
        branch.type = target ∧ node.retype target template = branch.relabel label') ∨
      (∃ sample label, template = some sample ∧ sample.type = target ∧
        node.retype target template = sample.relabel label) ∨
      ∃ label, node.retype target template = (ofType target).relabel label := by
  have started : ∀ (label : Label) (result : Node),
      result = (startingShape target template).relabel label →
      (∃ sample label, template = some sample ∧ sample.type = target ∧
        result = sample.relabel label) ∨ ∃ label, result = (ofType target).relabel label := by
    intro label result started
    subst started
    rcases startingShape_cases target template with ⟨sample, lent, own, same⟩ | same
    · exact .inl ⟨sample, label, lent, own, by rw [same]⟩
    · exact .inr ⟨label, by rw [same]⟩
  have ofPlain := retype_of_plain target template node
  cases node with
  | union label branches =>
      have shown := retype_union target template label branches
      cases found : branches.find? (·.type = target) with
      | none =>
          rw [found] at shown
          exact .inr (.inr (started _ _ shown))
      | some branch =>
          rw [found] at shown
          exact .inr (.inl ⟨label, branches, branch, _, rfl, List.mem_of_find?_eq_some found,
            by simpa using List.find?_some found, shown⟩)
  | _ =>
      have shown := ofPlain rfl
      split at shown
      · rename_i same
        exact .inl ⟨shown, same, congrArg some same⟩
      · exact .inr (.inr (started _ _ shown))

theorem type_retype (target : ValueType) (template : Option Node) (node : Node) :
    (node.retype target template).type = target := by
  rcases retype_cases target template node with ⟨same, own, -⟩ | ⟨_, _, branch, _, -, -, own, same⟩ |
    ⟨sample, _, -, own, same⟩ | ⟨_, same⟩
  · rw [same, own]
  · rw [same, type_relabel, own]
  · rw [same, type_relabel, own]
  · rw [same, type_relabel, type_ofType]

theorem plain_retype {target : ValueType} {template : Option Node} {node : Node}
    (plain : node.plainType? ≠ none)
    (borrowed : ∀ sample, template = some sample → sample.plainType? ≠ none) :
    (node.retype target template).plainType? ≠ none := by
  rcases retype_cases target template node with ⟨same, -⟩ | ⟨_, _, _, _, rfl, -⟩ |
    ⟨sample, _, lent, -, same⟩ | ⟨_, same⟩
  · rw [same]
    exact plain
  · exact absurd rfl plain
  · rw [same, plainType?_relabel]
    exact borrowed sample lent
  · rw [same, plainType?_relabel, plainType?_ofType]
    exact Option.some_ne_none target

theorem retype_wellFormed {mixed : Prop} {target : ValueType} {template : Option Node} {node : Node}
    (wellFormed : node.WellFormed mixed)
    (borrowed : ∀ sample, template = some sample → sample.WellFormed mixed) :
    (node.retype target template).WellFormed mixed := by
  rcases retype_cases target template node with ⟨same, -⟩ | ⟨_, _, branch, _, rfl, member, -, same⟩ |
    ⟨sample, _, lent, -, same⟩ | ⟨_, same⟩
  · rw [same]
    exact wellFormed
  · exact same ▸ (wellFormed.branch member).relabel _
  · exact same ▸ (borrowed sample lent).relabel _
  · exact same ▸ (WellFormed.ofType target).relabel _

end Node

namespace Conflict

open Node

theorem template_cases {perSample : List Node} {path : Path} {type : ValueType} {sample : Node}
    (lent : template? perSample path type = some sample) :
    ∃ tree ∈ perSample, tree.get? path = some sample :=
  List.mem_filterMap.mp (List.mem_of_find?_eq_some lent)

theorem retypeNode_eq (perSample : List Node) (conflict : Conflict) (type : ValueType)
    (node : Node) :
    ∃ label, retypeNode perSample conflict type node =
      (node.retype type (template? perSample conflict.path type)).relabel label := by
  rw [retypeNode, withNotes, withFormat]
  exact ⟨_, relabel_relabel _ _ _⟩

theorem nullNode_eq (node : Node) : ∃ label, nullNode node = (node.retype .null none).relabel label := by
  rw [nullNode, withNotes, withFormat]
  exact ⟨_, relabel_relabel _ _ _⟩

theorem step?_requireProperty (name : String) (isRequired : Bool) (node : Node) (step : Step) :
    (requireProperty name isRequired node).step? step = node.step? step := by
  cases node <;> cases step <;> rfl

theorem plainType?_requireProperty (name : String) (isRequired : Bool) (node : Node) :
    (requireProperty name isRequired node).plainType? = node.plainType? := by
  cases node <;> rfl

theorem bare_requireProperty (name : String) (isRequired : Bool) (node : Node) :
    (requireProperty name isRequired node).bare = node.bare := by
  cases node <;> rfl

theorem type_requireProperty (name : String) (isRequired : Bool) (node : Node) :
    (requireProperty name isRequired node).type = node.type := by
  cases node <;> rfl

def settling (perSample : List Node) (conflict : Conflict) (node : Node) : Node :=
  match conflict.resolution with
  | .dataType type => retypeNode perSample conflict type node
  | .nullField => nullNode node
  | .optional _ => node
  | .format _ _ => node

theorem resolve_of_settles (perSample : List Node) (tree : Node) (conflict : Conflict)
    (settled : conflict.settles? ≠ none) :
    resolve perSample tree conflict = tree.update (settling perSample conflict) conflict.path := by
  rw [settles?] at settled
  rw [resolve]
  cases resolution : conflict.resolution with
  | dataType type =>
      have same : settling perSample conflict = retypeNode perSample conflict type := by
        funext node
        simp only [settling, resolution]
      rw [same]
  | nullField =>
      have same : settling perSample conflict = nullNode := by
        funext node
        simp only [settling, resolution]
      rw [same]
  | optional isRequired => simp [resolution] at settled
  | format format action => simp [resolution] at settled

theorem type_settling (perSample : List Node) (conflict : Conflict) (type : ValueType) (node : Node)
    (settled : conflict.settles? = some type) :
    (settling perSample conflict node).type = type := by
  rw [settles?] at settled
  rw [settling]
  cases resolution : conflict.resolution with
  | dataType type' =>
      rcases retypeNode_eq perSample conflict type' node with ⟨label, same⟩
      rw [resolution] at settled
      simp only [same, type_relabel, type_retype]
      exact Option.some.inj settled
  | nullField =>
      rcases nullNode_eq node with ⟨label, same⟩
      rw [resolution] at settled
      simp only [same, type_relabel, type_retype]
      exact Option.some.inj settled
  | optional isRequired => simp [resolution] at settled
  | format format action => simp [resolution] at settled

theorem resolveAll_induction (holds : Node → Prop) (perSample : List Node)
    (conflicts : List Conflict) (tree : Node) (start : holds tree)
    (kept : ∀ conflict ∈ conflicts, ∀ tree, holds tree → holds (resolve perSample tree conflict)) :
    holds (resolveAll perSample conflicts tree) := by
  rw [resolveAll]
  induction conflicts generalizing tree with
  | nil => exact start
  | cons conflict rest ih =>
      rcases List.forall_mem_cons.mp kept with ⟨first, others⟩
      exact ih _ (first tree start) others

def AsksAt (conflict : Conflict) (path : Path) (name : String) : Prop :=
  (∃ isRequired, conflict.resolution = .optional isRequired) ∧
    conflict.path = path ++ [.property name]

section View

variable {α : Type} (view : Node → α)
  (below : ∀ change step rest node, view (node.update change (step :: rest)) = view node)

include below

/-- A resolution that settles on no type shows at most in what objects require, and one that does
shows only from its path on. -/
theorem map_get?_resolve (perSample : List Node) (tree : Node) (conflict : Conflict) (path : Path)
    (own : ∀ name, conflict.AsksAt path name → ∀ isRequired node,
      view (requireProperty name isRequired node) = view node)
    (apart : conflict.settles? = none ∨ ¬ conflict.path <+: path) :
    ((resolve perSample tree conflict).get? path).map view = (tree.get? path).map view := by
  cases settled : conflict.settles? with
  | some type =>
      have outside : ¬ conflict.path <+: path := apart.resolve_left (by simp [settled])
      rw [resolve_of_settles perSample tree conflict (by simp [settled])]
      exact map_get?_update_outside _ view below conflict.path path tree outside
  | none =>
      rw [settles?] at settled
      rw [resolve]
      cases resolution : conflict.resolution with
      | dataType type => simp [resolution] at settled
      | nullField => simp [resolution] at settled
      | format format action => rfl
      | optional isRequired =>
          cases above : conflict.path.parent? with
          | none => rfl
          | some parent =>
              cases last : conflict.path.lastName? with
              | none => rfl
              | some name =>
                  have whole := Path.eq_append_of_last above last
                  refine map_get?_update_of_steps _ view below
                    (step?_requireProperty name isRequired) parent path ?_ tree
                  intro same
                  subst same
                  exact own name ⟨⟨isRequired, resolution⟩, whole⟩ isRequired

theorem map_get?_resolveAll (perSample : List Node) (conflicts : List Conflict) (tree : Node)
    (path : Path)
    (own : ∀ conflict ∈ conflicts, ∀ name, conflict.AsksAt path name → ∀ isRequired node,
      view (requireProperty name isRequired node) = view node)
    (apart : ∀ conflict ∈ conflicts, conflict.settles? = none ∨ ¬ conflict.path <+: path) :
    ((resolveAll perSample conflicts tree).get? path).map view = (tree.get? path).map view := by
  apply resolveAll_induction
    (fun tree' => (tree'.get? path).map view = (tree.get? path).map view) perSample conflicts tree rfl
  intro conflict member tree' same
  rw [← same]
  exact map_get?_resolve view below perSample tree' conflict path (own conflict member)
    (apart conflict member)

end View

theorem isSome_get?_resolve (perSample : List Node) (tree : Node) (conflict : Conflict) (path : Path)
    (above : conflict.settles? ≠ none → conflict.path <+: path → conflict.path = path) :
    ((resolve perSample tree conflict).get? path).isSome = (tree.get? path).isSome := by
  by_cases settled : conflict.settles? = none
  · have shown := map_get?_resolve (fun _ => ()) (fun _ _ _ _ => rfl) perSample tree conflict path
      (fun _ _ _ _ => rfl) (.inl settled)
    simpa using congrArg Option.isSome shown
  · rw [resolve_of_settles perSample tree conflict settled]
    apply isSome_get?_update
    intro below
    rcases below with ⟨step, rest, same⟩
    have equal := above settled (same ▸ List.prefix_append _ _)
    have length := congrArg List.length (equal.trans same)
    simp at length

theorem isSome_get?_resolveAll (perSample : List Node) (conflicts : List Conflict) (tree : Node)
    (path : Path)
    (above : ∀ conflict ∈ conflicts, conflict.settles? ≠ none → conflict.path <+: path →
      conflict.path = path) :
    ((resolveAll perSample conflicts tree).get? path).isSome = (tree.get? path).isSome := by
  apply resolveAll_induction
    (fun tree' => (tree'.get? path).isSome = (tree.get? path).isSome) perSample conflicts tree rfl
  intro conflict member tree' same
  rw [← same]
  exact isSome_get?_resolve perSample tree' conflict path (above conflict member)

section WellFormed

variable {mixed : Prop} {perSample : List Node}
  (samples : ∀ tree ∈ perSample, tree.WellFormed mixed)

include samples

theorem settling_wellFormed (conflict : Conflict) (node : Node) (wellFormed : node.WellFormed mixed) :
    (settling perSample conflict node).WellFormed mixed := by
  rw [settling]
  split
  · rename_i type _
    rcases retypeNode_eq perSample conflict type node with ⟨label, same⟩
    rw [same]
    refine (retype_wellFormed wellFormed ?_).relabel label
    intro sample lent
    rcases template_cases lent with ⟨tree, member, present⟩
    exact (samples tree member).get? present
  · rcases nullNode_eq node with ⟨label, same⟩
    rw [same]
    exact (retype_wellFormed wellFormed (fun _ impossible => by cases impossible)).relabel label
  · exact wellFormed
  · exact wellFormed

theorem resolve_wellFormed (tree : Node) (conflict : Conflict)
    (wellFormed : tree.WellFormed mixed) :
    (resolve perSample tree conflict).WellFormed mixed := by
  by_cases settled : conflict.settles? = none
  · rw [settles?] at settled
    rw [resolve]
    split
    · rename_i resolution
      simp [resolution] at settled
    · rename_i resolution
      simp [resolution] at settled
    · split
      · rename_i parent name _ _
        refine wellFormed.update (requireProperty name _) parent ?_
        intro part inner
        cases inner with
        | object label properties required increasing children =>
            exact .object label properties _ increasing children
        | scalar label type => exact .scalar label type
        | emptyArray label => exact .emptyArray label
        | arrayOf label items inside => exact .arrayOf label items inside
        | mixedArray label allowed => exact .mixedArray label allowed
        | union label first second different former latter =>
            exact .union label first second different former latter
      · exact wellFormed
    · exact wellFormed
  · rw [resolve_of_settles perSample tree conflict settled]
    exact wellFormed.update _ conflict.path (settling_wellFormed samples conflict)

theorem resolveAll_wellFormed (conflicts : List Conflict) (tree : Node)
    (wellFormed : tree.WellFormed mixed) :
    (resolveAll perSample conflicts tree).WellFormed mixed := by
  apply resolveAll_induction (Node.WellFormed mixed) perSample conflicts tree wellFormed
  intro conflict _ tree' inner
  exact resolve_wellFormed samples tree' conflict inner

end WellFormed

end Conflict

end EventSchema
