import EventSchema.Proofs.Resolving
/-!
Whether a node that changes its type is of one type afterwards. It reports the new type in any case,
but a union reports the type of its first branch: where the node takes over the kind of a branch or
a sample that is a union itself, it is a union again.
-/
namespace EventSchema.Node

def fitting? (target : ValueType) (template : Option Node) : Option Node :=
  template.filter fun sample => sample.type = target && target.isStructural

/-- The node whose kind another one takes over when it changes its type: a branch of its own, else
the template. There is none where it keeps its kind or starts empty. -/
def lender? (target : ValueType) (template : Option Node) : Node → Option Node
  | union _ branches => (branches.find? (·.type = target)).or (fitting? target template)
  | node => if node.type = target then none else fitting? target template

theorem startingShape_eq (target : ValueType) (template : Option Node) :
    startingShape target template = (fitting? target template).getD (ofType target) := by
  cases template with
  | none => rfl
  | some sample =>
      rw [startingShape, fitting?, Option.filter_some]
      split <;> rfl

theorem plainType?_startingShape (target : ValueType) (template : Option Node) :
    (startingShape target template).plainType? =
      (fitting? target template).elim (some target) plainType? := by
  rw [startingShape_eq]
  cases fitting? target template with
  | none => exact plainType?_ofType target
  | some sample => rfl

theorem lender?_of_plain (target : ValueType) (template : Option Node) (node : Node)
    (plain : node.plainType? = some node.type) :
    node.lender? target template =
      if node.type = target then none else fitting? target template := by
  cases node with
  | union _ _ => cases plain
  | _ => rfl

theorem plainType?_retype (target : ValueType) (template : Option Node) (node : Node) :
    (node.retype target template).plainType? =
      (node.lender? target template).elim (some target) plainType? := by
  have kept := retype_of_plain target template node
  have lent := lender?_of_plain target template node
  cases node with
  | union label branches =>
      rw [retype_union, lender?]
      cases branches.find? (·.type = target) with
      | some branch => exact plainType?_relabel _ branch
      | none => rw [plainType?_relabel, plainType?_startingShape, Option.none_or]
  | _ =>
      rw [kept rfl, lent rfl]
      split
      · rename_i same
        rw [Option.elim_none, ← same]
        rfl
      · rw [plainType?_relabel, plainType?_startingShape]

/-- After a change of type a node reports the new type. It is of that type, and no union, exactly
when the branch or sample whose kind it takes over is none. -/
theorem retype_plain_iff (target : ValueType) (template : Option Node) (node : Node) :
    (node.retype target template).type = target ∧
      ((node.retype target template).plainType? = some target ↔
        ∀ lender, node.lender? target template = some lender → lender.plainType? ≠ none) := by
  have reported := type_retype target template node
  refine ⟨reported, ?_⟩
  rw [plainType?_eq_some_iff, and_iff_left reported, plainType?_retype]
  cases node.lender? target template <;> simp

/-- A union stays one where its branch of the new type is a union, and a scalar becomes one where
the template is. -/
theorem retype_not_plain :
    let mixed := union {} [union {} [scalar {} .string, scalar {} .null], object {} [] []]
    let template := union {} [object {} [] [], scalar {} .null]
    mixed.retype .string none = union {} [scalar {} .string, scalar {} .null] ∧
      (scalar {} .string).retype .object (some template) = template :=
  ⟨rfl, rfl⟩

end EventSchema.Node
