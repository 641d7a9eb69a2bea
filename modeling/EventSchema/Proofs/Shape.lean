import EventSchema.Proofs.Navigation
import EventSchema.Proofs.Skeletons

namespace EventSchema.Node

theorem sameShape_self (node : Node) : node.sameShape node = true :=
  (sameShape_iff node node).mpr rfl

theorem sameShape_of_common (node left right : Node) (first : node.sameShape left = true)
    (second : node.sameShape right = true) : left.sameShape right = true := by
  rw [sameShape_iff] at first second ⊢
  exact first.symm.trans second

theorem lookup_of_sameShapeProperties (name : String) (left right : List (String × Node))
    (child : Node) (same : sameShapeProperties left right = true)
    (found : Keyed.lookup name left = some child) :
    ∃ child', Keyed.lookup name right = some child' ∧ child.sameShape child' = true := by
  induction left generalizing right with
  | nil => cases found
  | cons entry rest ih =>
      rcases entry with ⟨first, node⟩
      cases right with
      | nil => cases same
      | cons entry' rest' =>
          rcases entry' with ⟨first', node'⟩
          simp only [sameShapeProperties, Bool.and_eq_true, decide_eq_true_eq] at same
          rcases same with ⟨⟨rfl, head⟩, tail⟩
          rw [Keyed.lookup] at found ⊢
          split at found
          · rename_i here
            exact ⟨node', by simp [here], Option.some.inj found ▸ head⟩
          · rename_i elsewhere
            simpa [elsewhere] using ih rest' tail found

theorem step?_of_sameShape (step : Step) (left right child : Node)
    (same : left.sameShape right = true) (found : left.step? step = some child) :
    ∃ child', right.step? step = some child' ∧ child.sameShape child' = true := by
  cases step with
  | property name =>
      rcases (step?_property_eq_some_iff name left child).mp found with
        ⟨label, properties, required, rfl, member⟩
      cases right <;> simp only [sameShape, Bool.false_eq_true] at same
      exact lookup_of_sameShapeProperties name _ _ child same member
  | items =>
      rcases (step?_items_eq_some_iff left child).mp found with ⟨label, rfl⟩
      cases right <;> simp only [sameShape, Bool.false_eq_true] at same
      exact ⟨_, rfl, same⟩

theorem object_of_sameShape {left right : Node} (same : left.sameShape right = true)
    (object : left.plainType? = some .object) : right.plainType? = some .object := by
  cases left with
  | object _ _ _ =>
      cases right with
      | object _ _ _ => rfl
      | _ => simp [sameShape] at same
  | union _ _ => cases object
  | scalar _ type => cases type <;> cases object
  | emptyArray _ | arrayOf _ _ | mixedArray _ => cases object

theorem get?_of_sameShape (path : Path) (left right found : Node)
    (same : left.sameShape right = true) (present : left.get? path = some found) :
    ∃ found', right.get? path = some found' ∧ found.sameShape found' = true := by
  induction path generalizing left right with
  | nil => exact ⟨right, rfl, Option.some.inj present ▸ same⟩
  | cons step path ih =>
      rcases Option.bind_eq_some_iff.mp present with ⟨child, first, rest⟩
      rcases step?_of_sameShape step left right child same first with ⟨child', first', inner⟩
      rcases ih child child' inner rest with ⟨found', rest', equal⟩
      exact ⟨found', by simpa [get?_cons, first'] using rest', equal⟩

end EventSchema.Node
