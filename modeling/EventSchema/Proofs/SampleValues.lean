import EventSchema.Proofs.WellFormed

namespace EventSchema.Node

variable {settings : Settings}

theorem lookup_inferMembers (name : String) (members : List (String × Json)) (depth : Nat)
    (properties : List (String × Node))
    (inferred : inferMembers settings depth members = .ok properties) :
    (Keyed.lookup name members = none ∧ Keyed.lookup name properties = none) ∨
      ∃ value child, Keyed.lookup name members = some value ∧
        Keyed.lookup name properties = some child ∧ infer settings depth value = .ok child := by
  induction members generalizing properties with
  | nil =>
      cases inferred
      exact .inl ⟨rfl, rfl⟩
  | cons member rest ih =>
      rcases member with ⟨key, value⟩
      obtain ⟨child, others, read, remaining, rfl⟩ := inferMembers_cons inferred
      by_cases here : name = key
      · exact .inr ⟨value, child, by simp [Keyed.lookup, here], by simp [Keyed.lookup, here], read⟩
      · simpa [Keyed.lookup, here] using ih others remaining

theorem step?_infer {depth : Nat} {value : Json} {node : Node} (name : String)
    (inferred : infer settings depth value = .ok node) :
    (value.member? name = none ∧ node.step? (.property name) = none) ∨
      ∃ part child, value.member? name = some part ∧ node.step? (.property name) = some child ∧
        infer settings (depth + 1) part = .ok child := by
  cases value with
  | object members =>
      rcases infer_object inferred with ⟨properties, read, rfl⟩
      exact lookup_inferMembers name members (depth + 1) properties read
  | array elements =>
      rcases infer_array inferred with ⟨items, -, rfl⟩
      cases items <;> exact .inl ⟨rfl, rfl⟩
  | number number =>
      cases bounded_eq_ok inferred
      cases number <;> exact .inl ⟨rfl, rfl⟩
  | null | bool _ | string _ =>
      cases bounded_eq_ok inferred
      exact .inl ⟨rfl, rfl⟩

theorem get?_infer {depth : Nat} {value : Json} {node : Node} (names : List String)
    (inferred : infer settings depth value = .ok node) :
    (Source.follow names value = none ∧ node.get? (names.map .property) = none) ∨
      ∃ depth' part child, Source.follow names value = some part ∧
        node.get? (names.map .property) = some child ∧ infer settings depth' part = .ok child := by
  induction names generalizing depth value node with
  | nil => exact .inr ⟨depth, value, node, rfl, rfl, inferred⟩
  | cons name names ih =>
      rw [List.map_cons, get?_cons, Source.follow]
      rcases step?_infer name inferred with ⟨absent, none⟩ | ⟨part, child, present, some, read⟩
      · exact .inl ⟨by rw [absent]; rfl, by rw [none]; rfl⟩
      · rw [present, some]
        exact ih read

theorem isSome_get?_infer {depth : Nat} {value : Json} {node : Node} (names : List String)
    (inferred : infer settings depth value = .ok node) :
    (node.get? (names.map .property)).isSome = (Source.follow names value).isSome := by
  rcases get?_infer names inferred with ⟨absent, none⟩ | ⟨_, _, _, present, some, -⟩
  · rw [absent, none]
    rfl
  · rw [present, some]
    rfl

/-- A value has one type; alternatives arise among the elements of an array. -/
theorem plain_infer {depth : Nat} {value : Json} {node : Node}
    (inferred : infer settings depth value = .ok node) : node.plainType? ≠ none := by
  cases value with
  | object members =>
      rcases infer_object inferred with ⟨properties, -, rfl⟩
      exact Option.some_ne_none _
  | array elements =>
      rcases infer_array inferred with ⟨items, -, rfl⟩
      cases items <;> exact Option.some_ne_none _
  | number number =>
      cases bounded_eq_ok inferred
      cases number <;> exact Option.some_ne_none _
  | null | bool _ | string _ =>
      cases bounded_eq_ok inferred
      exact Option.some_ne_none _

theorem type_infer {depth : Nat} {value : Json} {node : Node}
    (inferred : infer settings depth value = .ok node) : node.type = .ofValue value := by
  cases value with
  | object members =>
      obtain ⟨properties, -, rfl⟩ := infer_object inferred
      rfl
  | array elements =>
      obtain ⟨items, -, rfl⟩ := infer_array inferred
      cases items <;> rfl
  | number number =>
      cases bounded_eq_ok inferred
      cases number <;> rfl
  | null | bool _ | string _ =>
      cases bounded_eq_ok inferred
      rfl

theorem isObject_infer {depth : Nat} {value : Json} {node : Node}
    (inferred : infer settings depth value = .ok node) : value.isObject = node.isObject := by
  cases value with
  | object members =>
      rcases infer_object inferred with ⟨properties, -, rfl⟩
      rfl
  | array elements =>
      rcases infer_array inferred with ⟨items, -, rfl⟩
      cases items <;> rfl
  | number number =>
      cases bounded_eq_ok inferred
      cases number <;> rfl
  | null | bool _ | string _ =>
      cases bounded_eq_ok inferred
      rfl

theorem required_infer {depth : Nat} {value : Json} {label : Label}
    {properties : List (String × Node)} {required : List String}
    (inferred : infer settings depth value = .ok (object label properties required)) :
    required = Keyed.keys properties := by
  cases value with
  | object members =>
      rcases infer_object inferred with ⟨properties', -, same⟩
      cases same
      rfl
  | array elements =>
      rcases infer_array inferred with ⟨items, -, same⟩
      cases items <;> cases same
  | number number => cases number <;> cases bounded_eq_ok inferred
  | null | bool _ | string _ => cases bounded_eq_ok inferred

end EventSchema.Node
