import EventSchema.Proofs.RepeatedMerging
import EventSchema.Proofs.Shape

namespace EventSchema.Node

theorem family_of_sameShape : (left right : Node) → left.sameShape right = true →
    left.family = right.family
  | scalar _ _, right, same => by
      cases right <;> simp only [sameShape, Bool.false_eq_true] at same
      exact of_decide_eq_true same
  | object _ _ _, right, same | emptyArray _, right, same | arrayOf _ _, right, same
  | mixedArray _, right, same => by
      cases right <;> simp only [sameShape, Bool.false_eq_true] at same
      rfl
  | union _ [], right, same => by
      cases right <;> simp only [sameShape, Bool.false_eq_true] at same
      rename_i branches
      cases branches with
      | nil => rfl
      | cons _ _ => cases same
  | union _ (first :: _), right, same => by
      cases right <;> simp only [sameShape, Bool.false_eq_true] at same
      rename_i branches
      cases branches with
      | nil => cases same
      | cons first' _ => exact family_of_sameShape first first' (Bool.and_eq_true_iff.mp same).1

theorem family_widen {older newer : ScalarType}
    (same : older.toValueType.family = newer.toValueType.family) :
    (widen older newer).toValueType.family = older.toValueType.family := by
  revert same
  cases older <;> cases newer <;> decide

theorem mergeProperties_cons {name : String} {child : Node} {rest newer : List (String × Node)}
    (greater : ∀ key ∈ Keyed.keys newer, name < key) :
    mergeProperties ((name, child) :: rest) newer =
      (name, child) :: mergeProperties rest newer := by
  induction newer generalizing rest with
  | nil => simp [mergeProperties]
  | cons entry later ih =>
      obtain ⟨key, node⟩ := entry
      obtain ⟨own, others⟩ := List.forall_mem_cons.mp greater
      have unequal : key ≠ name := own.ne'
      rw [mergeProperties, mergeProperties, ← ih others]
      simp [Keyed.alter, Keyed.insert, Keyed.lookup, unequal, not_lt_of_gt own]

theorem sameShapeProperties_keys {left right : List (String × Node)}
    (same : sameShapeProperties left right = true) : Keyed.keys left = Keyed.keys right := by
  induction left generalizing right with
  | nil => cases right <;> simp [sameShapeProperties] at same ⊢
  | cons entry rest ih =>
      cases right with
      | nil => simp [sameShapeProperties] at same
      | cons entry' rest' =>
          simp only [sameShapeProperties, Bool.and_eq_true, decide_eq_true_eq] at same
          simpa [Keyed.keys, same.1.1] using ih same.2

theorem sameShapeProperties_mergeProperties {left right : List (String × Node)}
    (increasing : Keyed.Increasing left) (same : sameShapeProperties left right = true)
    (each : ∀ entry ∈ left, ∀ entry' ∈ right, entry.2.sameShape entry'.2 = true →
      (mergeInto entry.2 entry'.2).sameShape entry.2 = true) :
    sameShapeProperties (mergeProperties left right) left = true := by
  induction left generalizing right with
  | nil =>
      cases right with
      | nil => rfl
      | cons _ _ => simp [sameShapeProperties] at same
  | cons entry rest ih =>
      cases right with
      | nil => simp [sameShapeProperties] at same
      | cons entry' rest' =>
          obtain ⟨name, child⟩ := entry
          obtain ⟨name', child'⟩ := entry'
          simp only [sameShapeProperties, Bool.and_eq_true, decide_eq_true_eq] at same
          obtain ⟨⟨rfl, head⟩, tail⟩ := same
          obtain ⟨greater, increasing'⟩ := List.pairwise_cons.mp increasing
          have merged : mergeProperties ((name, child) :: rest) ((name, child') :: rest') =
              (name, mergeInto child child') :: mergeProperties rest rest' := by
            rw [mergeProperties, ← mergeProperties_cons (sameShapeProperties_keys tail ▸ greater)]
            simp [Keyed.alter, Keyed.insert, Keyed.lookup]
          rw [merged]
          simp only [sameShapeProperties, Bool.and_eq_true, decide_true, true_and]
          refine ⟨each _ List.mem_cons_self _ List.mem_cons_self head, ih increasing' tail ?_⟩
          intro other listed other' listed'
          exact each other (List.mem_cons_of_mem _ listed) other' (List.mem_cons_of_mem _ listed')

theorem mergeBranches_of_sameShape {first second one other : Node}
    (former : first.WellFormed True) (latter : second.WellFormed True) (newer : one.WellFormed True)
    (different : first.family ≠ second.family) (different' : one.family ≠ other.family)
    (same : first.sameShape one = true) (same' : second.sameShape other = true) :
    mergeBranches [first, second] [one, other] = [mergeInto first one, mergeInto second other] := by
  have family := family_of_sameShape first one same
  have family' := family_of_sameShape second other same'
  have apart : second.family ≠ one.family := family ▸ different.symm
  rw [mergeBranches_pair former latter newer different different', absorbing, absorbing,
    if_pos family, if_neg apart, if_pos family']

/-- Merging a tree of the same shape into a tree leaves it in its shape. -/
theorem sameShape_mergeInto (target node : Node) (former : target.WellFormed True)
    (latter : node.WellFormed True) (same : target.sameShape node = true) :
    (mergeInto target node).sameShape target = true := by
  induction former generalizing node with
  | scalar own type =>
      cases latter <;> simp only [sameShape, Bool.false_eq_true] at same
      simp only [mergeInto, sameShape, decide_eq_true_eq] at same ⊢
      exact family_widen same
  | object own properties required increasing children ih =>
      cases latter <;> simp only [sameShape, Bool.false_eq_true] at same
      rename_i children'
      rw [mergeInto, sameShape]
      exact sameShapeProperties_mergeProperties increasing same fun entry listed entry' listed' =>
        ih entry listed entry'.2 (children' entry' listed')
  | emptyArray own =>
      cases latter <;> simp only [sameShape, Bool.false_eq_true] at same
      rfl
  | arrayOf own items inner ih =>
      cases latter <;> simp only [sameShape, Bool.false_eq_true] at same
      rename_i inner'
      rw [mergeInto, sameShape]
      exact ih _ inner' same
  | mixedArray own _ =>
      cases latter <;> simp only [sameShape, Bool.false_eq_true] at same
      rfl
  | union own first second different former latter' ih ih' =>
      cases latter <;> simp only [sameShape, Bool.false_eq_true] at same
      rename_i one other different' newer newer'
      simp only [sameShapeBranches, Bool.and_eq_true, and_true] at same
      obtain ⟨alike, alike'⟩ := same
      have merged :=
        mergeBranches_of_sameShape former latter' newer different different' alike alike'
      simp only [mergeInto, merged, withFormat, relabel, sameShape, sameShapeBranches,
        Bool.and_eq_true, and_true]
      exact ⟨ih one newer alike, ih' other newer' alike'⟩

/-- An integer becomes a number, in a union whose other alternative is a union itself. -/
theorem sameShape_mergeInto_union :
    let inner := union {} [scalar { format := some .date } .string, scalar {} .null]
    let properties (type : ScalarType) :=
      [("a", union {} [scalar {} type, inner]), ("b", mixedArray {})]
    let target := object {} (properties .integer) ["a"]
    let node := object {} (properties .number) ["b"]
    let merged := object {} (properties .number) ["a", "b"]
    target.WellFormed True ∧ node.WellFormed True ∧ target.sameShape node = true ∧
      mergeInto target node = merged ∧ merged.sameShape target = true := by
  intro inner properties target node merged
  have plain : inner.WellFormed True := .union _ _ _ (by decide) (.scalar _ _) (.scalar _ _)
  have wellFormed (type : ScalarType) (different : (scalar {} type).family ≠ inner.family)
      (required : List String) : (object {} (properties type) required).WellFormed True := by
    have keys : ["a", "b"].Pairwise (· < ·) := by decide
    refine .object _ _ _ keys ?_
    simp only [properties, List.forall_mem_cons]
    exact ⟨.union _ _ _ different (.scalar _ _) plain, .mixedArray _ trivial, by simp⟩
  have former : target.WellFormed True := wellFormed .integer (by decide) _
  have latter : node.WellFormed True := wellFormed .number (by decide) _
  have same : target.sameShape node = true := by decide
  have once : mergeInto target node = merged := by rfl
  exact ⟨former, latter, same, once, once ▸ sameShape_mergeInto target node former latter same⟩

end EventSchema.Node
