import EventSchema.Keyed
import EventSchema.Schema.Format
import EventSchema.Schema.Path
import EventSchema.Schema.ValueType
import Mathlib.Data.List.Lex
import Mathlib.Data.String.Basic

namespace EventSchema

theorem ValueType.rank_injective (left right : ValueType) (same : left.rank = right.rank) :
    left = right := by
  cases left <;> cases right <;> first | rfl | simp [rank] at same

theorem Format.rank_injective (left right : Format) (same : left.rank = right.rank) :
    left = right := by
  cases left <;> cases right <;> first | rfl | simp [rank] at same

instance : IsStrictTotalOrder ValueType (· < ·) where
  irrefl type := Nat.lt_irrefl type.rank
  trans _ _ _ first second := Nat.lt_trans first second
  trichotomous left right notLess notGreater :=
    left.rank_injective right (Nat.le_antisymm (Nat.not_lt.mp notGreater) (Nat.not_lt.mp notLess))

instance : IsStrictTotalOrder Format (· < ·) where
  irrefl format := Nat.lt_irrefl format.rank
  trans _ _ _ first second := Nat.lt_trans first second
  trichotomous left right notLess notGreater :=
    left.rank_injective right (Nat.le_antisymm (Nat.not_lt.mp notGreater) (Nat.not_lt.mp notLess))

namespace Step

theorem property_lt_property (left right : String) :
    (property left < property right) ↔ left < right := by
  change (decide (left < right) = true) ↔ left < right
  exact decide_eq_true_iff

theorem property_lt_items (name : String) : property name < items := rfl

theorem not_items_lt (step : Step) : ¬ items < step := Bool.false_ne_true

instance : IsStrictTotalOrder Step (· < ·) where
  irrefl step := by
    cases step with
    | property name => exact fun less => lt_irrefl name ((property_lt_property name name).mp less)
    | items => exact not_items_lt items
  trans first second third less less' := by
    cases first with
    | items => exact absurd less (not_items_lt second)
    | property name =>
        cases second with
        | items => exact absurd less' (not_items_lt third)
        | property name' =>
            cases third with
            | items => exact property_lt_items name
            | property name'' =>
                rw [property_lt_property] at less less' ⊢
                exact lt_trans less less'
  trichotomous left right notLess notGreater := by
    cases left with
    | property name =>
        cases right with
        | property name' =>
            rw [property_lt_property] at notLess notGreater
            rw [le_antisymm (not_lt.mp notGreater) (not_lt.mp notLess)]
        | items => exact absurd (property_lt_items name) notLess
    | items =>
        cases right with
        | property name' => exact absurd (property_lt_items name') notGreater
        | items => rfl

end Step

instance Path.isStrictTotalOrder : IsStrictTotalOrder Path (· < ·) :=
  have lexicographic : IsStrictTotalOrder (List Step) (List.Lex (· < ·)) :=
    { isStrictWeakOrder_of_isOrderConnected with }
  lexicographic

theorem Path.eq_or_lt_of_not_lt {first second : Path} (notGreater : ¬ second < first) :
    first = second ∨ first < second := by
  by_cases less : first < second
  · exact .inr less
  · exact .inl (Path.isStrictTotalOrder.trichotomous first second less notGreater)

theorem Path.lt_append (path : Path) (step : Step) (rest : Path) : path < path ++ step :: rest := by
  have less : path ++ [] < path ++ step :: rest := List.append_left_lt (List.nil_lt_cons step rest)
  simpa using less

theorem Path.not_prefix_of_lt (outer path : Path) (less : path < outer) : ¬ outer <+: path := by
  intro inside
  rcases inside with ⟨rest, rfl⟩
  cases rest with
  | nil => exact irrefl_of (· < ·) outer (by simpa using less)
  | cons step rest => exact asymm_of (· < ·) less (Path.lt_append outer step rest)

end EventSchema
