import EventSchema.Proofs.Merging
import EventSchema.Proofs.SampleValues
/-!
Which values reach an object of the merged tree. Merging starts anew with every value of another kind,
so an object is made of the objects since the last value that is none; if none are left, the first
object of all samples lends its shape.
-/
namespace EventSchema

/-- What samples have at a place: all of their values there, and those that are merged there, because
the objects around them are. -/
structure Gathered (α : Type) where
  all : List α
  merged : List α

namespace Gathered

variable {α β : Type} (isObject : α → Bool) (child : String → α → Option α)

def latest (values : List α) : List α :=
  values.foldl (fun objects value => if isObject value then objects ++ [value] else []) []

/-- The objects that make up the object in the end. -/
def counted (place : Gathered α) : List α :=
  match latest isObject place.merged with
  | [] => (place.all.find? isObject).toList
  | objects => objects

def step (place : Gathered α) (name : String) : Gathered α where
  all := place.all.filterMap (child name)
  merged := (place.counted isObject).filterMap (child name)

def atNames (samples : List α) (names : List String) : Gathered α :=
  names.foldl (step isObject child) ⟨samples, samples⟩

theorem latest_append (values : List α) (value : α) :
    latest isObject (values ++ [value]) =
      if isObject value then latest isObject values ++ [value] else [] := by
  rw [latest, List.foldl_append]
  rfl

theorem mem_latest {values : List α} {value : α} (member : value ∈ latest isObject values) :
    value ∈ values ∧ isObject value = true := by
  induction values using List.reverseRecOn with
  | nil => cases member
  | append_singleton values last ih =>
      rw [latest_append] at member
      split at member
      · rename_i object
        rcases List.mem_append.mp member with earlier | here
        · exact ⟨List.mem_append_left [last] (ih earlier).1, (ih earlier).2⟩
        · rw [List.mem_singleton.mp here]
          exact ⟨by simp, object⟩
      · cases member

variable {isObject}

theorem counted_of_latest {place : Gathered α} (some : latest isObject place.merged ≠ []) :
    place.counted isObject = latest isObject place.merged := by
  rw [counted]
  split
  · rename_i none
    exact absurd none some
  · rfl

theorem counted_of_none {place : Gathered α} (none : latest isObject place.merged = []) :
    place.counted isObject = (place.all.find? isObject).toList := by
  rw [counted, none]

variable {child}

theorem atNames_append (samples : List α) (names : List String) (name : String) :
    atNames isObject child samples (names ++ [name]) =
      (atNames isObject child samples names).step isObject child name := by
  rw [atNames, List.foldl_append]
  rfl

theorem merged_subset (samples : List α) (names : List String) :
    (atNames isObject child samples names).merged ⊆ (atNames isObject child samples names).all := by
  induction names using List.reverseRecOn with
  | nil => exact List.Subset.refl samples
  | append_singleton names name ih =>
      have inner : ((atNames isObject child samples names).counted isObject) ⊆
          (atNames isObject child samples names).all := by
        intro value member
        by_cases none : latest isObject (atNames isObject child samples names).merged = []
        · rw [counted_of_none none] at member
          exact List.mem_of_find?_eq_some (Option.mem_toList.mp member)
        · rw [counted_of_latest none] at member
          exact ih (mem_latest isObject member).1
      rw [atNames_append]
      intro value member
      obtain ⟨outer, counted, found⟩ := List.mem_filterMap.mp member
      exact List.mem_filterMap.mpr ⟨outer, inner counted, found⟩

section Related

variable {isObject' : β → Bool} {child' : String → β → Option β} {related : α → β → Prop}
  (objects : ∀ first second, related first second → isObject first = isObject' second)

include objects

theorem forall₂_latest {first : List α} {second : List β} (each : List.Forall₂ related first second) :
    List.Forall₂ related (latest isObject first) (latest isObject' second) := by
  have folded : ∀ start start', List.Forall₂ related start start' →
      List.Forall₂ related
        (first.foldl (fun objects value => if isObject value then objects ++ [value] else []) start)
        (second.foldl (fun objects value => if isObject' value then objects ++ [value] else [])
          start') := by
    induction each with
    | nil => exact fun _ _ started => started
    | @cons one other _ _ head _ ih =>
        intro start start' started
        rw [List.foldl_cons, List.foldl_cons, objects one other head]
        apply ih
        split
        · exact List.rel_append started (.cons head .nil)
        · exact .nil
  exact folded [] [] .nil

theorem forall₂_find {first : List α} {second : List β} (each : List.Forall₂ related first second) :
    List.Forall₂ related (first.find? isObject).toList (second.find? isObject').toList := by
  induction each with
  | nil => exact .nil
  | @cons one other _ _ head _ ih =>
      rw [List.find?_cons, List.find?_cons, objects one other head]
      split
      · exact .cons head .nil
      · exact ih

theorem forall₂_counted {first : Gathered α} {second : Gathered β}
    (all : List.Forall₂ related first.all second.all)
    (merged : List.Forall₂ related first.merged second.merged) :
    List.Forall₂ related (first.counted isObject) (second.counted isObject') := by
  have latest := forall₂_latest objects merged
  by_cases none : Gathered.latest isObject first.merged = []
  · rw [none] at latest
    rw [counted_of_none none, counted_of_none (List.forall₂_nil_left_iff.mp latest)]
    exact forall₂_find objects all
  · have none' : Gathered.latest isObject' second.merged ≠ [] := by
      intro empty
      rw [empty] at latest
      exact none (List.forall₂_nil_right_iff.mp latest)
    rw [counted_of_latest none, counted_of_latest none']
    exact latest

variable (children : ∀ first second, related first second → ∀ name,
  Option.Rel related (child name first) (child' name second))

include children

theorem forall₂_atNames {first : List α} {second : List β} (each : List.Forall₂ related first second)
    (names : List String) :
    List.Forall₂ related (atNames isObject child first names).all
        (atNames isObject' child' second names).all ∧
      List.Forall₂ related (atNames isObject child first names).merged
        (atNames isObject' child' second names).merged := by
  induction names using List.reverseRecOn with
  | nil => exact ⟨each, each⟩
  | append_singleton names name ih =>
      have inner : ∀ ⦃one other⦄, related one other →
          Option.Rel related (child name one) (child' name other) :=
        fun one other known => children one other known name
      rw [atNames_append, atNames_append]
      exact ⟨List.rel_filterMap inner ih.1,
        List.rel_filterMap inner (forall₂_counted objects ih.1 ih.2)⟩

end Related

end Gathered

namespace Node

open Gathered

def gathered (trees : List Node) (names : List String) : Gathered Node :=
  atNames isObject (fun name => step? (.property name)) trees names

theorem all_gathered (trees : List Node) (names : List String) :
    (gathered trees names).all = trees.filterMap (get? (names.map .property)) := by
  induction names using List.reverseRecOn with
  | nil =>
      have same : (get? [] : Node → Option Node) = some := by
        funext node
        rfl
      rw [List.map_nil, same, List.filterMap_some]
      rfl
  | append_singleton names name ih =>
      have above : (gathered trees (names ++ [name])).all =
          (gathered trees names).all.filterMap (step? (.property name)) := by
        rw [gathered, atNames_append]
        rfl
      rw [above, ih, List.filterMap_filterMap, List.map_append]
      congr 1
      funext node
      rw [List.map_singleton, get?_append]
      congr 1
      funext child
      exact (get?_single _ child).symm

theorem merged_gathered (trees : List Node) (names : List String) (name : String) :
    (gathered trees (names ++ [name])).merged =
      ((gathered trees names).counted isObject).filterMap (step? (.property name)) := by
  rw [gathered, atNames_append]
  rfl

def mergedAt? (trees : List Node) (names : List String) : Option Node :=
  mergeAll? (gathered trees names).merged

theorem isObject_mergeInto (target node : Node) :
    (mergeInto target node).isObject = node.isObject := by
  cases node with
  | union label branches => cases target <;> simp [mergeInto, withFormat] <;> rfl
  | _ => cases target <;> rfl

theorem step?_of_not_object {node : Node} (other : node.isObject = false) (name : String) :
    node.step? (.property name) = none := by
  cases node with
  | object _ _ _ => cases other
  | _ => rfl

theorem step?_mergeInto_of_restart {target node : Node} (object : node.isObject = true)
    (other : target.isObject = false) (step : Step) :
    (mergeInto target node).step? step = node.step? step := by
  cases node with
  | object label properties required =>
      cases target with
      | object _ _ _ => cases other
      | _ => cases step <;> rfl
  | _ => cases object

theorem step?_mergeAll_latest {mixed : Prop} {trees : List Node}
    (wellFormed : ∀ tree ∈ trees, tree.WellFormed mixed) :
    (∀ merged, mergeAll? trees = some merged →
        (merged.isObject = true ↔ latest isObject trees ≠ [])) ∧
      ∀ name, (mergeAll? trees).bind (step? (.property name)) =
        mergeAll? ((latest isObject trees).filterMap (step? (.property name))) := by
  induction trees using List.reverseRecOn with
  | nil => exact ⟨fun _ found => (by cases found), fun _ => rfl⟩
  | append_singleton trees tree ih =>
      obtain ⟨kind, children⟩ :=
        ih fun other member => wellFormed other (List.mem_append_left [tree] member)
      rw [mergeAll_append, latest_append]
      cases own : tree.isObject with
      | false =>
          -- the tree takes the place of whatever was merged before, and counting starts anew
          simp only [Bool.false_eq_true, if_false, ne_eq, not_true_eq_false, iff_false,
            List.filterMap_nil]
          cases mergeAll? trees with
          | none =>
              refine ⟨fun merged same => ?_, step?_of_not_object own⟩
              rw [← Option.some.inj same, own]
              exact Bool.false_ne_true
          | some node =>
              have other : (mergeInto node tree).isObject = false := by
                rw [isObject_mergeInto, own]
              refine ⟨fun merged same => ?_, step?_of_not_object other⟩
              rw [← Option.some.inj same, other]
              exact Bool.false_ne_true
      | true =>
          simp only [if_true, ne_eq, List.append_eq_nil_iff, List.cons_ne_nil, and_false,
            not_false_eq_true, iff_true]
          cases joined : mergeAll? trees with
          | none =>
              have none : trees = [] := by
                cases trees with
                | nil => rfl
                | cons first rest => cases joined
              subst none
              refine ⟨fun merged same => Option.some.inj same ▸ own, fun name => ?_⟩
              cases child : tree.step? (.property name) <;>
                simp [Option.merge, latest, child, mergeAll?]
          | some node =>
              refine ⟨fun merged same => ?_, fun name => ?_⟩
              · rw [← Option.some.inj same, isObject_mergeInto, own]
              have inner := children name
              rw [joined, Option.bind_some] at inner
              change (mergeInto node tree).step? (.property name) = _
              rw [List.filterMap_append]
              cases before : node.isObject with
              | false =>
                  -- no object counts so far, so the tree is the first to do so
                  have restart : latest isObject trees = [] := by
                    by_contra some
                    rw [(kind node joined).mpr some] at before
                    cases before
                  rw [step?_mergeInto_of_restart own before, restart]
                  cases child : tree.step? (.property name) <;> simp [child, mergeAll?]
              | true =>
                  have admits : ∀ part : Node, part.isObject = true →
                      part.Admits (.property name) := by
                    intro part object
                    cases part with
                    | object _ _ _ => trivial
                    | _ => cases object
                  rw [(step?_mergeInto_of_admits (wellFormed tree (by simp)) (admits node before)
                    (admits tree own)).1, inner]
                  cases child : tree.step? (.property name) with
                  | none =>
                      rw [List.filterMap_cons_none child, List.filterMap_nil, List.append_nil]
                      cases mergeAll? ((latest isObject trees).filterMap _) <;> rfl
                  | some next =>
                      rw [List.filterMap_cons_some child, List.filterMap_nil, mergeAll_append]

end Node

namespace Json

/-- The objects of samples that make up the object of a schema where names lead. -/
def counted (samples : List Json) (names : List String) : List Json :=
  (Gathered.atNames isObject member? samples names).counted isObject

end Json

end EventSchema
