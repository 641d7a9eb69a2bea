import EventSchema.Proofs.DegradedTrees
import EventSchema.Proofs.Runs
/-!
Whether the arrays of all samples agree once they have been compared. What lies inside a degraded
array is gone, but a sample may have an object in its place, and the arrays inside that object are
not compared with those of other samples.
-/
namespace EventSchema.Comparison

open Node

/-- Any two arrays at one path that describe their items, or are mixed, have the same shape. -/
def Homogeneous (trees : List Node) : Prop :=
  ∀ left ∈ trees, ∀ right ∈ trees, ∀ path first second, left.get? path = some first →
    right.get? path = some second → first.describesItems → second.describesItems →
      first.sameShape second = true

theorem homogeneous_iff_not_differ {mixed : Prop} {trees : List Node}
    (wellFormed : ∀ tree ∈ trees, tree.WellFormed mixed) :
    Homogeneous trees ↔ ∀ path, ¬ Differ trees path := by
  constructor
  · intro homogeneous path differing
    rcases differing with ⟨left, one, right, two, first, second, former, latter, apart⟩
    rcases (mem_arrays_iff left (wellFormed left one) path first).mp former with ⟨here, described⟩
    rcases (mem_arrays_iff right (wellFormed right two) path second).mp latter with
      ⟨there, described'⟩
    have same := homogeneous left one right two path first second here there described described'
    rw [same] at apart
    cases apart
  · intro agreed left one right two path first second here there described described'
    by_contra apart
    exact agreed path ⟨left, one, right, two, first, second,
      (mem_arrays_iff left (wellFormed left one) path first).mpr ⟨here, described⟩,
      (mem_arrays_iff right (wellFormed right two) path second).mpr ⟨there, described'⟩,
      Bool.eq_false_of_not_eq_true apart⟩

theorem compare_eq_self_iff (trees : List Node) (merged : Node) :
    compare trees merged = { perSample := trees, merged, degraded := [] } ↔
      ∀ path, ¬ Differ trees path := by
  constructor
  · intro same path differing
    rcases Path.exists_outermost _ path differing with ⟨outer, -, outermost⟩
    have member := (mem_degraded_iff trees outer).mpr outermost
    have none := congrArg Comparison.degraded same
    rw [compare_eq] at none
    simp only at none
    rw [none] at member
    cases member
  · intro agreed
    have none : divergent (observed trees) = [] := by
      rw [List.eq_nil_iff_forall_not_mem]
      intro path member
      exact agreed path ((mem_degraded_iff trees path).mp member).1
    have kept : degradeAll [] = id := rfl
    rw [compare_eq, none, kept, List.map_id]
    rfl

theorem degraded_eq_of_prefix {trees : List Node} {place other path : Path}
    (degraded : place ∈ divergent (observed trees)) (degraded' : other ∈ divergent (observed trees))
    (inside : place <+: path) (inside' : other <+: path) : place = other := by
  rcases (mem_degraded_iff trees place).mp degraded with ⟨differing, outermost⟩
  rcases (mem_degraded_iff trees other).mp degraded' with ⟨differing', outermost'⟩
  rcases List.prefix_or_prefix_of_prefix inside inside' with first | second
  · exact outermost' place first differing
  · exact (outermost other second differing').symm

section Inferred

variable {trees : List Node} (wellFormed : ∀ tree ∈ trees, tree.WellFormed False)

include wellFormed

/-- Arrays that differ after comparing are those that did before and are neither degraded nor inside
an array that is. -/
theorem differ_compare_iff (merged : Node) (path : Path) :
    Differ (compare trees merged).perSample path ↔
      Differ trees path ∧ path ∉ divergent (observed trees) ∧
        ¬ Cut (divergent (observed trees)) path := by
  have degrading := compare_wellFormed wellFormed merged
  have kept := get?_degradeAll_eq_arrayOf_iff (divergent (observed trees))
    (items_not_mem_degraded wellFormed) path
  rw [compare_eq] at degrading ⊢
  constructor
  · intro pair
    rcases pair with ⟨_, one, _, two, first, second, former, latter, apart⟩
    rcases (mem_arrays_iff _ (degrading _ one) path first).mp former with ⟨here, described⟩
    rcases (mem_arrays_iff _ (degrading _ two) path second).mp latter with ⟨there, described'⟩
    rcases List.mem_map.mp one with ⟨left, sampled, rfl⟩
    rcases List.mem_map.mp two with ⟨right, sampled', rfl⟩
    have marked := markedFrom_degradeAll _ left (wellFormed left sampled) path first here
    have marked' := markedFrom_degradeAll _ right (wellFormed right sampled') path second there
    rcases (describesItems_iff first).mp described with ⟨label, items, rfl⟩ | ⟨label, rfl⟩
    · rcases (describesItems_iff second).mp described' with ⟨label', items', rfl⟩ | ⟨label', rfl⟩
      · rcases (kept left label items).mp here with ⟨here', outside⟩
        rcases (kept right label' items').mp there with ⟨there', -⟩
        have apart' : items.sameShape items' = false := by simpa [sameShape] using apart
        exact ⟨(differ_iff_get? wellFormed path).mpr ⟨left, sampled, right, sampled', label, items,
          label', items', here', there', apart'⟩, outside⟩
      -- degraded at one place in all trees, two arrays are mixed only together
      · exact Bool.noConfusion (marked.mixed (marked'.placed rfl) rfl)
    · rcases (describesItems_iff second).mp described' with ⟨label', items', rfl⟩ | ⟨label', rfl⟩
      · exact Bool.noConfusion (marked'.mixed (marked.placed rfl) rfl)
      · simp [sameShape] at apart
  · intro pair
    rcases pair with ⟨differing, elsewhere, uncut⟩
    obtain ⟨left, one, right, two, label, items, label', items', here, there, apart⟩ :=
      (differ_iff_get? wellFormed path).mp differing
    have former := (kept left label items).mpr ⟨here, elsewhere, uncut⟩
    have latter := (kept right label' items').mpr ⟨there, elsewhere, uncut⟩
    refine ⟨_, List.mem_map_of_mem one, _, List.mem_map_of_mem two, _, _,
      (mem_arrays_iff _ (degrading _ (List.mem_map_of_mem one)) path _).mpr ⟨former, trivial⟩,
      (mem_arrays_iff _ (degrading _ (List.mem_map_of_mem two)) path _).mpr ⟨latter, trivial⟩, ?_⟩
    simpa [sameShape] using apart

/-- What has escaped comparing lies at the name of some object in the place of a degraded array. -/
theorem differ_compare_iff_property (merged : Node) :
    (∀ path, ¬ Differ (compare trees merged).perSample path) ↔
      ∀ place ∈ divergent (observed trees), ∀ name rest,
        ¬ Differ trees (place ++ .property name :: rest) := by
  simp only [differ_compare_iff wellFormed merged]
  constructor
  · intro agreed place degraded name rest differing
    refine agreed _ ⟨differing, ?_, ?_⟩
    · intro degraded'
      have same := degraded_eq_of_prefix degraded degraded' (List.prefix_append _ _) List.prefix_rfl
      have length := congrArg List.length same
      simp at length
    · intro cut
      rcases cut with ⟨other, degraded', inside⟩
      obtain rfl := degraded_eq_of_prefix degraded degraded' (List.prefix_append _ _)
        ((List.prefix_append _ _).trans inside)
      rw [List.prefix_append_right_inj] at inside
      simp [List.cons_prefix_cons] at inside
  · intro named path escaped
    rcases escaped with ⟨differing, elsewhere, uncut⟩
    rcases Path.exists_outermost _ path differing with ⟨place, ⟨rest, rfl⟩, outermost⟩
    have degraded := (mem_degraded_iff trees place).mpr outermost
    cases rest with
    | nil => exact elsewhere (by simpa using degraded)
    | cons step rest =>
        cases step with
        | items => exact uncut ⟨place, degraded, by simp [List.cons_prefix_cons]⟩
        | property name => exact named place degraded name rest differing

end Inferred

/-- Comparing once leaves nothing to degrade, and arrays of one shape at every path, unless samples
differ at the names of objects in the place of a degraded array. -/
theorem compare_homogeneous_iff (settings : Settings) (samples : List Json) (trees : List Node)
    (merged : Node) (ordered : ∀ sample ∈ samples, sample.Ordered)
    (inferred : Node.ofSamples settings samples = .ok trees) :
    let comparison := compare trees merged
    Homogeneous comparison.perSample ∧
        compare comparison.perSample comparison.merged = { comparison with degraded := [] } ↔
      ∀ place ∈ comparison.degraded, ∀ name rest,
        ¬ Differ trees (place ++ .property name :: rest) := by
  intro comparison
  have wellFormed := ofSamples_wellFormed settings samples trees ordered inferred
  rw [homogeneous_iff_not_differ (compare_wellFormed wellFormed merged)]
  rw [compare_eq_self_iff, and_self]
  exact differ_compare_iff_property wellFormed merged

/-- A single array that differs is degraded, and that is all. -/
theorem compare_homogeneous_iff_single :
    let samples := [Json.object [("a", .array [.bool true])], .object [("a", .array [.null])]]
    ∃ trees merged, (∀ sample ∈ samples, sample.Ordered) ∧ Node.ofSamples {} samples = .ok trees ∧
      Node.mergeAll? trees = some merged ∧
        (compare trees merged).degraded = [[.property "a"]] ∧
          Homogeneous (compare trees merged).perSample ∧
            compare (compare trees merged).perSample (compare trees merged).merged =
              { compare trees merged with degraded := [] } := by
  intro samples
  have ordered : ∀ sample ∈ samples, sample.Ordered := Json.ordered_of_sorted samples (by rfl)
  have finished : ∃ trees merged, Node.ofSamples {} samples = .ok trees ∧
      Node.mergeAll? trees = some merged ∧ (compare trees merged).degraded = [[.property "a"]] ∧
        ∀ tree ∈ trees, ∀ entry ∈ tree.arrays, entry.1 = [.property "a"] :=
    ⟨_, _, rfl, rfl, by decide, by decide⟩
  rcases finished with ⟨trees, merged, inferred, joined, degraded, alone⟩
  refine ⟨trees, merged, ordered, inferred, joined, degraded, ?_⟩
  refine (compare_homogeneous_iff {} samples trees merged ordered inferred).mpr ?_
  intro place member name rest differing
  rw [degraded, List.mem_singleton] at member
  subst member
  rcases differing with ⟨left, sampled, -, -, first, -, listed, -, -⟩
  have place := alone left sampled _ listed
  simp at place

/-- Where some samples have an object in the place of a degraded array, arrays in that object differ
after comparing, and comparing again degrades them. -/
theorem not_homogeneous_objects :
    let samples := [Json.object [("a", .array [.bool true])], .object [("a", .array [.null])],
      .object [("a", .object [("b", .array [.bool true])])],
      .object [("a", .object [("b", .array [.null])])]]
    ∃ trees merged, (∀ sample ∈ samples, sample.Ordered) ∧ Node.ofSamples {} samples = .ok trees ∧
      Node.mergeAll? trees = some merged ∧ ¬ Homogeneous (compare trees merged).perSample ∧
        (compare (compare trees merged).perSample (compare trees merged).merged).degraded =
          [[.property "a", .property "b"]] := by
  intro samples
  have ordered : ∀ sample ∈ samples, sample.Ordered := Json.ordered_of_sorted samples (by rfl)
  have finished : ∃ trees merged, Node.ofSamples {} samples = .ok trees ∧
      Node.mergeAll? trees = some merged ∧
        (∃ left ∈ (compare trees merged).perSample, ∃ right ∈ (compare trees merged).perSample,
          ∃ label items label' items',
            left.get? [.property "a", .property "b"] = some (.arrayOf label items) ∧
              right.get? [.property "a", .property "b"] = some (.arrayOf label' items') ∧
                items.sameShape items' = false) ∧
        (compare (compare trees merged).perSample (compare trees merged).merged).degraded =
          [[.property "a", .property "b"]] := by
    refine ⟨_, _, rfl, rfl, ⟨_, .tail _ (.tail _ (.head _)), _,
      .tail _ (.tail _ (.tail _ (.head _))), _, _, _, _, rfl, rfl, rfl⟩, by decide⟩
  rcases finished with ⟨trees, merged, inferred, joined, apart, again⟩
  refine ⟨trees, merged, ordered, inferred, joined, ?_, again⟩
  intro homogeneous
  rcases apart with ⟨left, one, right, two, label, items, label', items', here, there, different⟩
  have same := homogeneous left one right two _ _ _ here there trivial trivial
  simp [sameShape, different] at same

end EventSchema.Comparison
