import EventSchema.Proofs.Homogeneity
import EventSchema.Schema.Equality
/-!
Arrays of samples that agree but for nested arrays without items. An array without items is left out
of the comparison at its own path, yet inside an enclosing array it is compared with the arrays of
other samples like everything else, and differs from those that have items.
-/
namespace EventSchema

namespace Node

mutual

/-- Whether the shapes agree when an array without items goes with every array that is described. -/
def fits : Node → Node → Bool
  | scalar _ type, scalar _ type' => type.toValueType.family = type'.toValueType.family
  | object _ properties _, object _ properties' _ => fitsProperties properties properties'
  | emptyArray _, emptyArray _ | emptyArray _, arrayOf _ _ | arrayOf _ _, emptyArray _ => true
  | arrayOf _ items, arrayOf _ items' => fits items items'
  | mixedArray _, mixedArray _ => true
  | union _ branches, union _ branches' => fitsBranches branches branches'
  | _, _ => false
termination_by structural node => node

def fitsProperties : List (String × Node) → List (String × Node) → Bool
  | [], [] => true
  | (name, child) :: rest, (name', child') :: rest' =>
    name = name' && fits child child' && fitsProperties rest rest'
  | _, _ => false
termination_by structural properties => properties

def fitsBranches : List Node → List Node → Bool
  | [], [] => true
  | branch :: rest, branch' :: rest' => fits branch branch' && fitsBranches rest rest'
  | _, _ => false
termination_by structural branches => branches

end

/-- Somewhere within the two trees one has an array without items and the other one with items. -/
inductive Gap : Node → Node → Prop where
  | left (label label' : Label) (items : Node) : Gap (emptyArray label) (arrayOf label' items)
  | right (label label' : Label) (items : Node) : Gap (arrayOf label items) (emptyArray label')
  | property {label label' : Label} {properties properties' : List (String × Node)}
      {required required' : List String} {name : String} {child child' : Node}
      (listed : (name, child) ∈ properties) (listed' : (name, child') ∈ properties')
      (inner : Gap child child') :
      Gap (object label properties required) (object label' properties' required')
  | items {label label' : Label} {items items' : Node} (inner : Gap items items') :
      Gap (arrayOf label items) (arrayOf label' items')
  | branch {label label' : Label} {branches branches' : List Node} {branch branch' : Node}
      (aligned : (branch, branch') ∈ branches.zip branches') (inner : Gap branch branch') :
      Gap (union label branches) (union label' branches')

mutual

theorem gap_of_fits : (left right : Node) → left.fits right = true →
    left.sameShape right = false → Gap left right
  | scalar _ _, right, fitting, different => by
      cases right <;> simp only [fits, Bool.false_eq_true] at fitting
      rw [sameShape, fitting] at different
      cases different
  | object _ properties _, right, fitting, different => by
      cases right <;> simp only [fits, Bool.false_eq_true] at fitting
      rw [sameShape] at different
      obtain ⟨name, child, child', listed, listed', inner⟩ :=
        gap_of_fitsProperties properties _ fitting different
      exact .property listed listed' inner
  | emptyArray label, right, fitting, different => by
      cases right with
      | emptyArray _ => cases different
      | arrayOf label' items => exact .left label label' items
      | _ => cases fitting
  | arrayOf label items, right, fitting, different => by
      cases right with
      | emptyArray label' => exact .right label label' items
      | arrayOf label' items' => exact .items (gap_of_fits items items' fitting different)
      | _ => cases fitting
  | mixedArray _, right, fitting, different => by
      cases right with
      | mixedArray _ => cases different
      | _ => cases fitting
  | union _ branches, right, fitting, different => by
      cases right <;> simp only [fits, Bool.false_eq_true] at fitting
      rw [sameShape] at different
      obtain ⟨branch, branch', aligned, inner⟩ := gap_of_fitsBranches branches _ fitting different
      exact .branch aligned inner

theorem gap_of_fitsProperties : (properties properties' : List (String × Node)) →
    fitsProperties properties properties' = true →
      sameShapeProperties properties properties' = false →
        ∃ name child child', (name, child) ∈ properties ∧ (name, child') ∈ properties' ∧
          Gap child child'
  | [], properties', fitting, different => by
      cases properties' with
      | nil => cases different
      | cons _ _ => cases fitting
  | (name, child) :: rest, properties', fitting, different => by
      cases properties' with
      | nil => cases fitting
      | cons entry' rest' =>
          obtain ⟨name', child'⟩ := entry'
          simp only [fitsProperties, Bool.and_eq_true, decide_eq_true_eq] at fitting
          obtain ⟨⟨rfl, first⟩, later⟩ := fitting
          by_cases same : child.sameShape child' = true
          · rw [sameShapeProperties, same] at different
            obtain ⟨name', one, other, listed, listed', inner⟩ :=
              gap_of_fitsProperties rest rest' later (by simpa using different)
            exact ⟨name', one, other, .tail _ listed, .tail _ listed', inner⟩
          · have inner := gap_of_fits child child' first (Bool.eq_false_of_not_eq_true same)
            exact ⟨name, child, child', .head _, .head _, inner⟩

theorem gap_of_fitsBranches : (branches branches' : List Node) →
    fitsBranches branches branches' = true → sameShapeBranches branches branches' = false →
      ∃ branch branch', (branch, branch') ∈ branches.zip branches' ∧ Gap branch branch'
  | [], branches', fitting, different => by
      cases branches' with
      | nil => cases different
      | cons _ _ => cases fitting
  | branch :: rest, branches', fitting, different => by
      cases branches' with
      | nil => cases fitting
      | cons branch' rest' =>
          simp only [fitsBranches, Bool.and_eq_true] at fitting
          obtain ⟨first, later⟩ := fitting
          by_cases same : branch.sameShape branch' = true
          · rw [sameShapeBranches, same] at different
            obtain ⟨one, other, aligned, inner⟩ :=
              gap_of_fitsBranches rest rest' later (by simpa using different)
            exact ⟨one, other, .tail _ aligned, inner⟩
          · have inner := gap_of_fits branch branch' first (Bool.eq_false_of_not_eq_true same)
            exact ⟨branch, branch', .head _, inner⟩

end

theorem sameShape_of_mem_zip {branches branches' : List Node} {branch branch' : Node}
    (same : sameShapeBranches branches branches' = true)
    (aligned : (branch, branch') ∈ branches.zip branches') : branch.sameShape branch' = true := by
  induction branches generalizing branches' with
  | nil => cases aligned
  | cons first rest ih =>
      cases branches' with
      | nil => cases aligned
      | cons first' rest' =>
          simp only [sameShapeBranches, Bool.and_eq_true] at same
          rcases List.mem_cons.mp aligned with here | later
          · cases here
            exact same.1
          · exact ih same.2 later

theorem Gap.not_sameShape {mixed : Prop} {left right : Node} (gap : Gap left right)
    (wellFormed : left.WellFormed mixed) (wellFormed' : right.WellFormed mixed) :
    left.sameShape right = false := by
  induction gap with
  | left _ _ _ => rfl
  | right _ _ _ => rfl
  | property listed listed' _ ih =>
      cases wellFormed with
      | object _ _ _ increasing children =>
          cases wellFormed' with
          | object _ _ _ increasing' children' =>
              apply Bool.eq_false_of_not_eq_true
              intro same
              obtain ⟨child', found', same'⟩ := lookup_of_sameShapeProperties _ _ _ _ same
                (Keyed.lookup_of_mem increasing listed)
              have found := Keyed.lookup_of_mem increasing' listed'
              obtain rfl := Option.some.inj (found.symm.trans found')
              rw [ih (children _ listed) (children' _ listed')] at same'
              cases same'
  | items _ ih =>
      cases wellFormed with
      | arrayOf _ _ inner =>
          cases wellFormed' with
          | arrayOf _ _ inner' => exact ih inner inner'
  | branch aligned _ ih =>
      have one := wellFormed.branch (List.of_mem_zip aligned).1
      have other := wellFormed'.branch (List.of_mem_zip aligned).2
      apply Bool.eq_false_of_not_eq_true
      intro same
      rw [sameShape_of_mem_zip same aligned] at ih
      cases ih one other

end Node

namespace Comparison

open Node

/-- Any two arrays at one path that describe their items, or are mixed, agree but for nested arrays
without items. -/
def Fitting (trees : List Node) : Prop :=
  ∀ left ∈ trees, ∀ right ∈ trees, ∀ path first second, left.get? path = some first →
    right.get? path = some second → first.describesItems → second.describesItems →
      first.fits second = true

/-- At the path two trees have arrays with items between which there is a gap. -/
def Gapped (trees : List Node) (path : Path) : Prop :=
  ∃ left ∈ trees, ∃ right ∈ trees, ∃ label items label' items',
    left.get? path = some (.arrayOf label items) ∧
      right.get? path = some (.arrayOf label' items') ∧ Gap items items'

section Trees

variable {trees : List Node} (wellFormed : ∀ tree ∈ trees, tree.WellFormed False)

include wellFormed

theorem fitting_iff_arrays :
    Fitting trees ↔ ∀ left ∈ trees, ∀ right ∈ trees, ∀ entry ∈ left.arrays, ∀ entry' ∈ right.arrays,
      entry.1 = entry'.1 → entry.2.fits entry'.2 = true := by
  constructor
  · rintro fitting left one right two ⟨path, first⟩ listed ⟨_, second⟩ listed' rfl
    obtain ⟨here, described⟩ := (mem_arrays_iff left (wellFormed left one) path first).mp listed
    obtain ⟨there, described'⟩ :=
      (mem_arrays_iff right (wellFormed right two) path second).mp listed'
    exact fitting left one right two path first second here there described described'
  · intro fitting left one right two path first second here there described described'
    exact fitting left one right two
      (path, first) ((mem_arrays_iff left (wellFormed left one) path first).mpr ⟨here, described⟩)
      (path, second) ((mem_arrays_iff right (wellFormed right two) path second).mpr
        ⟨there, described'⟩) rfl

theorem differ_iff_gapped (fitting : Fitting trees) (path : Path) :
    Differ trees path ↔ Gapped trees path := by
  rw [differ_iff_get? wellFormed]
  constructor
  · rintro ⟨left, one, right, two, label, items, label', items', here, there, different⟩
    have around : (arrayOf label items).fits (arrayOf label' items') = true :=
      fitting left one right two path _ _ here there trivial trivial
    have inside : items.fits items' = true := by simpa [fits] using around
    exact ⟨left, one, right, two, label, items, label', items', here, there,
      gap_of_fits items items' inside different⟩
  · rintro ⟨left, one, right, two, label, items, label', items', here, there, gap⟩
    cases (wellFormed left one).get? here with
    | arrayOf _ _ inner =>
        cases (wellFormed right two).get? there with
        | arrayOf _ _ inner' =>
            exact ⟨left, one, right, two, label, items, label', items', here, there,
              gap.not_sameShape inner inner'⟩

end Trees

/-- Where the arrays of samples agree but for nested arrays without items, exactly the outermost of
those between which there is a gap are degraded, and nothing changes exactly when there is none. -/
theorem compare_fitting_iff (settings : Settings) (samples : List Json) (trees : List Node)
    (merged : Node) (ordered : ∀ sample ∈ samples, sample.Ordered)
    (inferred : Node.ofSamples settings samples = .ok trees) (fitting : Fitting trees) :
    (∀ path, path ∈ (compare trees merged).degraded ↔ Path.Outermost (Gapped trees) path) ∧
      (compare trees merged = { perSample := trees, merged, degraded := [] } ↔
        ∀ path, ¬ Gapped trees path) := by
  have wellFormed := ofSamples_wellFormed settings samples trees ordered inferred
  have same : Differ trees = Gapped trees := by
    funext path
    exact propext (differ_iff_gapped wellFormed fitting path)
  rw [← same]
  exact ⟨mem_degraded_iff trees, compare_eq_self_iff trees merged⟩

/-- Arrays without items make no difference where no sample has items in their place. -/
theorem compare_fitting_iff_agreed :
    let samples := [Json.object [("xs", .array [.array []])], .object [("xs", .array [])],
      .object [("xs", .array [.array [], .array []])]]
    ∃ trees merged, (∀ sample ∈ samples, sample.Ordered) ∧ Node.ofSamples {} samples = .ok trees ∧
      Fitting trees ∧ Node.mergeAll? trees = some merged ∧ (∀ path, ¬ Gapped trees path) ∧
        compare trees merged = { perSample := trees, merged, degraded := [] } := by
  intro samples
  have ordered : ∀ sample ∈ samples, sample.Ordered := Json.ordered_of_sorted samples (by rfl)
  have finished : ∃ trees merged, Node.ofSamples {} samples = .ok trees ∧
      Node.mergeAll? trees = some merged ∧ (compare trees merged).degraded = [] ∧
        ∀ left ∈ trees, ∀ right ∈ trees, ∀ entry ∈ left.arrays, ∀ entry' ∈ right.arrays,
          entry.1 = entry'.1 → entry.2.fits entry'.2 = true :=
    ⟨_, _, rfl, rfl, by decide, by decide⟩
  obtain ⟨trees, merged, inferred, joined, none, listed⟩ := finished
  have wellFormed := ofSamples_wellFormed {} samples trees ordered inferred
  have fitting := (fitting_iff_arrays wellFormed).mpr listed
  obtain ⟨outermost, unchanged⟩ :=
    compare_fitting_iff {} samples trees merged ordered inferred fitting
  have closed : ∀ path, ¬ Gapped trees path := by
    intro path gapped
    obtain ⟨outer, -, first⟩ := Path.exists_outermost _ path gapped
    have degraded := (outermost outer).mpr first
    rw [none] at degraded
    cases degraded
  exact ⟨trees, merged, ordered, inferred, fitting, joined, closed, unchanged.mpr closed⟩

/-- Of two arrays that agree but for a nested array without items nothing is left described. -/
theorem compare_fitting_degraded :
    let samples := [Json.object [("xs", .array [.array []])],
      .object [("xs", .array [.array [.bool true]])]]
    ∃ trees merged, (∀ sample ∈ samples, sample.Ordered) ∧ Node.ofSamples {} samples = .ok trees ∧
      Node.mergeAll? trees = some merged ∧ Fitting trees ∧
        (compare trees merged).degraded = [[.property "xs"]] ∧
          (compare trees merged).merged ≠ merged := by
  intro samples
  have ordered : ∀ sample ∈ samples, sample.Ordered := Json.ordered_of_sorted samples (by rfl)
  have finished : ∃ trees merged, Node.ofSamples {} samples = .ok trees ∧
      Node.mergeAll? trees = some merged ∧ (compare trees merged).degraded = [[.property "xs"]] ∧
        (compare trees merged).merged ≠ merged ∧
        ∀ left ∈ trees, ∀ right ∈ trees, ∀ entry ∈ left.arrays, ∀ entry' ∈ right.arrays,
          entry.1 = entry'.1 → entry.2.fits entry'.2 = true :=
    ⟨_, _, rfl, rfl, by decide, by decide, by decide⟩
  obtain ⟨trees, merged, inferred, joined, degraded, changed, listed⟩ := finished
  have wellFormed := ofSamples_wellFormed {} samples trees ordered inferred
  exact ⟨trees, merged, ordered, inferred, joined, (fitting_iff_arrays wellFormed).mpr listed,
    degraded, changed⟩

end Comparison

end EventSchema
