import EventSchema.Schema.Shape
import Mathlib.Logic.Relation
/-!
Skeletons of trees: all that comparing shapes looks at. They have an array's items and its being
validated apart, so there are skeletons of arrays that keep items nobody validates, and of single
values of any type. Two skeletons compare as the same exactly if their normal forms are equal, hence
the comparison is an equivalence, and trees are compared by their skeletons.
-/
namespace EventSchema

inductive Skeleton where
  | single (type : ValueType)
  | object (properties : List (String × Skeleton))
  | array (items : Option Skeleton) (isValidated : Bool)
  | union (branches : List Skeleton)

namespace Skeleton

mutual

def same : Skeleton → Skeleton → Bool
  | single type, single type' => type.family = type'.family
  | object properties, object properties' => sameProperties properties properties'
  | array items isValidated, array items' isValidated' =>
    isValidated = isValidated' && sameItems items items'
  | union branches, union branches' => sameBranches branches branches'
  | _, _ => false
termination_by structural skeleton => skeleton

def sameItems : Option Skeleton → Option Skeleton → Bool
  | some items, some items' => same items items'
  | none, none => true
  | _, _ => false
termination_by structural items => items

def sameProperties : List (String × Skeleton) → List (String × Skeleton) → Bool
  | [], [] => true
  | (name, child) :: rest, (name', child') :: rest' =>
    name = name' && same child child' && sameProperties rest rest'
  | _, _ => false
termination_by structural properties => properties

def sameBranches : List Skeleton → List Skeleton → Bool
  | [], [] => true
  | branch :: rest, branch' :: rest' => same branch branch' && sameBranches rest rest'
  | _, _ => false
termination_by structural branches => branches

end

mutual

/-- The skeleton with families in place of types. -/
def normal : Skeleton → Skeleton
  | single type => single type.family
  | object properties => object (normalProperties properties)
  | array items isValidated => array (normalItems items) isValidated
  | union branches => union (normalBranches branches)

def normalItems : Option Skeleton → Option Skeleton
  | none => none
  | some items => some (normal items)

def normalProperties : List (String × Skeleton) → List (String × Skeleton)
  | [] => []
  | (name, child) :: rest => (name, normal child) :: normalProperties rest

def normalBranches : List Skeleton → List Skeleton
  | [] => []
  | branch :: rest => normal branch :: normalBranches rest

end

mutual

theorem same_iff : (left right : Skeleton) → (left.same right = true ↔ left.normal = right.normal)
  | single _, right => by cases right <;> simp [same, normal]
  | object properties, right => by
      cases right <;> simp [same, normal, sameProperties_iff properties]
  | array items _, right => by
      cases right <;> simp [same, normal, sameItems_iff items, and_comm]
  | union branches, right => by cases right <;> simp [same, normal, sameBranches_iff branches]

theorem sameItems_iff : (left right : Option Skeleton) →
    (sameItems left right = true ↔ normalItems left = normalItems right)
  | none, right => by cases right <;> simp [sameItems, normalItems]
  | some items, right => by cases right <;> simp [sameItems, normalItems, same_iff items]

theorem sameProperties_iff : (left right : List (String × Skeleton)) →
    (sameProperties left right = true ↔ normalProperties left = normalProperties right)
  | [], right => by cases right <;> simp [sameProperties, normalProperties]
  | (_, child) :: rest, [] => by simp [sameProperties, normalProperties]
  | (_, child) :: rest, (_, _) :: _ => by
      simp [sameProperties, normalProperties, same_iff child, sameProperties_iff rest]

theorem sameBranches_iff : (left right : List Skeleton) →
    (sameBranches left right = true ↔ normalBranches left = normalBranches right)
  | [], right => by cases right <;> simp [sameBranches, normalBranches]
  | branch :: rest, [] => by simp [sameBranches, normalBranches]
  | branch :: rest, _ :: _ => by
      simp [sameBranches, normalBranches, same_iff branch, sameBranches_iff rest]

end

theorem same_equivalence : Equivalence fun left right : Skeleton => left.same right = true where
  refl skeleton := (same_iff skeleton skeleton).mpr rfl
  symm {left right} same := by
    rw [same_iff] at same ⊢
    exact same.symm
  trans {left middle right} same same' := by
    rw [same_iff] at same same' ⊢
    exact same.trans same'

end Skeleton

namespace Node

mutual

def skeleton : Node → Skeleton
  | scalar _ type => .single type
  | object _ properties _ => .object (skeletonProperties properties)
  | emptyArray _ => .array none true
  | arrayOf _ items => .array (some (skeleton items)) true
  | mixedArray _ => .array none false
  | union _ branches => .union (skeletonBranches branches)

def skeletonProperties : List (String × Node) → List (String × Skeleton)
  | [] => []
  | (name, child) :: rest => (name, skeleton child) :: skeletonProperties rest

def skeletonBranches : List Node → List Skeleton
  | [] => []
  | branch :: rest => skeleton branch :: skeletonBranches rest

end

mutual

theorem sameShape_eq : (left right : Node) →
    left.sameShape right = left.skeleton.same right.skeleton
  | scalar _ _, right => by cases right <;> simp [sameShape, skeleton, Skeleton.same]
  | object _ properties _, right => by
      cases right <;> simp [sameShape, skeleton, Skeleton.same, sameShapeProperties_eq properties]
  | emptyArray _, right => by
      cases right <;> simp [sameShape, skeleton, Skeleton.same, Skeleton.sameItems]
  | arrayOf _ items, right => by
      cases right <;>
        simp [sameShape, skeleton, Skeleton.same, Skeleton.sameItems, sameShape_eq items]
  | mixedArray _, right => by
      cases right <;> simp [sameShape, skeleton, Skeleton.same, Skeleton.sameItems]
  | union _ branches, right => by
      cases right <;> simp [sameShape, skeleton, Skeleton.same, sameShapeBranches_eq branches]

theorem sameShapeProperties_eq : (left right : List (String × Node)) →
    sameShapeProperties left right =
      Skeleton.sameProperties (skeletonProperties left) (skeletonProperties right)
  | [], right => by
      cases right <;> simp [sameShapeProperties, skeletonProperties, Skeleton.sameProperties]
  | (_, child) :: rest, [] => by
      simp [sameShapeProperties, skeletonProperties, Skeleton.sameProperties]
  | (_, child) :: rest, (_, _) :: _ => by
      simp [sameShapeProperties, skeletonProperties, Skeleton.sameProperties, sameShape_eq child,
        sameShapeProperties_eq rest]

theorem sameShapeBranches_eq : (left right : List Node) →
    sameShapeBranches left right =
      Skeleton.sameBranches (skeletonBranches left) (skeletonBranches right)
  | [], right => by
      cases right <;> simp [sameShapeBranches, skeletonBranches, Skeleton.sameBranches]
  | branch :: rest, [] => by simp [sameShapeBranches, skeletonBranches, Skeleton.sameBranches]
  | branch :: rest, _ :: _ => by
      simp [sameShapeBranches, skeletonBranches, Skeleton.sameBranches, sameShape_eq branch,
        sameShapeBranches_eq rest]

end

theorem sameShape_iff (left right : Node) :
    left.sameShape right = true ↔ left.skeleton.normal = right.skeleton.normal := by
  rw [sameShape_eq, Skeleton.same_iff]

/-- Having the same shape is an equivalence: of all skeletons, those of arrays with unvalidated
items included, and hence of all trees, which have the same shape exactly if their skeletons do. -/
theorem sameShape_equivalence :
    Equivalence (fun left right : Skeleton => left.same right = true) ∧
      Equivalence (fun left right : Node => left.sameShape right = true) ∧
        ∀ left right : Node, left.sameShape right = left.skeleton.same right.skeleton := by
  refine ⟨Skeleton.same_equivalence, ?_, sameShape_eq⟩
  simp only [sameShape_eq]
  exact Skeleton.same_equivalence.comap skeleton

end Node

end EventSchema
