import EventSchema.Schema.Node

namespace EventSchema.Node

mutual

def same : Node → Node → Bool
  | scalar label type, other =>
    match other with
    | scalar label' type' => label = label' && type = type'
    | _ => false
  | object label properties required, other =>
    match other with
    | object label' properties' required' =>
      label = label' && sameProperties properties properties' && required = required'
    | _ => false
  | emptyArray label, other =>
    match other with
    | emptyArray label' => label = label'
    | _ => false
  | arrayOf label items, other =>
    match other with
    | arrayOf label' items' => label = label' && same items items'
    | _ => false
  | mixedArray label, other =>
    match other with
    | mixedArray label' => label = label'
    | _ => false
  | union label branches, other =>
    match other with
    | union label' branches' => label = label' && sameBranches branches branches'
    | _ => false

def sameProperties : List (String × Node) → List (String × Node) → Bool
  | [], [] => true
  | (name, child) :: rest, (name', child') :: rest' =>
    name = name' && same child child' && sameProperties rest rest'
  | _, _ => false

def sameBranches : List Node → List Node → Bool
  | [], [] => true
  | branch :: rest, branch' :: rest' => same branch branch' && sameBranches rest rest'
  | _, _ => false

end

mutual

theorem same_iff : (left right : Node) → (same left right = true ↔ left = right)
  | scalar _ _, right => by cases right <;> simp [same]
  | object _ properties _, right => by
    cases right <;> simp [same, sameProperties_iff properties, and_assoc]
  | emptyArray _, right => by cases right <;> simp [same]
  | arrayOf _ items, right => by cases right <;> simp [same, same_iff items]
  | mixedArray _, right => by cases right <;> simp [same]
  | union _ branches, right => by cases right <;> simp [same, sameBranches_iff branches]

theorem sameProperties_iff :
    (left right : List (String × Node)) → (sameProperties left right = true ↔ left = right)
  | [], right => by cases right <;> simp [sameProperties]
  | (_, child) :: rest, [] => by simp [sameProperties]
  | (_, child) :: rest, (_, _) :: _ => by
    simp [sameProperties, same_iff child, sameProperties_iff rest]

theorem sameBranches_iff :
    (left right : List Node) → (sameBranches left right = true ↔ left = right)
  | [], right => by cases right <;> simp [sameBranches]
  | branch :: rest, [] => by simp [sameBranches]
  | branch :: rest, _ :: _ => by simp [sameBranches, same_iff branch, sameBranches_iff rest]

end

instance : DecidableEq Node := fun left right => decidable_of_iff _ (same_iff left right)

end EventSchema.Node
