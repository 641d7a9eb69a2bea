import EventSchema.Schema.Node

namespace EventSchema.Node

mutual

def sameShape : Node → Node → Bool
  | scalar _ type, scalar _ type' => type.toValueType.family = type'.toValueType.family
  | object _ properties _, object _ properties' _ => sameShapeProperties properties properties'
  | emptyArray _, emptyArray _ => true
  | arrayOf _ items, arrayOf _ items' => sameShape items items'
  | mixedArray _, mixedArray _ => true
  | union _ branches, union _ branches' => sameShapeBranches branches branches'
  | _, _ => false
termination_by structural node => node

def sameShapeProperties : List (String × Node) → List (String × Node) → Bool
  | [], [] => true
  | (name, child) :: rest, (name', child') :: rest' =>
    name = name' && sameShape child child' && sameShapeProperties rest rest'
  | _, _ => false
termination_by structural properties => properties

def sameShapeBranches : List Node → List Node → Bool
  | [], [] => true
  | branch :: rest, branch' :: rest' => sameShape branch branch' && sameShapeBranches rest rest'
  | _, _ => false
termination_by structural branches => branches

end

end EventSchema.Node
