import EventSchema.Proofs.Finishing
import EventSchema.Proofs.Provenance
import EventSchema.Proofs.SampleValues

namespace EventSchema

namespace Node

def requires? (name : String) (node : Node) : Option Bool :=
  node.required?.map fun required => decide (name ∈ required)

def leadsTo (name : String) (node : Node) : Bool := (node.step? (.property name)).isSome

def demand (name : String) (node : Node) : Option Bool × Bool :=
  (node.requires? name, node.leadsTo name)

theorem demand_update_cons (name : String) (change : Node → Node) (step : Step) (rest : Path)
    (node : Node) : (node.update change (step :: rest)).demand name = node.demand name := by
  have leads : (node.update change (step :: rest)).leadsTo name = node.leadsTo name := by
    simp only [leadsTo]
    rw [step?_update_cons]
    split
    · rename_i same
      rw [same, Option.isSome_map]
    · rfl
  simp only [demand, requires?]
  rw [required?_update_cons, leads]

theorem demand_relabel (name : String) (label : Label) (node : Node) :
    (node.relabel label).demand name = node.demand name := by
  simp only [demand, requires?, leadsTo]
  rw [required?_relabel, step?_relabel]

theorem demand_store (name : String) (node : Node) : node.store.demand name = node.demand name := by
  simp only [demand, requires?, leadsTo]
  rw [required?_store, step?_store, Option.isSome_map]

theorem demand_forgetItems (name : String) (node : Node) :
    node.forgetItems.demand name = node.demand name := by
  cases node <;> rfl

theorem demand_requireProperty (name other : String) (isRequired : Bool) (node : Node)
    (different : name ≠ other) :
    (Conflict.requireProperty other isRequired node).demand name = node.demand name := by
  cases node with
  | object label properties required =>
      cases isRequired <;>
        simp [Conflict.requireProperty, demand, requires?, leadsTo, required?, step?, different,
          Ordered.mem_erase]
  | _ => rfl

def Declares (name : String) (node : Node) : Prop :=
  node.leadsTo name = true → node.requires? name = some true

theorem declares_congr {name : String} {node node' : Node} (declared : node.Declares name)
    (same : node.demand name = node'.demand name) : node'.Declares name := by
  rcases Prod.mk.inj same with ⟨requires, leads⟩
  intro has
  rw [← requires]
  exact declared (leads.trans has)

theorem declares_object (name : String) (label : Label) (properties : List (String × Node))
    (required : List String) :
    (object label properties required).Declares name ↔
      (name ∈ Keyed.keys properties → name ∈ required) := by
  simp [Declares, leadsTo, requires?, required?, step?, Keyed.lookup_isSome_iff]

theorem declares_of_leaf {name : String} {node : Node} (leaf : node.step? (.property name) = none) :
    node.Declares name := by
  intro has
  rw [leadsTo, leaf] at has
  cases has

theorem declares_mergeInto (name : String) (older newer : Node) (first : older.Declares name)
    (second : newer.Declares name) : (mergeInto older newer).Declares name := by
  cases newer with
  | object label properties required =>
      cases older with
      | object own properties' required' =>
          rw [declares_object] at first second
          simp only [mergeInto, declares_object]
          intro member
          rw [Ordered.mem_union]
          exact ((mem_keys_mergeProperties name properties' properties).mp member).imp first second
      | _ => exact declares_congr second rfl
  | union label branches =>
      cases older <;> exact declares_of_leaf (by simp [mergeInto, withFormat]; rfl)
  | scalar label type => cases older <;> exact declares_of_leaf rfl
  | emptyArray label => cases older <;> exact declares_of_leaf rfl
  | arrayOf label items => cases older <;> exact declares_of_leaf rfl
  | mixedArray label => cases older <;> exact declares_of_leaf rfl

theorem declares_infer {settings : Settings} {depth : Nat} {value : Json} {tree : Node}
    (inferred : infer settings depth value = .ok tree) (names : List String) (name : String)
    {node : Node} (present : tree.get? (names.map .property) = some node) : node.Declares name := by
  rcases get?_infer names inferred with ⟨-, absent⟩ | ⟨depth', part, child, -, found, read⟩
  · rw [absent] at present
    cases present
  · obtain rfl : child = node := Option.some.inj (found.symm.trans present)
    cases child with
    | object label properties required =>
        rw [declares_object, required_infer read]
        exact id
    | _ => exact declares_of_leaf rfl

end Node

namespace Conflict

open Node

variable {perSample : List Node} {conflicts : List Conflict}

/-- What is settled above an object or in its place is borrowed from a sample or stays, and samples
require the names that they have. -/
theorem resolve_declares {tree : Node} {conflict : Conflict} {path : Path} {name : String}
    (drawn : AllDrawn perSample conflicts tree)
    (noUnion : ∀ outer, outer <+: path → ¬ UnionAt perSample outer)
    (samples : ∀ sample ∈ perSample, ∀ node, sample.get? path = some node → node.Declares name)
    (other : ¬ conflict.AsksAt path name)
    (declared : ∀ node, tree.get? path = some node → node.Declares name) :
    ∀ node, (resolve perSample tree conflict).get? path = some node → node.Declares name := by
  let holds : Option Bool × Bool → Prop := fun shown => shown.2 = true → shown.1 = some true
  have own : ∀ name', conflict.AsksAt path name' → ∀ isRequired node,
      (requireProperty name' isRequired node).demand name = node.demand name := by
    intro name' asks isRequired node
    apply demand_requireProperty
    intro same
    subst same
    exact other asks
  refine resolve_kept (demand name) (demand_update_cons name) holds drawn noUnion
    samples own ?_ declared
  intro place settled node here plain
  subst place
  rcases settling_cases (fun _ => plain) with ⟨label, kept⟩ | ⟨label, lender, sampled, sample, there,
    lent⟩ | leaf
  · rw [kept]
    exact declares_congr (declared node here) (demand_relabel name label node).symm
  · rw [lent]
    exact declares_congr (samples lender sampled sample there) (demand_relabel name label sample).symm
  · exact declares_of_leaf (leaf _)

theorem resolveAll_declares {tree : Node} {path : Path} {name : String} (listed : List Conflict)
    (members : ∀ conflict ∈ listed, conflict ∈ conflicts)
    (drawn : AllDrawn perSample conflicts tree)
    (noUnion : ∀ outer, outer <+: path → ¬ UnionAt perSample outer)
    (samples : ∀ sample ∈ perSample, ∀ node, sample.get? path = some node → node.Declares name)
    (others : ∀ conflict ∈ listed, ¬ conflict.AsksAt path name)
    (declared : ∀ node, tree.get? path = some node → node.Declares name) :
    ∀ node, (resolveAll perSample listed tree).get? path = some node → node.Declares name := by
  have both := resolveAll_induction
    (fun tree => AllDrawn perSample conflicts tree ∧
      ∀ node, tree.get? path = some node → node.Declares name) perSample listed tree
    ⟨drawn, declared⟩
  refine (both ?_).2
  intro conflict member tree' former
  rcases former with ⟨drawn', declared'⟩
  exact ⟨resolve_allDrawn (members conflict member) drawn',
    resolve_declares drawn' noUnion samples (others conflict member) declared'⟩

theorem requires?_of_asked (perSample : List Node) (tree : Node) (conflict : Conflict) (path : Path)
    (name : String) (isRequired : Bool) (resolution : conflict.resolution = .optional isRequired)
    (place : conflict.path = path ++ [.property name]) (node : Node)
    (present : (resolve perSample tree conflict).get? path = some node) :
    node.requires? name = none ∨ node.requires? name = some isRequired := by
  have parent : Path.parent? conflict.path = some path := by simp [place, Path.parent?]
  have last : Path.lastName? conflict.path = some name := by simp [place, Path.lastName?]
  have applied : resolve perSample tree conflict =
      tree.update (requireProperty name isRequired) path := by
    simp only [resolve, resolution, parent, last]
  rw [applied] at present
  rcases get?_update_self _ present with ⟨old, -, rfl⟩
  cases old with
  | object label properties required =>
      cases isRequired <;> simp [requireProperty, requires?, required?, Ordered.mem_erase]
  | _ => simp [requireProperty, requires?, required?]

end Conflict

end EventSchema
