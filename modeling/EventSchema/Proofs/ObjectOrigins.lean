import EventSchema.Proofs.Demands
import EventSchema.Proofs.Representation
import EventSchema.Proofs.Surveys

namespace EventSchema

namespace Node

/-- A path leads to a node of which something holds, through the alternatives of unions as well. -/
inductive Reaches (holds : Node → Prop) : Path → Node → Prop where
  | here {node : Node} (own : holds node) : Reaches holds [] node
  | step {node child : Node} {path : Path} (step : Step) (next : node.step? step = some child)
      (inner : Reaches holds path child) : Reaches holds (step :: path) node
  | branch {path : Path} {node : Node} (label : Label) (branches : List Node)
      (member : node ∈ branches) (inner : Reaches holds path node) :
      Reaches holds path (union label branches)

def Requires (name : String) (node : Node) : Prop := node.requires? name = some true

theorem requires_object (name : String) (label : Label) (properties : List (String × Node))
    (required : List String) : (object label properties required).Requires name ↔ name ∈ required := by
  simp [Requires, requires?, required?]

theorem not_requires_of_plain {name : String} {node : Node} (other : node.isObject = false) :
    ¬ node.Requires name := by
  cases node with
  | object _ _ _ => cases other
  | _ => simp [Requires, requires?, required?]

namespace Reaches

variable {holds : Node → Prop} {path : Path} {node : Node}

theorem of_get? {outer : Path} {tree : Node} (present : tree.get? outer = some node)
    (inner : Reaches holds path node) : Reaches holds (outer ++ path) tree := by
  induction outer generalizing tree with
  | nil => exact Option.some.inj present ▸ inner
  | cons step outer ih =>
      obtain ⟨child, next, rest⟩ := Option.bind_eq_some_iff.mp present
      exact .step step next (ih rest)

theorem of_leaf (reaches : Reaches holds path node) (plain : node.plainType? ≠ none)
    (leaf : ∀ step, node.step? step = none) : holds node := by
  cases reaches with
  | here own => exact own
  | step step next _ =>
      rw [leaf] at next
      cases next
  | branch _ _ _ _ => exact absurd rfl plain

theorem of_relabel {label : Label}
    (relabelled : ∀ label part, holds (part.relabel label) → holds part)
    (reaches : Reaches holds path (node.relabel label)) : Reaches holds path node := by
  generalize same : node.relabel label = changed at reaches
  cases reaches with
  | here own => exact .here (relabelled label node (same ▸ own))
  | step step next inner =>
      rw [← same, step?_relabel] at next
      exact .step step next inner
  | branch _ branches member inner =>
      cases node with
      | union own former =>
          obtain ⟨-, rfl⟩ := Node.union.inj same
          exact .branch own former member inner
      | _ => cases same

theorem of_update {change : Node → Node} {place : Path} {tree : Node}
    (below : ∀ step rest part, holds (part.update change (step :: rest)) → holds part)
    (reaches : Reaches holds path (tree.update change place)) :
    Reaches holds path tree ∨ ∃ rest node, path = place ++ rest ∧ tree.get? place = some node ∧
      Reaches holds rest (change node) := by
  induction place generalizing path tree with
  | nil => exact .inr ⟨path, tree, rfl, rfl, reaches⟩
  | cons step place ih =>
      generalize same : tree.update change (step :: place) = changed at reaches
      cases reaches with
      | here own => exact .inl (.here (below step place tree (same ▸ own)))
      | @step _ child path step' next inner =>
          rw [← same, step?_update_cons] at next
          split at next
          · rename_i equal
            subst equal
            obtain ⟨former, found, rfl⟩ := Option.map_eq_some_iff.mp next
            rcases ih inner with before | ⟨rest, node, rfl, present, after⟩
            · exact .inl (.step _ found before)
            · refine .inr ⟨rest, node, rfl, ?_, after⟩
              rw [get?_cons, found]
              exact present
          · exact .inl (.step step' next inner)
      | branch label branches member inner =>
          rcases update_cons_cases change step place tree with kept | ⟨_, _, _, _, -, other⟩ |
            ⟨_, _, _, -, other⟩
          · rw [← kept, same]
            exact .inl (.branch label branches member inner)
          · cases same.symm.trans other
          · cases same.symm.trans other

end Reaches

section Requires

variable {name : String}

theorem requires_of_relabel (label : Label) (part : Node)
    (requires : (part.relabel label).Requires name) : part.Requires name := by
  have same := (Prod.mk.inj (demand_relabel name label part)).1
  rwa [Requires, same] at requires

theorem requires_of_update_cons (change : Node → Node) (step : Step) (rest : Path) (part : Node)
    (requires : (part.update change (step :: rest)).Requires name) : part.Requires name := by
  have same := (Prod.mk.inj (demand_update_cons name change step rest part)).1
  rwa [Requires, same] at requires

theorem reaches_mergeBranches {holds : Node → Prop} {path : Path} {target newer : List Node}
    (merged : ∀ branch ∈ newer, ∀ older, Reaches holds path (mergeInto older branch) →
      Reaches holds path older ∨ Reaches holds path branch)
    {part : Node} (member : part ∈ mergeBranches target newer) (reaches : Reaches holds path part) :
    ∃ branch, (branch ∈ target ∨ branch ∈ newer) ∧ Reaches holds path branch := by
  induction newer generalizing target with
  | nil =>
      rw [mergeBranches] at member
      exact ⟨part, .inl member, reaches⟩
  | cons branch rest ih =>
      obtain ⟨first, others⟩ := List.forall_mem_cons.mp merged
      rw [mergeBranches] at member
      obtain ⟨found, either, inner⟩ := ih others member
      rcases either with former | later
      · rcases mem_absorb former with old | rfl | ⟨present, listed, rfl⟩
        · exact ⟨found, .inl old, inner⟩
        · exact ⟨found, .inr List.mem_cons_self, inner⟩
        · rcases first present inner with older | newer
          · exact ⟨present, .inl listed, older⟩
          · exact ⟨branch, .inr List.mem_cons_self, newer⟩
      · exact ⟨found, .inr (List.mem_cons_of_mem branch later), inner⟩

theorem requires_mergeInto {target node : Node} (requires : (mergeInto target node).Requires name) :
    target.Requires name ∨ node.Requires name := by
  cases node with
  | object label properties required =>
      cases target with
      | object own properties' required' =>
          simp only [mergeInto, requires_object, Ordered.mem_union] at requires ⊢
          exact requires
      | _ => exact .inr requires
  | union label branches =>
      cases target <;>
        exact absurd requires (not_requires_of_plain (by simp [mergeInto, withFormat]; rfl))
  | _ => cases target <;> exact absurd requires (not_requires_of_plain rfl)

section Merged

variable {mixed : Prop} {path : Path}
  (below : ∀ step rest, path = step :: rest → ∀ older newer : Node, newer.WellFormed mixed →
    Reaches (Requires name) rest (mergeInto older newer) →
      Reaches (Requires name) rest older ∨ Reaches (Requires name) rest newer)

include below

theorem reaches_mergeInto_of_plain {target node : Node} (wellFormed : node.WellFormed mixed)
    (plain : node.plainType? ≠ none) (reaches : Reaches (Requires name) path (mergeInto target node)) :
    Reaches (Requires name) path target ∨ Reaches (Requires name) path node := by
  generalize same : mergeInto target node = merged at reaches
  cases reaches with
  | here own => exact (requires_mergeInto (same ▸ own)).imp .here .here
  | @step _ child path step next inner =>
      rw [← same] at next
      rcases step?_mergeInto_cases wellFormed next with older | newer |
        ⟨older, newer, former, latter, rfl⟩
      · exact .inl (.step step older inner)
      · exact .inr (.step step newer inner)
      · exact (below step path rfl older newer (wellFormed.step? latter) inner).imp (.step step former)
          (.step step latter)
  | branch label branches member inner =>
      cases node with
      | union _ _ => exact absurd rfl plain
      | _ => cases target <;> cases same

theorem reaches_mergeInto_of_below {target node : Node} (wellFormed : node.WellFormed mixed)
    (reaches : Reaches (Requires name) path (mergeInto target node)) :
    Reaches (Requires name) path target ∨ Reaches (Requires name) path node := by
  have whole := wellFormed
  induction wellFormed generalizing target with
  | union label first second different former latter one other =>
      cases target with
      | union own branches =>
          simp only [mergeInto, withFormat] at reaches
          have unlabelled := reaches.of_relabel requires_of_relabel
          cases unlabelled with
          | here own => exact absurd own (not_requires_of_plain rfl)
          | step step next _ => cases step <;> cases next
          | branch _ _ member inner =>
              have merged : ∀ branch ∈ [first, second], ∀ older,
                  Reaches (Requires name) path (mergeInto older branch) →
                    Reaches (Requires name) path older ∨ Reaches (Requires name) path branch := by
                intro branch listed older inner
                rcases List.mem_pair.mp listed with rfl | rfl
                · exact one inner former
                · exact other inner latter
              obtain ⟨found, either, inner⟩ := reaches_mergeBranches merged member inner
              exact either.imp (fun old => .branch _ _ old inner) (fun new => .branch _ _ new inner)
      | _ =>
          simp only [mergeInto, withFormat] at reaches
          have unlabelled := reaches.of_relabel requires_of_relabel
          exact .inr (Reaches.of_relabel requires_of_relabel unlabelled)
  | _ => exact reaches_mergeInto_of_plain below whole (Option.some_ne_none _) reaches

end Merged

theorem reaches_mergeInto {mixed : Prop} {path : Path} {target node : Node}
    (wellFormed : node.WellFormed mixed)
    (reaches : Reaches (Requires name) path (mergeInto target node)) :
    Reaches (Requires name) path target ∨ Reaches (Requires name) path node := by
  induction path generalizing target node with
  | nil => exact reaches_mergeInto_of_below (fun _ _ none => by cases none) wellFormed reaches
  | cons step path ih =>
      apply reaches_mergeInto_of_below _ wellFormed reaches
      intro step' rest same older newer inner
      obtain ⟨-, rfl⟩ := List.cons.inj same
      exact ih inner

theorem reaches_mergeAll {mixed : Prop} {path : Path} {trees : List Node} {merged : Node}
    (wellFormed : ∀ tree ∈ trees, tree.WellFormed mixed) (joined : mergeAll? trees = some merged)
    (reaches : Reaches (Requires name) path merged) :
    ∃ tree ∈ trees, Reaches (Requires name) path tree := by
  induction trees using List.reverseRecOn generalizing merged with
  | nil => cases joined
  | append_singleton trees tree ih =>
      rw [mergeAll_append] at joined
      cases former : mergeAll? trees with
      | none =>
          rw [former] at joined
          exact ⟨tree, by simp, Option.some.inj joined ▸ reaches⟩
      | some node =>
          rw [former] at joined
          obtain rfl : mergeInto node tree = merged := Option.some.inj joined
          rcases reaches_mergeInto (wellFormed tree (by simp)) reaches with older | newer
          · obtain ⟨found, listed, inner⟩ :=
              ih (fun other member => wellFormed other (List.mem_append_left [tree] member)) former older
            exact ⟨found, List.mem_append_left [tree] listed, inner⟩
          · exact ⟨tree, by simp, newer⟩

theorem reaches_degradeAll {places : List Path} {path : Path} {tree : Node}
    (reaches : Reaches (Requires name) path (tree.degradeAll places)) :
    Reaches (Requires name) path tree := by
  rw [degradeAll] at reaches
  induction places generalizing tree with
  | nil => exact reaches
  | cons place rest ih =>
      have former := ih reaches
      simp only [degrade_eq_update] at former
      rcases former.of_update (requires_of_update_cons _) with before | ⟨rest, node, rfl, present, inner⟩
      · exact before
      · apply Reaches.of_get? present
        cases node with
        | scalar _ _ | object _ _ _ | union _ _ => exact inner
        | _ =>
            have own := inner.of_leaf (Option.some_ne_none _) fun step => by cases step <;> rfl
            exact absurd own (not_requires_of_plain rfl)

theorem reaches_store {path : Path} {node : Node} (reaches : Reaches (Requires name) path node.store) :
    Reaches (Requires name) path node := by
  generalize same : node.store = stored at reaches
  induction reaches generalizing node with
  | here own =>
      apply Reaches.here
      rw [← same, Requires] at own
      rwa [Requires, requires?, ← required?_store]
  | step step next _ ih =>
      rw [← same, step?_store] at next
      obtain ⟨child, found, stored⟩ := Option.map_eq_some_iff.mp next
      exact .step step found (ih stored)
  | branch label branches member _ ih =>
      cases node with
      | union own former =>
          rw [store, storeBranches_eq_map] at same
          obtain ⟨-, rfl⟩ := Node.union.inj same
          obtain ⟨branch, listed, stored⟩ := List.mem_map.mp member
          exact .branch own former listed (ih stored)
      | _ => cases same

end Requires

end Node

namespace Conflict

open Node

variable {perSample : List Node} {name : String} {path : Path}

/-- A node that is settled reaches what it did before, or what a sample reaches. -/
theorem reaches_settling {conflict : Conflict} {node : Node}
    (reaches : Reaches (Requires name) path (settling perSample conflict node)) :
    Reaches (Requires name) path node ∨
      ∃ tree ∈ perSample, Reaches (Requires name) (conflict.path ++ path) tree := by
  have retyped : ∀ type template, (∀ sample, template = some sample →
      ∃ tree ∈ perSample, tree.get? conflict.path = some sample) →
      Reaches (Requires name) path (node.retype type template) →
        Reaches (Requires name) path node ∨
          ∃ tree ∈ perSample, Reaches (Requires name) (conflict.path ++ path) tree := by
    intro type template lender inner
    rcases retype_cases type template node with ⟨same, -⟩ |
      ⟨label, branches, branch, _, rfl, member, -, same⟩ | ⟨sample, _, lent, -, same⟩ | ⟨_, same⟩
    · exact .inl (same ▸ inner)
    · rw [same] at inner
      exact .inl (.branch label branches member (inner.of_relabel requires_of_relabel))
    · rw [same] at inner
      obtain ⟨tree, sampled, present⟩ := lender sample lent
      exact .inr ⟨tree, sampled, .of_get? present (inner.of_relabel requires_of_relabel)⟩
    · rw [same] at inner
      have own := (inner.of_relabel requires_of_relabel).of_leaf
        (by rw [plainType?_ofType]; exact Option.some_ne_none type) (step?_ofType type)
      cases type <;> simp [Requires, requires?, required?, ofType] at own
  rw [settling] at reaches
  split at reaches
  · rename_i type _
    obtain ⟨label, same⟩ := retypeNode_eq perSample conflict type node
    rw [same] at reaches
    exact retyped type _ (fun sample => template_cases) (reaches.of_relabel requires_of_relabel)
  · obtain ⟨label, same⟩ := nullNode_eq node
    rw [same] at reaches
    exact retyped .null none (by simp) (reaches.of_relabel requires_of_relabel)
  · exact .inl reaches
  · exact .inl reaches

theorem reaches_requireProperty {other : String} {isRequired : Bool} {node : Node}
    (reaches : Reaches (Requires name) path (requireProperty other isRequired node)) :
    Reaches (Requires name) path node ∨ path = [] ∧ isRequired = true ∧ other = name := by
  cases node with
  | object label properties required =>
      cases reaches with
      | here own =>
          rw [requireProperty, requires_object] at own
          cases isRequired with
          | false => exact .inl (.here ((requires_object _ _ _ _).mpr
              ((Ordered.mem_erase other name required).mp own).1))
          | true =>
              rcases (Ordered.mem_insert other name required).mp own with same | old
              · exact .inr ⟨rfl, rfl, same.symm⟩
              · exact .inl (.here ((requires_object _ _ _ _).mpr old))
      | step step next inner =>
          rw [step?_requireProperty] at next
          exact .inl (.step step next inner)
  | _ => exact .inl reaches

theorem reaches_resolve {tree : Node} {conflict : Conflict}
    (reaches : Reaches (Requires name) path (resolve perSample tree conflict)) :
    Reaches (Requires name) path tree ∨ (∃ sample ∈ perSample, Reaches (Requires name) path sample) ∨
      conflict.resolution = .optional true ∧ conflict.path = path ++ [.property name] := by
  by_cases settled : conflict.settles? = none
  · rw [settles?] at settled
    rw [resolve] at reaches
    cases resolution : conflict.resolution with
    | dataType type => simp [resolution] at settled
    | nullField => simp [resolution] at settled
    | format format action => exact .inl (by simpa only [resolution] using reaches)
    | optional isRequired =>
        simp only [resolution] at reaches
        split at reaches
        · rename_i parent last above here
          rcases reaches.of_update (requires_of_update_cons _) with before |
            ⟨rest, node, rfl, present, inner⟩
          · exact .inl before
          · rcases reaches_requireProperty inner with before | ⟨rfl, rfl, rfl⟩
            · exact .inl (.of_get? present before)
            · rw [List.append_nil]
              exact .inr (.inr ⟨rfl, Path.eq_append_of_last above here⟩)
        · exact .inl reaches
  · rw [resolve_of_settles perSample tree conflict settled] at reaches
    rcases reaches.of_update (requires_of_update_cons _) with before | ⟨rest, node, rfl, present, inner⟩
    · exact .inl before
    · rcases reaches_settling inner with former | borrowed
      · exact .inl (.of_get? present former)
      · exact .inr (.inl borrowed)

theorem reaches_annotateAll {conflicts : List Conflict} {tree : Node}
    (reaches : Reaches (Requires name) path (annotateAll conflicts tree)) :
    Reaches (Requires name) path tree := by
  rw [annotateAll] at reaches
  induction conflicts generalizing tree with
  | nil => exact reaches
  | cons conflict rest ih =>
      rcases (ih reaches).of_update (requires_of_update_cons _) with before |
        ⟨rest, node, rfl, present, inner⟩
      · exact before
      · exact .of_get? present (inner.of_relabel requires_of_relabel)

end Conflict

namespace Run

open Conflict Node

/-- A name that an object of the finished schema requires is required by a sample's tree at the same
path, or a conflict has asked for it. -/
theorem requires_cases {run : Run} (regular : run.Regular) {path : Path} {name : String}
    (reaches : Reaches (Requires name) path run.stored) :
    (∃ tree ∈ run.inferred, Reaches (Requires name) path tree) ∨
      ∃ conflict ∈ run.conflicts, conflict.resolution = .optional true ∧
        conflict.path = path ++ [.property name] := by
  have resolved : Reaches (Requires name) path run.resolved := by
    rw [regular.stored, mapTypes] at reaches
    exact reaches_annotateAll (reaches_store (reaches.of_relabel requires_of_relabel))
  rw [regular.resolved] at resolved
  have samples : ∀ sample ∈ run.comparison.perSample, Reaches (Requires name) path sample →
      ∃ tree ∈ run.inferred, Reaches (Requires name) path tree := by
    intro sample sampled inner
    obtain ⟨former, inferred, rfl⟩ := (mem_perSample regular sample).mp sampled
    exact ⟨former, inferred, reaches_degradeAll inner⟩
  refine resolveAll_induction (fun tree => Reaches (Requires name) path tree → _) _ _ _ ?_ ?_ resolved
  · intro start
    rw [regular.compared, Comparison.compare_eq] at start
    exact .inl (reaches_mergeAll regular.wellFormed regular.joined (reaches_degradeAll start))
  · intro conflict member tree former inner
    rcases reaches_resolve inner with before | ⟨sample, sampled, borrowed⟩ | asked
    · exact former before
    · exact .inl (samples sample sampled borrowed)
    · exact .inr ⟨conflict, member, asked⟩

end Run

end EventSchema
