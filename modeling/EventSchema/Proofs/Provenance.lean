import EventSchema.Proofs.Degrading
import EventSchema.Proofs.Merging
import EventSchema.Proofs.Resolving
/-!
Where the nodes of a tree come from while conflicts are resolved: a sample has a node of that kind
at the path, or a conflict there has settled its type. Nodes under a union that some sample has are
left out, for a union that collapses brings up nodes of its branches.
-/
namespace EventSchema.Conflict

def UnionAt (perSample : List Node) (path : Path) : Prop :=
  ∃ tree ∈ perSample, ∃ node, tree.get? path = some node ∧ node.plainType? = none

def Clear (perSample : List Node) (conflicts : List Conflict) (path : Path) : Prop :=
  ∀ conflict ∈ conflicts, (∃ type, conflict.resolution = .dataType type) →
    conflict.path <+: path → conflict.path ≠ path → ¬ UnionAt perSample conflict.path

def Drawn (perSample : List Node) (conflicts : List Conflict) (path : Path) (node : Node) : Prop :=
  (∃ tree ∈ perSample, ∃ found, tree.get? path = some found ∧
      found.plainType? = node.plainType?) ∨
    (∃ conflict ∈ conflicts, conflict.path = path ∧ conflict.settles? ≠ none) ∧
      (node.plainType? = none → UnionAt perSample path)

/-- The invariant of resolving: every node under no collapsed union is drawn from a sample or
settled by a conflict. -/
def AllDrawn (perSample : List Node) (conflicts : List Conflict) (tree : Node) : Prop :=
  ∀ path node, Clear perSample conflicts path → tree.get? path = some node →
    Drawn perSample conflicts path node

variable {perSample : List Node} {conflicts : List Conflict}

theorem Clear.of_prefix {outer path : Path} (clear : Clear perSample conflicts path)
    (inside : outer <+: path) : Clear perSample conflicts outer := by
  intro conflict member typed above different
  refine clear conflict member typed (above.trans inside) ?_
  intro same
  subst same
  exact different (above.eq_of_length (Nat.le_antisymm above.length_le inside.length_le))

theorem Drawn.congr {path : Path} {node node' : Node} (drawn : Drawn perSample conflicts path node)
    (same : node.plainType? = node'.plainType?) : Drawn perSample conflicts path node' := by
  rw [Drawn] at drawn ⊢
  rwa [same] at drawn

theorem Drawn.unionAt {path : Path} {node : Node} (drawn : Drawn perSample conflicts path node)
    (union : node.plainType? = none) : UnionAt perSample path := by
  rcases drawn with ⟨tree, member, found, present, same⟩ | ⟨-, settled⟩
  · exact ⟨tree, member, found, present, same.trans union⟩
  · exact settled union

theorem plainType?_settling {conflict : Conflict} {node : Node}
    (union : (settling perSample conflict node).plainType? = none) :
    node.plainType? = none ∨ UnionAt perSample conflict.path := by
  by_contra plain
  rcases not_or.mp plain with ⟨notUnion, noneAt⟩
  rw [settling] at union
  split at union
  · rename_i type _
    rcases retypeNode_eq perSample conflict type node with ⟨label, same⟩
    rw [same, Node.plainType?_relabel] at union
    refine Node.plain_retype notUnion ?_ union
    intro sample lent shown
    rcases template_cases lent with ⟨tree, member, present⟩
    exact noneAt ⟨tree, member, sample, present, shown⟩
  · rcases nullNode_eq node with ⟨label, same⟩
    rw [same, Node.plainType?_relabel] at union
    exact Node.plain_retype notUnion (fun _ impossible => by cases impossible) union
  · exact notUnion union
  · exact notUnion union

/-- A settled node is up to its label the one before or a sample's, or leads nowhere, unless a
conflict between types has met a union. -/
theorem settling_cases {conflict : Conflict} {node : Node}
    (plain : (∃ type, conflict.resolution = .dataType type) → node.plainType? ≠ none) :
    (∃ label, settling perSample conflict node = node.relabel label) ∨
      (∃ label, ∃ tree ∈ perSample, ∃ sample, tree.get? conflict.path = some sample ∧
        settling perSample conflict node = sample.relabel label) ∨
      ∀ step, (settling perSample conflict node).step? step = none := by
  rw [settling]
  split
  · rename_i type resolution
    rcases retypeNode_eq perSample conflict type node with ⟨label, same⟩
    rw [same]
    rcases Node.retype_cases type (template? perSample conflict.path type) node with
      ⟨kept, -⟩ | ⟨_, _, _, _, rfl, -⟩ | ⟨sample, label', lent, -, borrowed⟩ | ⟨label', empty⟩
    · exact .inl ⟨label, by rw [kept]⟩
    · exact absurd rfl (plain ⟨type, resolution⟩)
    · rcases template_cases lent with ⟨tree, member, here⟩
      exact .inr (.inl ⟨label, tree, member, sample, here,
        by rw [borrowed, Node.relabel_relabel]⟩)
    · refine .inr (.inr fun step => ?_)
      rw [empty, Node.step?_relabel, Node.step?_relabel, Node.step?_ofType]
  · rcases nullNode_eq node with ⟨label, same⟩
    refine .inr (.inr fun step => ?_)
    rw [same, Node.step?_relabel]
    exact Node.step?_of_type_null _ step (Node.type_retype .null none node)
  · exact .inl ⟨node.label, (Node.relabel_label node).symm⟩
  · exact .inl ⟨node.label, (Node.relabel_label node).symm⟩

section Kept

variable {α : Type} (view : Node → α)
  (below : ∀ change step rest node, view (node.update change (step :: rest)) = view node)

include below

/-- What holds of the nodes of all samples at a path, and of the tree's node there, holds after a
resolution, if it does where the resolution settles the type of that very node. Under a node that is
settled there is what was there or what a sample has. -/
theorem resolve_kept {tree : Node} {conflict : Conflict} {path : Path} (holds : α → Prop)
    (drawn : AllDrawn perSample conflicts tree)
    (noUnion : ∀ outer, outer <+: path → ¬ UnionAt perSample outer)
    (samples : ∀ sample ∈ perSample, ∀ node, sample.get? path = some node → holds (view node))
    (own : ∀ name, conflict.AsksAt path name → ∀ isRequired node,
      view (requireProperty name isRequired node) = view node)
    (settled : conflict.path = path → conflict.settles? ≠ none → ∀ node,
      tree.get? path = some node → node.plainType? ≠ none →
        holds (view (settling perSample conflict node)))
    (held : ∀ node, tree.get? path = some node → holds (view node)) :
    ∀ node, (resolve perSample tree conflict).get? path = some node → holds (view node) := by
  intro node present
  by_cases apart : conflict.settles? = none ∨ ¬ conflict.path <+: path
  · have shown := map_get?_resolve view below perSample tree conflict path own apart
    rcases Node.exists_of_map_get? shown present with ⟨old, here, same⟩
    rw [← same]
    exact held old here
  · rcases not_or.mp apart with ⟨settles, inside⟩
    rcases not_not.mp inside with ⟨rest, rfl⟩
    rw [resolve_of_settles perSample tree conflict settles, Node.get?_update_below] at present
    rcases Option.bind_eq_some_iff.mp present with ⟨old, here, changed⟩
    have clear : Clear perSample conflicts conflict.path := by
      intro other _ _ above _
      exact noUnion other.path (above.trans (List.prefix_append _ _))
    have plain : old.plainType? ≠ none := fun union =>
      noUnion conflict.path (List.prefix_append _ _)
        ((drawn conflict.path old clear here).unionAt union)
    cases rest with
    | nil =>
        obtain rfl : settling perSample conflict old = node := Option.some.inj changed
        rw [List.append_nil] at settled
        exact settled rfl settles old here plain
    | cons step rest =>
        -- below the settled node stands what was there, what a sample has there, or nothing
        rcases settling_cases (fun _ => plain) with ⟨label, kept⟩ |
          ⟨label, lender, sampled, sample, there, lent⟩ | leaf
        · rw [kept, Node.get?_relabel_cons] at changed
          refine held node ?_
          rw [Node.get?_append, here]
          exact changed
        · rw [lent, Node.get?_relabel_cons] at changed
          refine samples lender sampled node ?_
          rw [Node.get?_append, there]
          exact changed
        · rw [Node.get?_cons, leaf step] at changed
          cases changed

end Kept

theorem resolve_allDrawn {tree : Node} {conflict : Conflict} (member : conflict ∈ conflicts)
    (drawn : AllDrawn perSample conflicts tree) :
    AllDrawn perSample conflicts (resolve perSample tree conflict) := by
  intro path node clear present
  by_cases apart : conflict.settles? = none ∨ ¬ conflict.path <+: path
  · have shown := map_get?_resolve Node.plainType? Node.plainType?_update_cons perSample tree conflict
      path (fun name _ => plainType?_requireProperty name) apart
    rcases Node.exists_of_map_get? shown present with ⟨old, here, same⟩
    exact (drawn path old clear here).congr same
  · rcases not_or.mp apart with ⟨settled, inside⟩
    rcases not_not.mp inside with ⟨rest, rfl⟩
    rw [resolve_of_settles perSample tree conflict settled, Node.get?_update_below] at present
    rcases Option.bind_eq_some_iff.mp present with ⟨old, here, changed⟩
    have former := drawn conflict.path old (clear.of_prefix (List.prefix_append _ _)) here
    cases rest with
    | nil =>
        obtain rfl : settling perSample conflict old = node := Option.some.inj changed
        rw [List.append_nil]
        refine .inr ⟨⟨conflict, member, rfl, settled⟩, ?_⟩
        intro union
        rcases plainType?_settling union with before | already
        · exact former.unionAt before
        · exact already
    | cons step rest =>
        have plain : (∃ type, conflict.resolution = .dataType type) → old.plainType? ≠ none := by
          intro typed union
          exact clear conflict member typed (List.prefix_append _ _) (by simp) (former.unionAt union)
        rcases settling_cases plain with ⟨label, kept⟩ | ⟨label, other, sampled, sample, there, lent⟩ |
          leaf
        · rw [kept, Node.get?_relabel_cons] at changed
          refine drawn _ node clear ?_
          rw [Node.get?_append, here]
          exact changed
        · rw [lent, Node.get?_relabel_cons] at changed
          refine .inl ⟨other, sampled, node, ?_, rfl⟩
          rw [Node.get?_append, there]
          exact changed
        · rw [Node.get?_cons, leaf step] at changed
          cases changed

theorem resolveAll_allDrawn {tree : Node} (listed : List Conflict)
    (members : ∀ conflict ∈ listed, conflict ∈ conflicts)
    (drawn : AllDrawn perSample conflicts tree) :
    AllDrawn perSample conflicts (resolveAll perSample listed tree) := by
  apply resolveAll_induction (AllDrawn perSample conflicts) perSample listed tree drawn
  intro conflict member tree' drawn'
  exact resolve_allDrawn (members conflict member) drawn'

/-- The invariant holds of the merged tree: of the nodes that are merged at a path one is of the kind
that results, and arrays are degraded in all trees alike. -/
theorem allDrawn_compare {trees : List Node} {merged : Node}
    (wellFormed : ∀ tree ∈ trees, tree.WellFormed False) (joined : Node.mergeAll? trees = some merged) :
    AllDrawn (Comparison.compare trees merged).perSample conflicts
      (Comparison.compare trees merged).merged := by
  rw [Comparison.compare_eq]
  intro path node _ present
  have uncut := Node.uncut_of_get?_degradeAll present
  have shown := Node.plainType?_get?_degradeAll _ path merged uncut
  rcases Node.exists_of_map_get? shown present with ⟨found, here, same⟩
  have stems : ∃ tree ∈ trees, ∃ own, tree.get? path = some own ∧
      own.plainType? = found.plainType? := by
    refine Node.get?_mergeAll_induction
      (fun node => ∃ tree ∈ trees, ∃ own, tree.get? path = some own ∧
        own.plainType? = node.plainType?) ?_ wellFormed ?_ joined here
    · intro older newer first second
      rcases Node.plainType?_mergeInto older newer with equal | equal
      · rwa [equal]
      · rwa [equal]
    · exact fun tree member own inside => ⟨tree, member, own, inside, rfl⟩
  rcases stems with ⟨tree, member, own, inside, equal⟩
  have kept := Node.plainType?_get?_degradeAll _ path tree uncut
  rcases Node.exists_of_map_get? kept.symm inside with ⟨own', inside', equal'⟩
  exact .inl ⟨_, List.mem_map_of_mem member, own', inside', equal'.trans (equal.trans same)⟩

end EventSchema.Conflict
