import EventSchema.Proofs.WellFormed
import EventSchema.Schema.Merge
/-!
Merging the trees of samples: whatever is found in a merged tree comes from one of the trees or from
merging what both have there, and where trees agree on what lies above a place, the merged tree has
there what the trees have there, merged.
-/
namespace EventSchema.Node

theorem absorb_pair (combine : Node → Node) (newcomer first second : Node) :
    absorb combine newcomer [first, second] =
      if first.family = newcomer.family then [combine first, second]
      else if second.family = newcomer.family then [first, combine second]
      else [first, second] := by
  by_cases same : first.family = newcomer.family
  · simp [absorb, absorb.go, same]
  · by_cases same' : second.family = newcomer.family
    · simp [absorb, absorb.go, same, same']
    · simp [absorb, absorb.go, same, same', addBranch_pair]

theorem lookup_mergeProperties (name : String) (target newer : List (String × Node))
    (distinct : (Keyed.keys newer).Nodup) :
    Keyed.lookup name (mergeProperties target newer) =
      Option.merge mergeInto (Keyed.lookup name target) (Keyed.lookup name newer) := by
  induction newer generalizing target with
  | nil => simp [mergeProperties, Keyed.lookup]
  | cons entry rest ih =>
      rcases entry with ⟨first, child⟩
      rcases List.nodup_cons.mp distinct with ⟨fresh, distinct'⟩
      rw [mergeProperties, ih _ distinct', Keyed.lookup_alter]
      by_cases same : name = first
      · subst first
        have absent : Keyed.lookup name rest = none := (Keyed.lookup_eq_none_iff name rest).mpr fresh
        cases Keyed.lookup name target <;> simp [Keyed.lookup, absent]
      · simp [Keyed.lookup, same]

theorem mem_keys_mergeProperties (name : String) (target newer : List (String × Node)) :
    name ∈ Keyed.keys (mergeProperties target newer) ↔
      name ∈ Keyed.keys target ∨ name ∈ Keyed.keys newer := by
  induction newer generalizing target with
  | nil => simp [mergeProperties, Keyed.keys]
  | cons entry rest ih =>
      rw [mergeProperties, ih, Keyed.alter, Keyed.keys_insert, Ordered.mem_insert, Keyed.keys,
        Keyed.keys, Keyed.keys, List.map_cons, List.mem_cons, or_comm (a := name = entry.1), or_assoc]

theorem increasing_mergeProperties (newer target : List (String × Node))
    (increasing : Keyed.Increasing target) : Keyed.Increasing (mergeProperties target newer) := by
  induction newer generalizing target with
  | nil => simpa only [mergeProperties] using increasing
  | cons entry rest ih =>
      rw [mergeProperties]
      exact ih _ (Keyed.increasing_alter entry.1 _ target increasing)

theorem family_relabel (label : Label) (node : Node) :
    (node.relabel label).family = node.family := by
  simp only [family]
  rw [type_relabel]

mutual

/-- Merging keeps trees well formed, and the later tree's family unless two unions meet. -/
theorem mergeInto_wellFormed {mixed : Prop} :
    (node target : Node) → target.WellFormed mixed → node.WellFormed mixed →
      (mergeInto target node).WellFormed mixed ∧
        (target.family = node.family → (mergeInto target node).family = node.family)
  | .scalar label type, target, former, _ => by
      cases former with
      | scalar own type' =>
          refine ⟨.scalar _ _, ?_⟩
          cases type <;> cases type' <;> exact fun _ => rfl
      | _ => exact ⟨.scalar _ _, fun _ => rfl⟩
  | .object label properties required, target, former, latter => by
      cases latter with
      | object _ _ _ increasing children =>
          cases former with
          | object own properties' required' increasing' children' =>
              have merged := mergeProperties_wellFormed properties properties' increasing' children'
                children
              exact ⟨.object _ _ _ merged.1 merged.2, fun _ => rfl⟩
          | _ => exact ⟨.object _ _ _ increasing children, fun _ => rfl⟩
  | .emptyArray label, target, former, _ => by
      cases former with
      | arrayOf own items inner => exact ⟨.arrayOf _ items inner, fun _ => rfl⟩
      | mixedArray own allowed => exact ⟨.mixedArray _ allowed, fun _ => rfl⟩
      | _ => exact ⟨.emptyArray _, fun _ => rfl⟩
  | .arrayOf label items, target, former, latter => by
      cases latter with
      | arrayOf _ _ inner =>
          cases former with
          | arrayOf own items' inner' =>
              exact ⟨.arrayOf _ _ (mergeInto_wellFormed items items' inner' inner).1, fun _ => rfl⟩
          | mixedArray own allowed => exact ⟨.mixedArray _ allowed, fun _ => rfl⟩
          | _ => exact ⟨.arrayOf _ items inner, fun _ => rfl⟩
  | .mixedArray label, target, _, latter => by
      cases latter with
      | mixedArray _ allowed => exact ⟨.mixedArray _ allowed, fun _ => rfl⟩
  | .union label branches, target, former, latter => by
      have newer : ∀ branch ∈ branches, branch.WellFormed mixed := fun _ => latter.branch
      cases former with
      | union own first second different one other =>
          rcases mergeBranches_wellFormed branches first second newer one other with
            ⟨first', second', same, family, family', one', other'⟩
          simp only [mergeInto, same, withFormat]
          refine ⟨(WellFormed.union own first' second' ?_ one' other').relabel _, ?_⟩
          · rw [family, family']
            exact different
          · intro equal
            rw [family_relabel]
            exact family.trans equal
      | _ =>
          simp only [mergeInto, withFormat]
          refine ⟨.relabel _ (latter.relabel _), fun _ => ?_⟩
          rw [family_relabel]
          exact family_relabel _ (union label branches)

theorem mergeProperties_wellFormed {mixed : Prop} :
    (newer target : List (String × Node)) → Keyed.Increasing target →
      (∀ entry ∈ target, entry.2.WellFormed mixed) →
      (∀ entry ∈ newer, entry.2.WellFormed mixed) →
      Keyed.Increasing (mergeProperties target newer) ∧
        ∀ entry ∈ mergeProperties target newer, entry.2.WellFormed mixed
  | [], _, increasing, children, _ => ⟨increasing, children⟩
  | (name, child) :: rest, target, increasing, children, newcomers => by
      rcases List.forall_mem_cons.mp newcomers with ⟨inner, others⟩
      rw [mergeProperties]
      refine mergeProperties_wellFormed rest _ (Keyed.increasing_alter name _ target increasing) ?_
        others
      apply WellFormed.insert name children
      cases found : Keyed.lookup name target with
      | none => exact inner
      | some present =>
          exact (mergeInto_wellFormed child present (children _ (Keyed.mem_of_lookup found)) inner).1

theorem mergeBranches_wellFormed {mixed : Prop} :
    (newer : List Node) → (first second : Node) → (∀ branch ∈ newer, branch.WellFormed mixed) →
      first.WellFormed mixed → second.WellFormed mixed →
      ∃ first' second', mergeBranches [first, second] newer = [first', second'] ∧
        first'.family = first.family ∧ second'.family = second.family ∧
          first'.WellFormed mixed ∧ second'.WellFormed mixed
  | [], first, second, _, one, other => ⟨first, second, by simp [mergeBranches], rfl, rfl, one, other⟩
  | branch :: rest, first, second, newcomers, one, other => by
      rcases List.forall_mem_cons.mp newcomers with ⟨inner, others⟩
      rw [mergeBranches, absorb_pair]
      by_cases same : first.family = branch.family
      · rw [if_pos same]
        have merged := mergeInto_wellFormed branch first one inner
        rcases mergeBranches_wellFormed rest _ second others merged.1 other with
          ⟨first', second', equal, family, rest'⟩
        exact ⟨first', second', equal, family.trans ((merged.2 same).trans same.symm), rest'⟩
      · rw [if_neg same]
        by_cases same' : second.family = branch.family
        · rw [if_pos same']
          have merged := mergeInto_wellFormed branch second other inner
          rcases mergeBranches_wellFormed rest first _ others one merged.1 with
            ⟨first', second', equal, family, family', rest'⟩
          exact ⟨first', second', equal, family,
            family'.trans ((merged.2 same').trans same'.symm), rest'⟩
        · rw [if_neg same']
          exact mergeBranches_wellFormed rest first second others one other

end

theorem step?_mergeInto_cases {mixed : Prop} {target node child : Node} {step : Step}
    (latter : node.WellFormed mixed) (found : (mergeInto target node).step? step = some child) :
    target.step? step = some child ∨ node.step? step = some child ∨
      ∃ older newer, target.step? step = some older ∧ node.step? step = some newer ∧
        child = mergeInto older newer := by
  cases latter with
  | scalar label type => cases target <;> simp [mergeInto, step?] at found
  | object label properties required increasing _ =>
      cases target with
      | object own properties' required' =>
          cases step with
          | items => simp [mergeInto, step?] at found
          | property name =>
              simp only [mergeInto, step?] at found ⊢
              rw [lookup_mergeProperties name _ _ (Ordered.Increasing.nodup increasing)] at found
              cases older : Keyed.lookup name properties' <;>
                cases newer : Keyed.lookup name properties <;>
                simp [older, newer, Option.merge] at found ⊢ <;> simp [found]
      | _ => exact .inr (.inl ((step?_relabel _ (object label properties required) step).symm.trans found))
  | emptyArray label =>
      cases target with
      | arrayOf own items => exact .inl ((step?_relabel _ (arrayOf own items) step).symm.trans found)
      | _ => simp [mergeInto, step?] at found
  | arrayOf label items _ =>
      cases target with
      | arrayOf own items' =>
          cases step with
          | items => exact .inr (.inr ⟨items', items, rfl, rfl, (Option.some.inj found).symm⟩)
          | property name => simp [mergeInto, step?] at found
      | mixedArray own => simp [mergeInto, step?] at found
      | _ => exact .inr (.inl ((step?_relabel _ (arrayOf label items) step).symm.trans found))
  | mixedArray label _ => simp [mergeInto, step?] at found
  | union label first second _ _ _ =>
      cases target <;> simp [mergeInto, withFormat] at found <;> simp [step?] at found

theorem get?_mergeInto_cases {mixed : Prop} {target node found : Node} {path : Path}
    (latter : node.WellFormed mixed) (present : (mergeInto target node).get? path = some found) :
    target.get? path = some found ∨ node.get? path = some found ∨
      ∃ older newer, target.get? path = some older ∧ node.get? path = some newer ∧
        found = mergeInto older newer := by
  induction path generalizing target node with
  | nil => exact .inr (.inr ⟨target, node, rfl, rfl, (Option.some.inj present).symm⟩)
  | cons step path ih =>
      rcases Option.bind_eq_some_iff.mp present with ⟨child, first, rest⟩
      simp only [get?_cons, Option.bind_eq_some_iff]
      rcases step?_mergeInto_cases latter first with older | newer | ⟨older, newer, one, other, rfl⟩
      · exact .inl ⟨child, older, rest⟩
      · exact .inr (.inl ⟨child, newer, rest⟩)
      · rcases ih (latter.step? other) rest with left | right | ⟨older', newer', left, right, same⟩
        · exact .inl ⟨older, one, left⟩
        · exact .inr (.inl ⟨newer, other, right⟩)
        · exact .inr (.inr ⟨older', newer', ⟨older, one, left⟩, ⟨newer, other, right⟩, same⟩)

theorem mergeAll_wellFormed {mixed : Prop} {trees : List Node} {merged : Node}
    (wellFormed : ∀ tree ∈ trees, tree.WellFormed mixed) (finished : mergeAll? trees = some merged) :
    merged.WellFormed mixed := by
  cases trees with
  | nil => cases finished
  | cons first rest =>
      rcases List.forall_mem_cons.mp wellFormed with ⟨start, others⟩
      have same : rest.foldl mergeInto first = merged := Option.some.inj finished
      rw [← same]
      clear same finished wellFormed
      induction rest generalizing first with
      | nil => exact start
      | cons tree rest ih =>
          rcases List.forall_mem_cons.mp others with ⟨next, later⟩
          exact ih (mergeInto first tree) (mergeInto_wellFormed tree first start next).1 later

theorem get?_mergeAll_induction {mixed : Prop} {trees : List Node} {merged found : Node}
    {path : Path} (holds : Node → Prop)
    (closed : ∀ older newer, holds older → holds newer → holds (mergeInto older newer))
    (wellFormed : ∀ tree ∈ trees, tree.WellFormed mixed)
    (each : ∀ tree ∈ trees, ∀ node, tree.get? path = some node → holds node)
    (finished : mergeAll? trees = some merged) (present : merged.get? path = some found) :
    holds found := by
  cases trees with
  | nil => cases finished
  | cons first rest =>
      rcases List.forall_mem_cons.mp wellFormed with ⟨-, others⟩
      rcases List.forall_mem_cons.mp each with ⟨start, each'⟩
      have same : rest.foldl mergeInto first = merged := Option.some.inj finished
      rw [← same] at present
      clear same finished wellFormed each
      induction rest generalizing first with
      | nil => exact start found present
      | cons tree rest ih =>
          rcases List.forall_mem_cons.mp others with ⟨next, later⟩
          rcases List.forall_mem_cons.mp each' with ⟨own, each''⟩
          refine ih (mergeInto first tree) present later ?_ each''
          intro node here
          rcases get?_mergeInto_cases next here with older | newer | ⟨older, newer, one, other, rfl⟩
          · exact start node older
          · exact own node newer
          · exact closed older newer (start older one) (own newer other)

theorem plainType?_mergeInto (target node : Node) :
    (mergeInto target node).plainType? = target.plainType? ∨
      (mergeInto target node).plainType? = node.plainType? := by
  cases node with
  | scalar label type =>
      cases target with
      | scalar own type' => cases type <;> cases type' <;> first | exact .inr rfl | exact .inl rfl
      | _ => exact .inr rfl
  | union label branches =>
      right
      cases target <;> simp [mergeInto, withFormat] <;> rfl
  | _ => cases target <;> exact .inr rfl

def Admits : Step → Node → Prop
  | .property _, object _ _ _ => True
  | .items, emptyArray _ => True
  | .items, arrayOf _ _ => True
  | _, _ => False

theorem admits_of_container {node : Node} {step : Step} (wellFormed : node.WellFormed False)
    (plain : node.plainType? = some (container step)) : node.Admits step := by
  cases wellFormed with
  | scalar label type => cases step <;> cases type <;> cases plain
  | object _ _ _ _ _ => cases step <;> first | trivial | cases plain
  | emptyArray _ => cases step <;> first | trivial | cases plain
  | arrayOf _ _ _ => cases step <;> first | trivial | cases plain
  | mixedArray _ impossible => exact impossible.elim
  | union _ _ _ _ _ _ => cases plain

theorem step?_mergeInto_of_admits {mixed : Prop} {target node : Node} {step : Step}
    (latter : node.WellFormed mixed) (first : target.Admits step) (second : node.Admits step) :
    (mergeInto target node).step? step =
        Option.merge mergeInto (target.step? step) (node.step? step) ∧
      (mergeInto target node).Admits step := by
  cases step with
  | property name =>
      cases latter with
      | object label properties required increasing _ =>
          cases target with
          | object own properties' required' =>
              exact ⟨lookup_mergeProperties name _ _ (Ordered.Increasing.nodup increasing), trivial⟩
          | _ => exact first.elim
      | _ => exact second.elim
  | items =>
      cases latter with
      | emptyArray label =>
          cases target with
          | emptyArray own => exact ⟨rfl, trivial⟩
          | arrayOf own items => exact ⟨rfl, trivial⟩
          | _ => exact first.elim
      | arrayOf label items _ =>
          cases target with
          | emptyArray own => exact ⟨rfl, trivial⟩
          | arrayOf own items' => exact ⟨rfl, trivial⟩
          | _ => exact first.elim
      | _ => exact second.elim

theorem mergeAll_append (trees : List Node) (tree : Node) :
    mergeAll? (trees ++ [tree]) = Option.merge mergeInto (mergeAll? trees) (some tree) := by
  cases trees with
  | nil => rfl
  | cons first rest => simp [mergeAll?, Option.merge]

theorem step?_mergeAll {mixed : Prop} {trees : List Node} {step : Step}
    (wellFormed : ∀ tree ∈ trees, tree.WellFormed mixed)
    (admitted : ∀ tree ∈ trees, tree.Admits step) :
    (mergeAll? trees).bind (step? step) = mergeAll? (trees.filterMap (step? step)) ∧
      ∀ merged, mergeAll? trees = some merged → merged.Admits step := by
  induction trees using List.reverseRecOn with
  | nil => exact ⟨rfl, fun _ impossible => by cases impossible⟩
  | append_singleton trees tree ih =>
      have last : tree ∈ trees ++ [tree] := by simp
      have former := ih (fun other member => wellFormed other (List.mem_append_left _ member))
        (fun other member => admitted other (List.mem_append_left _ member))
      rw [mergeAll_append, List.filterMap_append]
      cases merged : mergeAll? trees with
      | none =>
          cases trees with
          | cons first rest => simp [mergeAll?] at merged
          | nil =>
              refine ⟨?_, fun node same => Option.some.inj same ▸ admitted tree last⟩
              cases child : tree.step? step <;> simp [Option.merge, child, mergeAll?]
      | some node =>
          rw [merged] at former
          have joined := step?_mergeInto_of_admits (wellFormed tree last) (former.2 node rfl)
            (admitted tree last)
          refine ⟨?_, fun other same => Option.some.inj same ▸ joined.2⟩
          have inner : node.step? step = mergeAll? (trees.filterMap (step? step)) := former.1
          change (mergeInto node tree).step? step = _
          rw [joined.1, inner]
          cases child : tree.step? step with
          | none =>
              rw [List.filterMap_cons_none child, List.filterMap_nil, List.append_nil]
              cases mergeAll? (trees.filterMap (step? step)) <;> rfl
          | some next =>
              rw [List.filterMap_cons_some child, List.filterMap_nil, mergeAll_append]

/-- Where the nodes of all trees above a path admit its steps, the merged tree has at the path what
the trees have there, merged. -/
theorem get?_mergeAll {mixed : Prop} {trees : List Node} {path : Path}
    (wellFormed : ∀ tree ∈ trees, tree.WellFormed mixed)
    (admitted : ∀ outer step rest, path = outer ++ step :: rest →
      ∀ tree ∈ trees, ∀ node, tree.get? outer = some node → node.Admits step) :
    (mergeAll? trees).bind (get? path) = mergeAll? (trees.filterMap (get? path)) := by
  induction path generalizing trees with
  | nil =>
      have each : trees.filterMap (get? []) = trees := by
        have same : (get? [] : Node → Option Node) = some := by
          funext node
          rfl
        rw [same, List.filterMap_some]
      rw [each]
      cases mergeAll? trees <;> rfl
  | cons step path ih =>
      have first := (step?_mergeAll wellFormed
        (fun tree member => admitted [] step path rfl tree member tree rfl)).1
      have children : ∀ child ∈ trees.filterMap (step? step), child.WellFormed mixed := by
        intro child member
        rcases List.mem_filterMap.mp member with ⟨tree, given, found⟩
        exact (wellFormed tree given).step? found
      have below : ∀ outer next rest, path = outer ++ next :: rest →
          ∀ child ∈ trees.filterMap (step? step), ∀ node, child.get? outer = some node →
            node.Admits next := by
        intro outer next rest same child member node here
        rcases List.mem_filterMap.mp member with ⟨tree, given, found⟩
        refine admitted (step :: outer) next rest (by rw [same]; rfl) tree given node ?_
        rw [get?_cons, found]
        exact here
      have later := ih children below
      calc
        (mergeAll? trees).bind (get? (step :: path)) =
            ((mergeAll? trees).bind (step? step)).bind (get? path) := by
          rw [Option.bind_assoc]
          rfl
        _ = mergeAll? ((trees.filterMap (step? step)).filterMap (get? path)) := by rw [first, later]
        _ = mergeAll? (trees.filterMap (get? (step :: path))) := by
          rw [List.filterMap_filterMap]
          rfl

end EventSchema.Node
