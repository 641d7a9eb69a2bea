import EventSchema.Proofs.Merging
import EventSchema.Proofs.DocumentReading
/-!
Merging a tree a second time changes nothing, whatever the kinds of the two trees were: the first time
everything in it has either been absorbed or, for want of room in a union, been dropped for good.
-/
namespace EventSchema.Node

/-- Keys and names are kept in order, and what counts as an object or an array has no format, as
inference and merging leave it. -/
structure Tidy (node : Node) : Prop where
  ordered : node.InKeyOrder
  format : node.type.isStructural = true → node.format? = none

structure Absorbed (node : Node) : Prop where
  alone : mergeInto node node = node
  again : ∀ target : Node, target.WellFormed True → target.Everywhere InKeyOrder →
    mergeInto (mergeInto target node) node = mergeInto target node

theorem mergedFormat_again (type : ValueType) (older newer : Option Format) :
    mergedFormat type (mergedFormat type older newer) newer = mergedFormat type older newer := by
  cases structural : type.isStructural <;> cases newer <;> simp [mergedFormat, structural]

section Properties

variable {properties : List (String × Node)} (increasing : Keyed.Increasing properties)
  (absorbed : ∀ entry ∈ properties, entry.2.Absorbed)

include increasing absorbed

theorem mergeProperties_self : mergeProperties properties properties = properties := by
  have inner := fun name child found => absorbed (name, child) (Keyed.mem_of_lookup found)
  have merged : Keyed.Increasing (mergeProperties properties properties) :=
    increasing_mergeProperties properties properties increasing
  apply Keyed.eq_of_lookup merged increasing
  intro name
  rw [lookup_mergeProperties name _ _ (Ordered.Increasing.nodup increasing)]
  cases found : Keyed.lookup name properties with
  | none => rfl
  | some child => exact congrArg some (inner name child found).alone

theorem mergeProperties_again {older : List (String × Node)} (increasing' : Keyed.Increasing older)
    (wellFormed : ∀ entry ∈ older, entry.2.WellFormed True)
    (ordered : ∀ entry ∈ older, entry.2.Everywhere InKeyOrder) :
    mergeProperties (mergeProperties older properties) properties =
      mergeProperties older properties := by
  have merged := increasing_mergeProperties properties older increasing'
  apply Keyed.eq_of_lookup (increasing_mergeProperties properties _ merged) merged
  intro name
  have distinct := Ordered.Increasing.nodup increasing
  rw [lookup_mergeProperties name _ _ distinct, lookup_mergeProperties name _ _ distinct]
  cases found : Keyed.lookup name properties with
  | none => simp
  | some child =>
      have inner := absorbed (name, child) (Keyed.mem_of_lookup found)
      cases found' : Keyed.lookup name older with
      | none => exact congrArg some inner.alone
      | some child' =>
          have member := Keyed.mem_of_lookup found'
          exact congrArg some (inner.again child' (wellFormed _ member) (ordered _ member))

end Properties

section Branches

variable {first second one other : Node} (former : first.WellFormed True)
  (latter : second.WellFormed True) (newer : one.WellFormed True) (newer' : other.WellFormed True)
  (different : first.family ≠ second.family) (different' : one.family ≠ other.family)

def absorbing (one other branch : Node) : Node :=
  if branch.family = one.family then mergeInto branch one
  else if branch.family = other.family then mergeInto branch other
  else branch

include newer newer'

theorem absorbing_wellFormed {branch : Node} (wellFormed : branch.WellFormed True) :
    (absorbing one other branch).WellFormed True ∧
      (absorbing one other branch).family = branch.family := by
  have merged := mergeInto_wellFormed one branch wellFormed newer
  have merged' := mergeInto_wellFormed other branch wellFormed newer'
  rw [absorbing]
  split
  · rename_i same
    exact ⟨merged.1, (merged.2 same).trans same.symm⟩
  · split
    · rename_i same
      exact ⟨merged'.1, (merged'.2 same).trans same.symm⟩
    · exact ⟨wellFormed, rfl⟩

theorem absorbing_again (absorbed : one.Absorbed) (absorbed' : other.Absorbed) {branch : Node}
    (wellFormed : branch.WellFormed True) (ordered : branch.Everywhere InKeyOrder) :
    absorbing one other (absorbing one other branch) = absorbing one other branch := by
  have family := (absorbing_wellFormed newer newer' wellFormed).2
  rw [absorbing, family]
  by_cases same : branch.family = one.family
  · simp only [absorbing, if_pos same]
    exact absorbed.again branch wellFormed ordered
  · by_cases same' : branch.family = other.family
    · simp only [absorbing, if_neg same, if_pos same']
      exact absorbed'.again branch wellFormed ordered
    · simp only [absorbing, if_neg same, if_neg same']

include former latter different different'

omit newer' in
theorem mergeBranches_pair :
    mergeBranches [first, second] [one, other] =
      [absorbing one other first, absorbing one other second] := by
  have merged := (mergeInto_wellFormed one first former newer).2
  have merged' := (mergeInto_wellFormed one second latter newer).2
  simp only [mergeBranches, absorbing, absorb_pair]
  by_cases same : first.family = one.family
  · have apart : second.family ≠ one.family := fun equal => different (same.trans equal.symm)
    have apart' : first.family ≠ other.family := fun equal => different' (same.symm.trans equal)
    rw [if_pos same, if_pos same, if_neg apart, absorb_pair, merged same, if_neg different']
    split <;> rfl
  · rw [if_neg same, if_neg same]
    by_cases same' : second.family = one.family
    · have apart : second.family ≠ other.family := fun equal => different' (same'.symm.trans equal)
      rw [if_pos same', if_pos same', absorb_pair, merged' same', if_neg different']
      split <;> rfl
    · rw [if_neg same', if_neg same', absorb_pair]
      by_cases other' : first.family = other.family
      · have apart : second.family ≠ other.family := fun equal => different (other'.trans equal.symm)
        rw [if_pos other', if_pos other', if_neg apart]
      · rw [if_neg other', if_neg other']
        split <;> rfl

end Branches

theorem absorbed_scalar (label : Label) (type : ScalarType) : (scalar label type).Absorbed := by
  have alone : widen type type = type := by cases type <;> rfl
  have again : ∀ older, widen (widen older type) type = widen older type := by
    intro older
    cases older <;> cases type <;> rfl
  refine ⟨by simp [mergeInto, alone], ?_⟩
  intro target _ _
  cases target with
  | scalar own type' => cases found : label.format <;> simp [mergeInto, again, found]
  | _ => cases found : label.format <;> simp [mergeInto, alone, found]

theorem absorbed_object {label : Label} {properties : List (String × Node)} {required : List String}
    (tidy : (object label properties required).Tidy)
    (absorbed : ∀ entry ∈ properties, entry.2.Absorbed) :
    (object label properties required).Absorbed := by
  obtain ⟨increasing, ordered⟩ := tidy.ordered _ _ _ rfl
  have format : label.format = none := tidy.format rfl
  have alone := mergeProperties_self increasing absorbed
  have names := Ordered.union_eq_self ordered fun _ => id
  refine ⟨?_, ?_⟩
  · simp only [mergeInto, alone, names, ← format]
  · intro target wellFormed everywhere
    cases wellFormed with
    | object own properties' required' increasing' children =>
        cases everywhere with
        | object _ _ _ held inner =>
            have ordered' := Ordered.increasing_union required' required (held _ _ _ rfl).2
            have names' := Ordered.union_eq_self ordered' fun name member =>
              (Ordered.mem_union required' required name).mpr (.inr member)
            have again := mergeProperties_again increasing absorbed increasing' children inner
            simp only [mergeInto, again, names']
    | _ => simp only [mergeInto, alone, names]

theorem absorbed_arrayOf {label : Label} {items : Node} (format : label.format = none)
    (absorbed : items.Absorbed) : (arrayOf label items).Absorbed := by
  refine ⟨?_, ?_⟩
  · simp only [mergeInto, absorbed.alone, ← format]
  · intro target wellFormed everywhere
    cases wellFormed with
    | arrayOf own items' inner =>
        cases everywhere with
        | arrayOf _ _ _ held => simp only [mergeInto, absorbed.again items' inner held]
    | mixedArray own _ => rfl
    | _ => simp only [mergeInto, absorbed.alone]

/-- After two unions or another kind of node and a union have been merged, what is left to do is to
merge the branches and the format. -/
theorem again_of_branches {target : Node} {own label : Label} {first second one other : Node}
    (merged : mergeInto target (union label [one, other]) =
      (union own [first, second]).withFormat (mergedFormat first.type own.format label.format))
    (branches : mergeBranches [first, second] [one, other] = [first, second]) :
    mergeInto (mergeInto target (union label [one, other])) (union label [one, other]) =
      mergeInto target (union label [one, other]) := by
  have again := mergedFormat_again first.type own.format label.format
  simp only [withFormat, relabel, Node.label] at merged
  rw [merged]
  simp only [mergeInto, branches, withFormat, relabel, Node.label, format?, type, again]

theorem absorbed_union {label : Label} {first second : Node}
    (different : first.family ≠ second.family) (former : first.WellFormed True)
    (latter : second.WellFormed True) (tidy : (union label [first, second]).Tidy)
    (absorbed : first.Absorbed) (absorbed' : second.Absorbed) :
    (union label [first, second]).Absorbed := by
  have alone : mergeBranches [first, second] [first, second] = [first, second] := by
    rw [mergeBranches_pair former latter former different different]
    simp only [absorbing, if_true, if_neg different.symm, absorbed.alone, absorbed'.alone]
  refine ⟨?_, ?_⟩
  · have kept : mergedFormat first.type label.format label.format = label.format := by
      rw [mergedFormat, Option.or_self]
      split
      · rename_i structural
        exact (tidy.format structural).symm
      · rfl
    simp only [mergeInto, alone, withFormat, relabel, Node.label, format?, type, kept]
  · intro target wellFormed everywhere
    cases wellFormed with
    | union own first' second' different' former' latter' =>
        cases everywhere with
        | union _ _ _ each =>
            have held := each _ List.mem_cons_self
            have held' := each _ (List.mem_cons_of_mem _ List.mem_cons_self)
            have pair := mergeBranches_pair former' latter' former different' different
            obtain ⟨kind, family⟩ := absorbing_wellFormed former latter former'
            obtain ⟨kind', family'⟩ := absorbing_wellFormed former latter latter'
            have apart : (absorbing first second first').family ≠
                (absorbing first second second').family := by rwa [family, family']
            have merged : mergeInto (union own [first', second']) (union label [first, second]) =
                (union own
                    [absorbing first second first', absorbing first second second']).withFormat
                  (mergedFormat (absorbing first second first').type own.format label.format) := by
              simp only [mergeInto, pair]
              rfl
            apply again_of_branches merged
            rw [mergeBranches_pair kind kind' former apart different,
              absorbing_again former latter absorbed absorbed' former' held,
              absorbing_again former latter absorbed absorbed' latter' held']
    | _ => exact again_of_branches rfl alone

theorem absorbed_of_wellFormed {node : Node} (wellFormed : node.WellFormed True)
    (tidy : node.Everywhere Tidy) : node.Absorbed := by
  induction wellFormed with
  | scalar label type => exact absorbed_scalar label type
  | object label properties required increasing _ ih =>
      cases tidy with
      | object _ _ _ own children =>
          exact absorbed_object own fun entry member => ih entry member (children entry member)
  | emptyArray label =>
      have format : label.format = none := tidy.own.format rfl
      refine ⟨by simp only [mergeInto, Node.label, ← format], ?_⟩
      intro target _ _
      cases target <;> rfl
  | arrayOf label items _ ih =>
      cases tidy with
      | arrayOf _ _ own inner => exact absorbed_arrayOf (own.format rfl) (ih inner)
  | mixedArray label _ =>
      have format : label.format = none := tidy.own.format rfl
      exact ⟨by simp only [mergeInto, Node.label, ← format], fun _ _ _ => rfl⟩
  | union label first second different former latter ih ih' =>
      cases tidy with
      | union _ _ own each =>
          exact absorbed_union different former latter own (ih (each _ List.mem_cons_self))
            (ih' (each _ (List.mem_cons_of_mem _ List.mem_cons_self)))

/-- Merging a tree twice in a row is the same as once, even where the two differ in kind, where a
union has no room for a branch and where an array is left undescribed. -/
theorem mergeInto_mergeInto (target node : Node) (former : target.WellFormed True)
    (latter : node.WellFormed True) (ordered : target.Everywhere InKeyOrder)
    (tidy : node.Everywhere Tidy) :
    mergeInto (mergeInto target node) node = mergeInto target node :=
  (absorbed_of_wellFormed latter tidy).again target former ordered

/-- A date gives way to an object, an integer finds no room in a union and the items of an array are
lost. -/
theorem mergeInto_mergeInto_kinds :
    let inner := object {} [("x", scalar {} .boolean)] []
    let target := object {}
      [("a", scalar { format := some .date } .string),
        ("b", union {} [emptyArray {}, scalar {} .string]), ("c", mixedArray {})] ["a"]
    let node := object {}
      [("a", inner), ("b", union {} [scalar {} .integer, arrayOf {} inner]),
        ("c", arrayOf {} (scalar {} .null))] ["b"]
    let merged := object {}
      [("a", inner), ("b", union {} [arrayOf {} inner, scalar {} .string]), ("c", mixedArray {})]
      ["a", "b"]
    target.WellFormed True ∧ node.WellFormed True ∧ target.Everywhere InKeyOrder ∧
      node.Everywhere Tidy ∧ mergeInto target node = merged ∧ mergeInto merged node = merged := by
  intro inner target node merged
  have single : ∀ name : String, [name].Pairwise (· < ·) := List.pairwise_singleton _
  have keys : ["a", "b", "c"].Pairwise (· < ·) := by decide
  have bare : ∀ part : Node, part.isObject = false → part.format? = none → part.Tidy :=
    fun part plain format => ⟨inKeyOrder_of_not_object plain, fun _ => format⟩
  have wellFormed : inner.WellFormed True := by
    refine .object _ _ _ (single "x") ?_
    simpa using .scalar _ _
  have tidy : inner.Everywhere Tidy := by
    refine .object _ _ _ ⟨inKeyOrder_object _ (single "x") .nil, fun _ => rfl⟩ ?_
    simpa using .scalar _ _ (bare _ rfl rfl)
  have former : target.WellFormed True := by
    refine .object _ _ _ keys ?_
    simp only [List.forall_mem_cons]
    exact ⟨.scalar _ _, .union _ _ _ (by decide) (.emptyArray _) (.scalar _ _),
      .mixedArray _ trivial, by simp⟩
  have latter : node.WellFormed True := by
    refine .object _ _ _ keys ?_
    simp only [List.forall_mem_cons]
    exact ⟨wellFormed, .union _ _ _ (by decide) (.scalar _ _) (.arrayOf _ _ wellFormed),
      .arrayOf _ _ (.scalar _ _), by simp⟩
  have former' : target.Everywhere InKeyOrder := by
    refine .object _ _ _ (inKeyOrder_object _ keys (single "a")) ?_
    simp only [List.forall_mem_cons]
    refine ⟨.scalar _ _ (inKeyOrder_of_not_object rfl),
      .union _ _ (inKeyOrder_of_not_object rfl) ?_, .mixedArray _ (inKeyOrder_of_not_object rfl),
      by simp⟩
    simpa using ⟨.emptyArray _ (inKeyOrder_of_not_object rfl),
      .scalar _ _ (inKeyOrder_of_not_object rfl)⟩
  have latter' : node.Everywhere Tidy := by
    refine .object _ _ _ ⟨inKeyOrder_object _ keys (single "b"), fun _ => rfl⟩ ?_
    simp only [List.forall_mem_cons]
    refine ⟨tidy, .union _ _ (bare _ rfl rfl) ?_,
      .arrayOf _ _ (bare _ rfl rfl) (.scalar _ _ (bare _ rfl rfl)), by simp⟩
    simpa using ⟨.scalar _ _ (bare _ rfl rfl), .arrayOf _ _ (bare _ rfl rfl) tidy⟩
  have once : mergeInto target node = merged := by rfl
  exact ⟨former, latter, former', latter', once,
    once ▸ mergeInto_mergeInto target node former latter former' latter'⟩

end EventSchema.Node
