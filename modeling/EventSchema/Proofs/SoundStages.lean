import EventSchema.Proofs.Conformance
import EventSchema.Proofs.MixedArrays
import EventSchema.Proofs.Representation
import EventSchema.Proofs.RequiredNames
import EventSchema.Proofs.StoredTypes
/-!
Every stage of a run keeps the representation sound. The one resolution that could break it makes a
name required, and it finds the name in its object: as often as samples have the container, so often
they have the field.
-/
namespace EventSchema

namespace Node

theorem format?_relabel (label : Label) (node : Node) :
    (node.relabel label).format? = label.format := by
  rw [format?, label_relabel]

theorem exists_sound_retype (target : ValueType) {template : Option Node} {node : Node}
    (sound : node.Sound) (borrowed : ∀ sample, template = some sample → sample.Sound) :
    ∃ (shape : Node) (label : Label), node.retype target template = shape.relabel label ∧
      shape.Sound := by
  rcases retype_cases target template node with ⟨same, -⟩ | ⟨_, _, branch, label, rfl, member, -, same⟩ |
    ⟨sample, label, lent, -, same⟩ | ⟨label, same⟩
  · exact ⟨node, node.label, by rw [same, relabel_label], sound⟩
  · exact ⟨branch, label, same, sound.branch member⟩
  · exact ⟨sample, label, same, borrowed sample lent⟩
  · exact ⟨ofType target, label, same, Sound.ofType target⟩

theorem Sound.of_relabel {shape node : Node} {label : Label} (same : node = shape.relabel label)
    (formatted : ∀ type, node.plainType? = some type → type.isStructural = true →
      node.format? = none) (sound : shape.Sound) : node.Sound := by
  subst same
  apply Everywhere.relabel label _ sound
  apply sound.own.relabel label
  intro type plain structural
  have none := formatted type (by rwa [plainType?_relabel]) structural
  rwa [format?_relabel] at none

theorem Consistent.store {node : Node} (consistent : node.Consistent) : node.store.Consistent := by
  cases node with
  | scalar label type => exact consistent_scalar _ type
  | object label properties required =>
      rw [consistent_object] at consistent
      rw [Node.store, storeProperties_eq_map, consistent_object]
      refine ⟨rfl, fun name member => ?_⟩
      have listed := consistent.2 name member
      simpa [Keyed.keys, Function.comp_def] using listed
  | emptyArray label => exact (consistent_emptyArray _).mpr rfl
  | arrayOf label items => exact (consistent_arrayOf _ _).mpr rfl
  | mixedArray label => exact (consistent_mixedArray _).mpr rfl
  | union label branches => exact consistent_union _ _

theorem mapTypes_sound {root : Node} (sound : root.Sound) :
    root.mapTypes.Sound ∧ root.mapTypes.Everywhere fun part => part.format? = none := by
  have stored : root.store.Sound := Everywhere.store (fun _ => Consistent.store) sound
  have spent : root.store.Everywhere fun part => part.format? = none :=
    Everywhere.store (fun part _ => format?_store part) sound
  rw [mapTypes]
  constructor
  · exact Everywhere.relabel _ (stored.own.relabel _ fun _ _ _ => rfl) stored
  · exact Everywhere.relabel _ (format?_relabel _ root.store) spent

end Node

namespace Conflict

open Node

variable {perSample : List Node}

theorem requireProperty_sound {name : String} {isRequired : Bool} {node : Node} (sound : node.Sound)
    (has : isRequired = true → node.plainType? = some .object → node.leadsTo name = true) :
    (requireProperty name isRequired node).Sound := by
  cases sound with
  | object label properties required own children =>
      rw [consistent_object] at own
      obtain ⟨formatted, known⟩ := own
      refine .object label properties _ ((consistent_object _ _ _).mpr ⟨formatted, ?_⟩) children
      intro other member
      cases isRequired with
      | false => exact known other ((Ordered.mem_erase name other required).mp member).1
      | true =>
          rcases (Ordered.mem_insert name other required).mp member with rfl | old
          · exact (Keyed.lookup_isSome_iff other properties).mp (has rfl rfl)
          · exact known other old
  | scalar label type own => exact .scalar label type own
  | emptyArray label own => exact .emptyArray label own
  | arrayOf label items own inner => exact .arrayOf label items own inner
  | mixedArray label own => exact .mixedArray label own
  | union label branches own each => exact .union label branches own each

theorem settling_sound (samples : ∀ tree ∈ perSample, tree.Sound) (conflict : Conflict) {node : Node}
    (sound : node.Sound) : (settling perSample conflict node).Sound := by
  cases resolution : conflict.resolution with
  | dataType type =>
      simp only [settling, resolution]
      have borrowed : ∀ sample, template? perSample conflict.path type = some sample →
          sample.Sound := by
        intro sample lent
        obtain ⟨tree, member, present⟩ := template_cases lent
        exact (samples tree member).get? present
      obtain ⟨shape, label, made, inner⟩ := exists_sound_retype type sound borrowed
      obtain ⟨label', same⟩ := retypeNode_eq perSample conflict type node
      rw [made, relabel_relabel] at same
      apply Sound.of_relabel same _ inner
      intro type' plain structural
      have left := (retypeNode_left perSample conflict type resolution node).format
      cases formatted : (retypeNode perSample conflict type node).format? with
      | none => rfl
      | some format =>
          have fits := left format formatted
          rw [((plainType?_eq_some_iff _ type').mp plain).2] at fits
          rcases fits with rfl | ⟨rfl | rfl, -⟩ <;> cases structural
  | nullField =>
      simp only [settling, resolution]
      have borrowed : ∀ sample, (none : Option Node) = some sample → sample.Sound := by simp
      obtain ⟨shape, label, made, inner⟩ := exists_sound_retype .null sound borrowed
      obtain ⟨label', same⟩ := nullNode_eq node
      rw [made, relabel_relabel] at same
      exact Sound.of_relabel same (fun _ _ _ => (nullNode_left node).format) inner
  | optional isRequired => simpa only [settling, resolution] using sound
  | format format action => simpa only [settling, resolution] using sound

theorem settling_object {conflict : Conflict} {node sample : Node}
    (resolution : conflict.resolution = .dataType .object) (plain : node.plainType? ≠ none)
    (lent : template? perSample conflict.path .object = some sample) (own : sample.type = .object) :
    ∃ label, settling perSample conflict node =
      (if node.type = .object then node else sample).relabel label := by
  have kind : node.plainType? = some node.type := by
    cases node with
    | union _ _ => exact absurd rfl plain
    | _ => rfl
  have shape : startingShape .object (some sample) = sample := by
    simp [startingShape, own, ValueType.isStructural]
  obtain ⟨label, made⟩ := retypeNode_eq perSample conflict .object node
  simp only [settling, resolution]
  rw [made, lent, retype_of_plain .object (some sample) node kind, shape]
  by_cases already : node.type = .object
  · rw [if_pos already, if_pos already]
    exact ⟨label, rfl⟩
  · rw [if_neg already, if_neg already, relabel_relabel]
    exact ⟨label, rfl⟩

/-- A resolution keeps the invariant, if a name that it makes required is one that the object has. -/
theorem resolve_sound (samples : ∀ tree ∈ perSample, tree.Sound) {tree : Node} {conflict : Conflict}
    (sound : tree.Sound)
    (has : conflict.resolution = .optional true → ∀ path name,
      conflict.path = path ++ [.property name] → ∀ node, tree.get? path = some node →
        node.plainType? = some .object → node.leadsTo name = true) :
    (resolve perSample tree conflict).Sound := by
  have below : ∀ (change : Node → Node) step rest (part : Node), part.Consistent →
      (part.update change (step :: rest)).Consistent :=
    fun change step rest part consistent => consistent.update_cons change step rest
  by_cases settled : conflict.settles? = none
  · rw [settles?] at settled
    rw [resolve]
    cases resolution : conflict.resolution with
    | dataType type => simp [resolution] at settled
    | nullField => simp [resolution] at settled
    | format format action => exact sound
    | optional isRequired =>
        cases above : conflict.path.parent? with
        | none => exact sound
        | some parent =>
            cases last : conflict.path.lastName? with
            | none => exact sound
            | some name =>
                apply sound.update (below _)
                intro part present inner
                apply requireProperty_sound inner
                intro asked object
                subst asked
                exact has resolution parent name (Path.eq_append_of_last above last) part present
                  object
  · rw [resolve_of_settles perSample tree conflict settled]
    apply sound.update (below _)
    intro part _ inner
    exact settling_sound samples conflict inner

theorem annotateAll_everywhere {holds : Node → Prop}
    (below : ∀ change step rest part, holds part → holds (part.update change (step :: rest)))
    (noted : ∀ notes part, holds part → holds (Node.withNotes notes part))
    (conflicts : List Conflict) {tree : Node} (everywhere : tree.Everywhere holds) :
    (annotateAll conflicts tree).Everywhere holds := by
  rw [annotateAll]
  induction conflicts generalizing tree with
  | nil => exact everywhere
  | cons conflict rest ih =>
      apply ih
      apply everywhere.update (below _)
      intro part _ inner
      exact inner.relabel _ (noted _ part inner.own)

theorem annotateAll_sound (conflicts : List Conflict) {tree : Node} (sound : tree.Sound) :
    (annotateAll conflicts tree).Sound := by
  apply annotateAll_everywhere _ _ conflicts sound
  · intro change step rest part consistent
    exact consistent.update_cons change step rest
  · intro notes part consistent
    exact consistent.relabel _ consistent.format

end Conflict

namespace Node

def Offers (name : String) (node : Node) : Prop :=
  node.plainType? = some .object → node.leadsTo name = true

def offer (name : String) (node : Node) : Option ValueType × Bool :=
  (node.plainType?, node.leadsTo name)

theorem offer_update_cons (name : String) (change : Node → Node) (step : Step) (rest : Path)
    (node : Node) : (node.update change (step :: rest)).offer name = node.offer name := by
  have leads := (Prod.mk.inj (demand_update_cons name change step rest node)).2
  rw [offer, plainType?_update_cons, leads]
  rfl

theorem offer_relabel (name : String) (label : Label) (node : Node) :
    (node.relabel label).offer name = node.offer name := by
  have leads := (Prod.mk.inj (demand_relabel name label node)).2
  rw [offer, plainType?_relabel, leads]
  rfl

theorem offer_forgetItems (name : String) (node : Node) :
    node.forgetItems.offer name = node.offer name := by
  cases node <;> rfl

theorem offer_requireProperty (name other : String) (isRequired : Bool) (node : Node) :
    (Conflict.requireProperty other isRequired node).offer name = node.offer name := by
  cases node <;> rfl

theorem offers_congr {name : String} {node node' : Node} (offers : node.Offers name)
    (same : node.offer name = node'.offer name) : node'.Offers name := by
  obtain ⟨plain, leads⟩ := Prod.mk.inj same
  rw [Offers] at offers ⊢
  rwa [plain, leads] at offers

theorem offers_mergeInto (name : String) (older newer : Node) (first : older.Offers name)
    (second : newer.Offers name) : (mergeInto older newer).Offers name := by
  intro object
  cases newer with
  | object label properties required =>
      have known := second rfl
      cases older with
      | object own properties' required' =>
          simp only [leadsTo, step?, mergeInto, Keyed.lookup_isSome_iff] at known ⊢
          exact (mem_keys_mergeProperties name properties' properties).mpr (.inr known)
      | _ => exact known
  | scalar label type =>
      have scalar : ∃ label' type', mergeInto older (.scalar label type) = .scalar label' type' := by
        cases older <;> exact ⟨_, _, rfl⟩
      obtain ⟨label', type', same⟩ := scalar
      rw [same] at object
      cases type' <;> cases object
  | emptyArray label => cases older <;> cases object
  | arrayOf label items => cases older <;> cases object
  | mixedArray label => cases older <;> cases object
  | union label branches =>
      cases older <;> simp [mergeInto, withFormat] at object <;> cases object

theorem UnionFree.everywhere {node : Node} (free : node.UnionFree) :
    node.Everywhere fun part => part.plainType? ≠ none := by
  have plain : ∀ part : Node, part.UnionFree → part.plainType? ≠ none := fun _ => UnionFree.plain
  induction free with
  | scalar label type => exact .scalar label type (plain _ (.scalar label type))
  | object label properties required children ih =>
      exact .object label properties required (plain _ (.object label properties required children)) ih
  | emptyArray label => exact .emptyArray label (plain _ (.emptyArray label))
  | arrayOf label items inner ih => exact .arrayOf label items (plain _ (.arrayOf label items inner)) ih
  | mixedArray label => exact .mixedArray label (plain _ (.mixedArray label))

end Node

namespace Run

open Conflict

section Regular

variable {run : Run} (regular : run.Regular)

include regular

theorem present_of_container {entry : Occurrence} (listed : entry ∈ run.occurrences.entries)
    (enough : run.occurrences.containerPresence entry.path ≤ entry.presence) :
    ∀ tree ∈ run.comparison.perSample, (tree.get? entry.path.container).isSome = true →
      (tree.get? entry.path).isSome = true := by
  obtain ⟨tabular, -⟩ := (mem_table_iff regular entry.path).mp (List.mem_map_of_mem listed)
  have presence : entry.presence =
      run.comparison.perSample.countP fun tree => (tree.get? entry.path).isSome := by
    rw [eq_occurrence regular listed]
    exact presence_occurrence regular tabular
  rw [containerPresence_eq_countP regular listed, presence] at enough
  apply (countP_le_countP_iff _ _ run.comparison.perSample _).mp enough
  intro tree _ found
  obtain ⟨node, present⟩ := Option.isSome_iff_exists.mp found
  obtain ⟨outer, name, place⟩ := tabular.last_property
  rw [place] at present ⊢
  have inside := (Path.container_prefix outer name).trans (List.prefix_append _ [.property name])
  obtain ⟨above, here⟩ := Node.get?_of_prefix _ _ tree node inside present
  rw [here]
  rfl

theorem enough_of_asked {conflict : Conflict} (member : conflict ∈ run.conflicts)
    (resolution : conflict.resolution = .optional true) :
    ∃ entry ∈ run.occurrences.entries, entry.path = conflict.path ∧
      run.occurrences.containerPresence entry.path ≤ entry.presence := by
  obtain ⟨entry, listed, place, -, found⟩ := entry_of_asked regular member resolution
  refine ⟨entry, listed, place, ?_⟩
  rw [ofRequired?] at found
  simp only [Option.ite_none_left_eq_some, Option.some.injEq] at found
  obtain ⟨-, rfl⟩ := found
  have actual := Resolution.optional.inj resolution
  simp only [Bool.and_eq_true, decide_eq_true_eq] at actual
  exact actual.2

section Asked

variable {conflict : Conflict} (member : conflict ∈ run.conflicts)
  (resolution : conflict.resolution = .optional true) {path : Path} {name : String}
  (place : conflict.path = path ++ [.property name])

include member resolution place

theorem offers_sample : ∀ tree ∈ run.comparison.perSample, ∀ node, tree.get? path = some node →
    node.Offers name := by
  intro tree sampled node present _
  obtain ⟨entry, listed, own, enough⟩ := enough_of_asked regular member resolution
  have field := present_of_container regular listed enough tree sampled
  rw [own, place] at field
  obtain ⟨above, here⟩ :=
    Node.get?_of_prefix _ _ tree node (Path.container_prefix path name) present
  have found := field (by rw [here]; rfl)
  rw [Node.get?_append, present] at found
  simpa [Node.leadsTo] using found

theorem uncut_of_asked : ¬ Node.Cut run.comparison.degraded path := by
  obtain ⟨entry, listed, own, -⟩ := enough_of_asked regular member resolution
  obtain ⟨-, tree, sampled, node, present⟩ :=
    (mem_table_iff regular entry.path).mp (List.mem_map_of_mem listed)
  rw [own, place] at present
  obtain ⟨above, here⟩ := Node.get?_of_prefix _ _ tree node (List.prefix_append _ _) present
  exact uncut_of_sampled regular sampled here

theorem offers_merged (node : Node) (present : run.comparison.merged.get? path = some node) :
    node.Offers name := by
  have kept := fun tree => Node.map_get?_degradeAll_same (Node.offer name)
    (Node.offer_update_cons name) (Node.offer_forgetItems name) run.comparison.degraded path tree
    (uncut_of_asked regular member resolution place)
  have each : ∀ tree ∈ run.inferred, ∀ own, tree.get? path = some own → own.Offers name := by
    intro tree inferred own here
    obtain ⟨found, there, same⟩ := Node.exists_of_map_get? (kept tree).symm here
    have sampled := (mem_perSample regular _).mpr ⟨tree, inferred, rfl⟩
    exact Node.offers_congr
      (offers_sample regular member resolution place _ sampled found there) same
  have same : run.comparison.merged = run.merged.degradeAll run.comparison.degraded := by
    rw [regular.compared, Comparison.compare_eq]
  rw [same] at present
  obtain ⟨own, here, equal⟩ := Node.exists_of_map_get? (kept run.merged) present
  have offers : own.Offers name :=
    Node.get?_mergeAll_induction (Node.Offers name) (Node.offers_mergeInto name) regular.wellFormed
      each regular.joined here
  exact Node.offers_congr offers equal

end Asked

def Offered (run : Run) (tree : Node) : Prop :=
  ∀ conflict ∈ run.conflicts, conflict.resolution = .optional true → ∀ path name,
    conflict.path = path ++ [.property name] → ∀ node, tree.get? path = some node → node.Offers name

section UnionFree

variable (unionFree : ∀ tree ∈ run.comparison.perSample, tree.UnionFree)

include unionFree

omit regular in
theorem not_unionAt_of_unionFree (path : Path) : ¬ UnionAt run.comparison.perSample path := by
  intro unionAt
  obtain ⟨tree, member, node, present, union⟩ := unionAt
  exact ((unionFree tree member).everywhere.get? present).own union

/-- An object that was settled has the names asked for: it is the one before, or a sample's. -/
theorem resolve_offered {tree : Node} {conflict : Conflict} (member : conflict ∈ run.conflicts)
    (drawn : AllDrawn run.comparison.perSample run.conflicts tree) (offered : run.Offered tree) :
    run.Offered (resolve run.comparison.perSample tree conflict) := by
  intro asking inRun asked path name place
  have samples := offers_sample regular inRun asked place
  have held := offered asking inRun asked path name place
  have noUnion := not_unionAt_of_unionFree unionFree
  let holds : Option ValueType × Bool → Prop := fun shown => shown.1 = some .object → shown.2 = true
  refine resolve_kept (Node.offer name) (Node.offer_update_cons name) holds drawn
    (fun outer _ => noUnion outer) samples
    (fun other _ isRequired node => Node.offer_requireProperty name other isRequired node) ?_ held
  intro here settled node present plain object
  subst here
  obtain ⟨type, settles⟩ := Option.ne_none_iff_exists'.mp settled
  have same := type_settling run.comparison.perSample conflict type node settles
  obtain rfl : type = .object := by
    rw [← same]
    exact ((Node.plainType?_eq_some_iff _ _).mp object).2
  cases resolution : conflict.resolution with
  | dataType target =>
      obtain rfl : target = .object := by simpa [settles?, resolution] using settles
      obtain ⟨sample, lent, own⟩ :=
        template_of_dataType regular member resolution (by simp) (noUnion conflict.path)
      obtain ⟨lender, sampled, there⟩ := template_cases lent
      obtain ⟨label, made⟩ := settling_object resolution plain lent own
      rw [made, Node.offer_relabel] at object ⊢
      by_cases already : node.type = .object
      · rw [if_pos already] at object ⊢
        exact held node present object
      · rw [if_neg already] at object ⊢
        exact samples lender sampled sample there object
  | _ => simp [settles?, resolution] at settles

theorem resolved_sound (samples : ∀ tree ∈ run.comparison.perSample, tree.Sound)
    (merged : run.comparison.merged.Sound) : run.resolved.Sound := by
  have drawn : AllDrawn run.comparison.perSample run.conflicts run.comparison.merged := by
    rw [regular.compared]
    exact allDrawn_compare regular.wellFormed regular.joined
  have offered : run.Offered run.comparison.merged := by
    intro conflict member asked path name place
    exact offers_merged regular member asked place
  have all := resolveAll_induction
    (fun tree => AllDrawn run.comparison.perSample run.conflicts tree ∧ run.Offered tree ∧ tree.Sound)
    run.comparison.perSample run.conflicts run.comparison.merged ⟨drawn, offered, merged⟩
  rw [regular.resolved]
  refine (all ?_).2.2
  intro conflict member tree former
  obtain ⟨drawn', offered', sound⟩ := former
  refine ⟨resolve_allDrawn member drawn',
    resolve_offered regular unionFree member drawn' offered', resolve_sound samples sound ?_⟩
  intro asked path name place
  exact offered' conflict member asked path name place

end UnionFree

theorem inferred_sound : ∀ tree ∈ run.inferred, tree.Sound := by
  intro tree inferred
  obtain ⟨settings, read⟩ := regular.read
  obtain ⟨value, -, -, known⟩ := Node.sample_of_ofSamples read inferred
  exact Node.infer_sound settings value 0 tree known

end Regular

theorem annotated_of_generate {settings : Settings} {source : Source} {samples : List Json} {run : Run}
    (finished : generate settings source samples = .ok run) :
    run.annotated = annotateAll run.conflicts run.resolved := by
  obtain ⟨prepared, -, made⟩ := (generate_eq_ok_iff settings source samples run).mp finished
  obtain ⟨trees, merged, -, -, rfl⟩ := (ofSamples_eq_ok_iff settings prepared run).mp made
  rfl

/-- Every stage of a run leaves trees whose nodes are consistent, alternatives included, if once they
are compared the trees of the samples have no unions. The finished schema has no format left. -/
theorem stages_sound (settings : Settings) (source : Source) (samples : List Json) (run : Run)
    (ordered : ∀ sample ∈ samples, sample.Ordered)
    (finished : generate settings source samples = .ok run)
    (unionFree : ∀ tree ∈ run.comparison.perSample, tree.UnionFree) :
    (∀ tree ∈ run.inferred, tree.Everywhere Node.Consistent) ∧
      run.merged.Everywhere Node.Consistent ∧
      (∀ tree ∈ run.comparison.perSample, tree.Everywhere Node.Consistent) ∧
      run.comparison.merged.Everywhere Node.Consistent ∧
      run.resolved.Everywhere Node.Consistent ∧
      run.annotated.Everywhere Node.Consistent ∧
      run.stored.Everywhere Node.Consistent ∧
      run.stored.Everywhere fun node => node.format? = none := by
  have regular := regular_of_generate ordered finished
  have inferred := inferred_sound regular
  have merged := Node.mergeAll_sound inferred regular.joined
  have degraded : run.comparison.merged.Sound := by
    rw [regular.compared, Comparison.compare_eq]
    exact Node.degradeAll_sound _ run.merged merged
  have perSample : ∀ tree ∈ run.comparison.perSample, tree.Sound := by
    intro tree sampled
    obtain ⟨former, listed, rfl⟩ := (mem_perSample regular tree).mp sampled
    exact Node.degradeAll_sound _ former (inferred former listed)
  have resolved := resolved_sound regular unionFree perSample degraded
  have annotated : run.annotated.Sound := by
    rw [annotated_of_generate finished]
    exact annotateAll_sound run.conflicts resolved
  have stored : run.stored.Sound ∧ run.stored.Everywhere fun node => node.format? = none := by
    rw [regular.stored]
    exact Node.mapTypes_sound (annotateAll_sound run.conflicts resolved)
  exact ⟨inferred, merged, perSample, degraded, resolved, annotated, stored⟩

/-- The elements of the second sample do not share a name that becomes required all the same, and an
object borrows its shape where the last sample has null. -/
theorem stages_sound_borrowed :
    let samples := [
      Json.object [("a", .object [("b", .bool true)]), ("xs", .array [.object [("c", .null)]])],
      .object [("a", .object []), ("xs", .array [.object [("c", .null)], .object []])],
      .object [("a", .null)]]
    ∃ run, (∀ sample ∈ samples, sample.Ordered) ∧
      generate {} { dataset := "events" } samples = .ok run ∧
        (∀ tree ∈ run.comparison.perSample, tree.UnionFree) ∧
          (∃ conflict ∈ run.conflicts, conflict.resolution = .optional true ∧
            conflict.path = [.property "xs", .items, .property "c"]) ∧
            (∃ conflict ∈ run.conflicts, conflict.resolution = .dataType .object ∧
              conflict.path = [.property "a"]) ∧
              run.stored.Everywhere Node.Consistent ∧
                run.stored.Everywhere fun node => node.format? = none := by
  intro samples
  have ordered : ∀ sample ∈ samples, sample.Ordered := Json.ordered_of_sorted samples (by rfl)
  let item (required : List String) : Node :=
    .object {} [("c", .scalar {} .null)] required
  let trees : List Node :=
    [.object {} [("a", .object {} [("b", .scalar {} .boolean)] ["b"]),
        ("xs", .arrayOf {} (item ["c"]))] ["a", "xs"],
      .object {} [("a", .object {} [] []), ("xs", .arrayOf {} (item []))] ["a", "xs"],
      .object {} [("a", .scalar {} .null)] ["a"]]
  have finished : ∃ run, generate {} { dataset := "events" } samples = .ok run ∧
      run.comparison.perSample = trees ∧
        (∃ conflict ∈ run.conflicts, conflict.resolution = .optional true ∧
          conflict.path = [.property "xs", .items, .property "c"]) ∧
          ∃ conflict ∈ run.conflicts, conflict.resolution = .dataType .object ∧
            conflict.path = [.property "a"] :=
    ⟨_, rfl, by rfl, by decide, by decide⟩
  obtain ⟨run, made, same, asked, settled⟩ := finished
  have unionFree : ∀ tree ∈ run.comparison.perSample, tree.UnionFree := by
    have scalar := Node.UnionFree.scalar {}
    have items : ∀ required, (item required).UnionFree := by
      intro required
      exact .object _ _ _ (by simp [scalar])
    have inner : (Node.object {} [("b", .scalar {} .boolean)] ["b"]).UnionFree :=
      .object _ _ _ (by simp [scalar])
    have empty : (Node.object {} [] []).UnionFree := .object _ _ _ (by simp)
    have array : ∀ required, (Node.arrayOf {} (item required)).UnionFree := by
      intro required
      exact .arrayOf _ _ (items required)
    rw [same]
    intro tree member
    simp only [trees, List.mem_cons, List.not_mem_nil, or_false] at member
    rcases member with rfl | rfl | rfl
    · exact .object _ _ _ (by simp [inner, array])
    · exact .object _ _ _ (by simp [empty, array])
    · exact .object _ _ _ (by simp [scalar])
  obtain ⟨-, -, -, -, -, -, stored⟩ :=
    stages_sound {} { dataset := "events" } samples run ordered made unionFree
  exact ⟨run, ordered, made, unionFree, asked, settled, stored⟩

end Run

end EventSchema
