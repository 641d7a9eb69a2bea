import EventSchema.Proofs.Alternatives
import EventSchema.Proofs.ObjectOrigins
/-!
The values that a path leads to in a sample, in an array every element, and what its tree says about
them. A name that the tree has somewhere one of the values has, and a name that it requires all of
them have, as long as the sample conforms to its tree and no alternative is a union itself.
-/
namespace EventSchema

namespace Json

/-- The values that a path leads to, through all elements of arrays. -/
def reached : Path → Json → List Json
  | [], value => [value]
  | .property name :: path, value => (value.member? name).toList.flatMap (reached path)
  | .items :: path, value => (value.elements?.getD []).flatMap (reached path)

theorem reached_names (names : List String) (path : Path) (value : Json) :
    value.reached (names.map .property ++ path) =
      (Source.follow names value).toList.flatMap (reached path) := by
  induction names generalizing value with
  | nil => simp [Source.follow]
  | cons name names ih =>
      rw [List.map_cons, List.cons_append, reached, Source.follow]
      cases value.member? name with
      | none => rfl
      | some part => simp [ih part]

end Json

namespace Node

variable {settings : Settings} {name : String} {path : Path}

def Has (name : String) (node : Node) : Prop := node.leadsTo name = true

theorem has_of_relabel (label : Label) (part : Node) (has : (part.relabel label).Has name) :
    part.Has name := by
  rwa [Has, (Prod.mk.inj (demand_relabel name label part)).2] at has

theorem not_has_of_plain {node : Node} (other : node.isObject = false) : ¬ node.Has name := by
  cases node with
  | object _ _ _ => cases other
  | _ => simp [Has, leadsTo, step?]

theorem Reaches.has_of_requires {node : Node} (sound : node.Sound)
    (reaches : Reaches (Requires name) path node) : Reaches (Has name) path node := by
  induction reaches with
  | @here node own =>
      cases node with
      | object label properties required =>
          rw [requires_object] at own
          have known := ((consistent_object _ _ _).mp sound.own).2 name own
          exact .here ((Keyed.lookup_isSome_iff name properties).mpr known)
      | _ => exact absurd own (not_requires_of_plain rfl)
  | step step next _ ih => exact .step step next (ih (sound.step? next))
  | branch label branches member _ ih => exact .branch label branches member (ih (sound.branch member))

theorem mem_of_sameShapeBranches {left right : List Node} {node : Node}
    (same : sameShapeBranches left right = true) (member : node ∈ left) :
    ∃ other ∈ right, node.sameShape other = true := by
  induction left generalizing right with
  | nil => cases member
  | cons first rest ih =>
      cases right with
      | nil => cases same
      | cons first' rest' =>
          simp only [sameShapeBranches, Bool.and_eq_true] at same
          rcases List.mem_cons.mp member with rfl | later
          · exact ⟨first', List.mem_cons_self, same.1⟩
          · obtain ⟨other, listed, equal⟩ := ih same.2 later
            exact ⟨other, List.mem_cons_of_mem first' listed, equal⟩

theorem Reaches.of_sameShape {left right : Node} (same : left.sameShape right = true)
    (reaches : Reaches (Has name) path left) : Reaches (Has name) path right := by
  induction reaches generalizing right with
  | @here left own =>
      obtain ⟨child, next⟩ := Option.isSome_iff_exists.mp own
      obtain ⟨child', next', -⟩ := step?_of_sameShape (.property name) left right child same next
      exact .here (by rw [Has, leadsTo, next']; rfl)
  | @step left child _ step next _ ih =>
      obtain ⟨child', next', inner⟩ := step?_of_sameShape step left right child same next
      exact .step step next' (ih inner)
  | branch label branches member _ ih =>
      cases right with
      | union label' branches' =>
          rw [sameShape] at same
          obtain ⟨other, listed, equal⟩ := mem_of_sameShapeBranches same member
          exact .branch label' branches' listed (ih equal)
      | _ => simp [sameShape] at same

section Elements

theorem reaches_apart {first second : Node} (reaches : Reaches (Has name) path (apart first second)) :
    Reaches (Has name) path first ∨ Reaches (Has name) path second := by
  cases reaches with
  | here own => exact absurd own (not_has_of_plain rfl)
  | step step next _ => cases step <;> cases next
  | branch _ _ member inner =>
      rcases mem_addBranch member with one | rfl
      · exact .inl (List.mem_singleton.mp one ▸ inner)
      · exact .inr inner

theorem mem_mergeElementBranches {branches merged : List Node} {element branch : Node}
    (found : mergeElementBranches branches element = some merged) (member : branch ∈ merged) :
    branch ∈ branches ∨ ∃ present ∈ branches, present.family = element.family ∧
      branch = mergeElement present element := by
  induction branches generalizing merged with
  | nil => simp [mergeElementBranches] at found
  | cons first rest ih =>
      rw [mergeElementBranches] at found
      split at found
      · rename_i same
        cases found
        rcases List.mem_cons.mp member with rfl | later
        · exact .inr ⟨first, List.mem_cons_self, same, rfl⟩
        · exact .inl (List.mem_cons_of_mem first later)
      · obtain ⟨rest', found', rfl⟩ := Option.map_eq_some_iff.mp found
        rcases List.mem_cons.mp member with rfl | later
        · exact .inl List.mem_cons_self
        · rcases ih found' later with old | ⟨present, listed, merged⟩
          · exact .inl (List.mem_cons_of_mem first old)
          · exact .inr ⟨present, List.mem_cons_of_mem first listed, merged⟩

theorem reaches_mergeElement_of_plain {target element : Node} (plain : target.plainType? ≠ none)
    (same : target.family = element.family → Reaches (Has name) path (mergeElement target element) →
      Reaches (Has name) path target ∨ Reaches (Has name) path element)
    (reaches : Reaches (Has name) path (mergeElement target element)) :
    Reaches (Has name) path target ∨ Reaches (Has name) path element := by
  by_cases family : target.family = element.family
  · exact same family reaches
  · rw [mergeElement_of_different plain family] at reaches
    exact reaches_apart reaches

def isLeaf : Node → Bool
  | scalar _ _ | emptyArray _ | mixedArray _ => true
  | _ => false

theorem not_reaches_leaf {node : Node} (leaf : node.isLeaf = true) : ¬ Reaches (Has name) path node := by
  intro reaches
  cases node with
  | object _ _ _ | arrayOf _ _ | union _ _ => cases leaf
  | _ =>
      have own := reaches.of_leaf (by simp [plainType?]) fun step => by cases step <;> rfl
      exact not_has_of_plain rfl own

theorem reaches_addProperties {label label' own : Label} {properties properties' : List (String × Node)}
    {required required' demanded : List String}
    (inner : ∀ key child child' rest, Keyed.lookup key properties = some child →
      Reaches (Has name) rest (mergeElement child child') →
        Reaches (Has name) rest child ∨ Reaches (Has name) rest child')
    (reaches : Reaches (Has name) path (object own
      (addProperties (mergeElementProperties properties properties') properties') demanded)) :
    Reaches (Has name) path (object label properties required) ∨
      Reaches (Has name) path (object label' properties' required') := by
  cases reaches with
  | here has =>
      simp only [Has, leadsTo, step?, lookup_merged] at has
      cases former : Keyed.lookup name properties with
      | some child => exact .inl (.here (by simp [Has, leadsTo, step?, former]))
      | none =>
          rw [former] at has
          exact .inr (.here (by simpa [Has, leadsTo, step?] using has))
  | @step _ child rest step next below =>
      cases step with
      | items => cases next
      | property key =>
          simp only [step?, lookup_merged] at next
          cases former : Keyed.lookup key properties with
          | none =>
              rw [former, Option.merge_none_left] at next
              exact .inr (.step (.property key) next below)
          | some older =>
              cases latter : Keyed.lookup key properties' with
              | none =>
                  rw [former, latter] at next
                  exact .inl (.step (.property key) (former.trans next) below)
              | some newer =>
                  rw [former, latter] at next
                  obtain rfl : mergeElement older newer = child := Option.some.inj next
                  exact (inner key older newer rest former below).imp
                    (.step (.property key) former) (.step (.property key) latter)

theorem reaches_mergeElement {mixed : Prop} {target element : Node}
    (wellFormed : target.WellFormed mixed)
    (reaches : Reaches (Has name) path (mergeElement target element)) :
    Reaches (Has name) path target ∨ Reaches (Has name) path element := by
  induction wellFormed generalizing path element with
  | scalar label type =>
      refine reaches_mergeElement_of_plain (by simp [plainType?]) (fun same reaches => ?_) reaches
      have same' : type.toValueType.family = element.family := same
      simp only [mergeElement, same', ne_eq, not_true_eq_false, if_false] at reaches
      cases element <;> exact (not_reaches_leaf rfl reaches).elim
  | object label properties required _ children ih =>
      refine reaches_mergeElement_of_plain (by simp [plainType?]) (fun same reaches => ?_) reaches
      have same' : element.family = .object := same.symm
      simp only [mergeElement, same', ne_eq, not_true_eq_false, if_false] at reaches
      cases element with
      | object label' properties' required' =>
          apply reaches_addProperties _ reaches
          intro key child child' rest found below
          exact ih _ (Keyed.mem_of_lookup found) below
      | _ => exact .inl (Reaches.of_relabel has_of_relabel reaches)
  | emptyArray label =>
      refine reaches_mergeElement_of_plain (by simp [plainType?]) (fun same reaches => ?_) reaches
      have same' : element.family = .array := same.symm
      simp only [mergeElement, same', ne_eq, not_true_eq_false, if_false] at reaches
      cases element with
      | arrayOf label' items =>
          exact .inr (Reaches.of_relabel has_of_relabel reaches)
      | mixedArray _ => exact (not_reaches_leaf rfl reaches).elim
      | _ => exact (not_reaches_leaf rfl reaches).elim
  | arrayOf label items _ ih =>
      refine reaches_mergeElement_of_plain (by simp [plainType?]) (fun same reaches => ?_) reaches
      have same' : element.family = .array := same.symm
      simp only [mergeElement, same', ne_eq, not_true_eq_false, if_false] at reaches
      cases element with
      | arrayOf label' items' =>
          cases reaches with
          | here has => exact absurd has (not_has_of_plain rfl)
          | @step _ child _ step next below =>
              cases step with
              | property key => cases next
              | items =>
                  obtain rfl : mergeElement items items' = child := Option.some.inj next
                  exact (ih below).imp (.step .items rfl) (.step .items rfl)
      | mixedArray _ => exact (not_reaches_leaf rfl reaches).elim
      | _ => exact .inl (Reaches.of_relabel has_of_relabel reaches)
  | mixedArray label _ =>
      refine reaches_mergeElement_of_plain (by simp [plainType?]) (fun same reaches => ?_) reaches
      have same' : element.family = .array := same.symm
      simp only [mergeElement, same', ne_eq, not_true_eq_false, if_false] at reaches
      exact (not_reaches_leaf rfl reaches).elim
  | union label first second _ _ _ one other =>
      simp only [mergeElement] at reaches
      cases reaches with
      | here own => exact absurd own (not_has_of_plain rfl)
      | step step next _ => cases step <;> cases next
      | @branch _ node _ _ member inner =>
          cases found : mergeElementBranches [first, second] element with
          | none =>
              rw [found] at member
              rcases mem_addBranch member with old | rfl
              · exact .inl (.branch label _ old inner)
              · exact .inr inner
          | some merged =>
              rw [found] at member
              rcases mem_mergeElementBranches found member with old | ⟨present, listed, -, rfl⟩
              · exact .inl (.branch label _ old inner)
              · have either : Reaches (Has name) path present ∨ Reaches (Has name) path element := by
                  rcases List.mem_pair.mp listed with rfl | rfl
                  · exact one inner
                  · exact other inner
                exact either.imp_left (.branch label _ listed)

theorem reaches_inferElements (elements : List Json) {depth : Nat} {start merged : Option Node}
    {items : Node} (ordered : ∀ element ∈ elements, element.Ordered)
    (former : ∀ node ∈ start, node.WellFormed False)
    (inferred : inferElements settings depth start elements = .ok merged) (found : merged = some items)
    (reaches : Reaches (Has name) path items) :
    (∃ node ∈ start, Reaches (Has name) path node) ∨
      ∃ element ∈ elements, ∃ tree, infer settings depth element = .ok tree ∧
        Reaches (Has name) path tree := by
  induction elements generalizing start with
  | nil =>
      cases inferred
      exact .inl ⟨items, found, reaches⟩
  | cons element rest ih =>
      obtain ⟨first, others⟩ := List.forall_mem_cons.mp ordered
      obtain ⟨next, read, remaining⟩ := inferElements_cons inferred
      have latter := infer_wellFormed settings element depth next first read
      have added := addElement_wellFormed start next former latter
      rcases ih others (fun node same => Option.some.inj same ▸ added) remaining with
        ⟨node, same, inner⟩ | ⟨later, listed, tree, own, inner⟩
      · obtain rfl : addElement start next = node := Option.some.inj same
        cases start with
        | none => exact .inr ⟨element, List.mem_cons_self, next, read, inner⟩
        | some target =>
            rcases reaches_mergeElement (former target rfl) inner with older | newer
            · exact .inl ⟨target, rfl, older⟩
            · exact .inr ⟨element, List.mem_cons_self, next, read, newer⟩
      · exact .inr ⟨later, List.mem_cons_of_mem element listed, tree, own, inner⟩

end Elements

/-- A name that the tree of a value has somewhere one of the values there has. -/
theorem exists_reached_of_reaches {value : Json} (ordered : value.Ordered) {depth : Nat} {tree : Node}
    (inferred : infer settings depth value = .ok tree) (reaches : Reaches (Has name) path tree) :
    ∃ part ∈ value.reached path, (part.member? name).isSome = true := by
  induction ordered generalizing depth tree path with
  | null | bool _ | string _ =>
      cases bounded_eq_ok inferred
      exact (not_reaches_leaf rfl reaches).elim
  | number number =>
      cases number <;> cases bounded_eq_ok inferred <;> exact (not_reaches_leaf rfl reaches).elim
  | array elements each ih =>
      obtain ⟨merged, read, rfl⟩ := infer_array inferred
      cases merged with
      | none => exact (not_reaches_leaf rfl reaches).elim
      | some items =>
          cases reaches with
          | here has => exact absurd has (not_has_of_plain rfl)
          | @step _ child path step next below =>
              cases step with
              | property key => cases next
              | items =>
                  obtain rfl : items = child := Option.some.inj next
                  rcases reaches_inferElements elements each (fun _ none => by cases none) read rfl
                    below with ⟨_, none, -⟩ | ⟨element, listed, tree, own, inner⟩
                  · cases none
                  · obtain ⟨part, reached, has⟩ := ih element listed own inner
                    exact ⟨part, List.mem_flatMap.mpr ⟨element, listed, reached⟩, has⟩
  | object members increasing each ih =>
      have known := fun key => step?_infer key inferred
      obtain ⟨properties, -, rfl⟩ := infer_object inferred
      cases reaches with
      | here has =>
          refine ⟨.object members, by simp [Json.reached], ?_⟩
          rcases known name with ⟨-, absent⟩ | ⟨part, child, present, -, -⟩
          · rw [Has, leadsTo, absent] at has
            cases has
          · rw [present]
            rfl
      | @step _ child path step next below =>
          cases step with
          | items => cases next
          | property key =>
              rcases known key with ⟨-, absent⟩ | ⟨part, child', present, found, own⟩
              · rw [absent] at next
                cases next
              · obtain rfl : child' = child := Option.some.inj (found.symm.trans next)
                obtain ⟨inner, reached, has⟩ :=
                  ih (key, part) (Keyed.mem_of_lookup present) own below
                refine ⟨inner, ?_, has⟩
                rw [Json.reached, present]
                simpa using reached

section Conforming

def outset : Path → ValueType
  | [] => .object
  | step :: _ => container step

theorem family_of_requires {node : Node} (plain : node.plainType? ≠ none)
    (reaches : Reaches (Requires name) path node) : node.family = outset path := by
  cases reaches with
  | here own =>
      cases node with
      | object _ _ _ => rfl
      | _ => exact absurd own (not_requires_of_plain rfl)
  | step step next _ =>
      have own := ((plainType?_eq_some_iff _ _).mp (plainType?_of_step? next)).2
      rw [family, own]
      cases step <;> rfl
  | branch _ _ _ _ => exact absurd rfl plain

theorem family_of_reached {value : Json} {members : List (String × Json)}
    (reached : .object members ∈ value.reached path) :
    (ValueType.ofValue value).family = outset path := by
  cases path with
  | nil =>
      rw [← List.mem_singleton.mp reached]
      rfl
  | cons step path =>
      cases step with
      | property key =>
          cases value with
          | object _ => rfl
          | _ => simp [Json.reached, Json.member?] at reached
      | items =>
          cases value with
          | array _ => rfl
          | _ => simp [Json.reached, Json.elements?] at reached

/-- Where a sample conforms to its tree, an object of the sample has what the tree requires there. -/
theorem required_of_conforms {value : Json} {tree : Node} (wellFormed : tree.WellFormed False)
    (flat : tree.Flat) (conforming : value.Conforms tree)
    (reaches : Reaches (Requires name) path tree) {members : List (String × Json)}
    (reached : .object members ∈ value.reached path) : name ∈ Keyed.keys members := by
  induction reaches generalizing value with
  | @here tree own =>
      obtain rfl := List.mem_singleton.mp reached
      cases tree with
      | object label properties required =>
          obtain ⟨_, same, -, present⟩ := (conforms_object_iff _ _ _ _).mp conforming
          obtain rfl := Json.object.inj same
          exact present name ((requires_object _ _ _ _).mp own)
      | _ => exact absurd own (not_requires_of_plain rfl)
  | @step tree child path step next _ ih =>
      have inner := fun value => @ih value (wellFormed.step? next) (flat.step? next)
      cases step with
      | property key =>
          obtain ⟨label, properties, required, rfl, found⟩ :=
            (step?_property_eq_some_iff key tree child).mp next
          obtain ⟨others, rfl, covered, -⟩ := (conforms_object_iff _ _ _ _).mp conforming
          obtain ⟨part, present, inside⟩ := List.mem_flatMap.mp reached
          have listed := Keyed.mem_of_lookup (Option.mem_toList.mp present)
          obtain ⟨child', found', conforming'⟩ := covered key part listed
          obtain rfl : child' = child := Option.some.inj (found'.symm.trans found)
          exact inner part conforming' inside
      | items =>
          obtain ⟨label, rfl⟩ := (step?_items_eq_some_iff tree child).mp next
          obtain ⟨elements, rfl, each⟩ := (conforms_arrayOf_iff _ _ _).mp conforming
          obtain ⟨element, listed, inside⟩ := List.mem_flatMap.mp reached
          exact inner element (each element listed) inside
  | @branch path node label branches member below ih =>
      have plain := fun branch listed => flat.own label branches rfl branch listed
      have family : (ValueType.ofValue value).family = node.family := by
        rw [family_of_reached reached, family_of_requires (plain node member) below]
      cases conforming with
      | branch _ _ _ other offered listed conforming' =>
          -- Alternatives have different families, so the value conforms to this one.
          have same : other = node := by
            have equal := (family_of_conforms conforming' (plain other listed)).symm.trans family
            cases wellFormed with
            | union _ first second different _ _ =>
                rcases List.mem_pair.mp listed with rfl | rfl <;>
                  rcases List.mem_pair.mp member with rfl | rfl
                · rfl
                · exact absurd equal different
                · exact absurd equal.symm different
                · rfl
          exact ih (wellFormed.branch member) (flat.branch member) (same ▸ conforming') reached
      | beyond _ _ _ other _ => exact absurd (family ▸ List.mem_map_of_mem member) other

end Conforming

end Node

end EventSchema
