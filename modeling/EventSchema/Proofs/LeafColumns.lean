import EventSchema.Proofs.LastLeaves
import EventSchema.Proofs.Splitting

namespace EventSchema

namespace Naming

def Apart (naming : Naming) (name : String) : Prop :=
  ∀ char ∈ naming.separator.toList, char ∉ name.toList

theorem join_injective {naming : Naming} {names names' : List String} (some : names ≠ [])
    (some' : names' ≠ []) (apart : ∀ name ∈ names, naming.Apart name)
    (apart' : ∀ name ∈ names', naming.Apart name) (same : naming.join names = naming.join names') :
    names = names' := by
  have undone : ∀ char, naming.separator = String.singleton char → names = names' := by
    intro char separator
    have marked : char ∈ naming.separator.toList := by simp [separator]
    rw [← Text.split_join char names some fun name member => apart name member char marked,
      ← Text.split_join char names' some' fun name member => apart' name member char marked]
    exact congrArg (Text.split char) (separator ▸ same)
  cases naming with
  | dotted => exact undone '.' rfl
  | underscored => exact undone '_' rfl

end Naming

namespace Column

def ofTree (naming : Naming) (tree : Node) : List Column :=
  Keyed.values (addLeaves naming [] (leavesBelow [] tree))

theorem ofSchema_alone {document : Json} {tree : Node} (naming : Naming)
    (read : Node.ofDocument document = .ok tree) :
    ofSchema document [] [] naming = .ok (ofTree naming tree) := by
  rw [ofSchema, read]
  rfl

theorem name_of_mem_addLeaves {naming : Naming} {leaves : List (List String × Node)}
    {entry : String × Column} (member : entry ∈ addLeaves naming [] leaves) : entry.2.name = entry.1 := by
  rw [addLeaves_nil] at member
  obtain ⟨leaf, -, rfl⟩ := List.mem_map.mp (Keyed.mem_ofList member)
  rfl

theorem names_ofTree_increasing (naming : Naming) (tree : Node) :
    Ordered.Increasing ((ofTree naming tree).map name) := by
  rw [ofTree, names_values fun _ => name_of_mem_addLeaves, addLeaves_nil]
  exact Keyed.increasing_ofList _

/-- The columns are one for each leaf, and select the leaf by the names that lead to it. -/
def OnePerLeaf (tree : Node) (columns : List Column) : Prop :=
  ∃ leaves : List (List String × Node), leaves.Nodup ∧
    (∀ leaf, leaf ∈ leaves ↔ tree.LeafAt leaf.1 leaf.2) ∧
      (columns.map expression).Perm (leaves.map fun leaf => Expression.select leaf.1)

/-- The names that lead to different leaves join to different texts. -/
def JoinApart (naming : Naming) (tree : Node) : Prop :=
  ∀ names names' leaf leaf', tree.LeafAt names leaf → tree.LeafAt names' leaf' →
    naming.join names = naming.join names' → names = names'

section InKeyOrder

variable {tree : Node} (ordered : tree.Everywhere Node.InKeyOrder)

include ordered

theorem mem_leavesBelow_root (leaf : List String × Node) :
    leaf ∈ leavesBelow [] tree ↔ tree.LeafAt leaf.1 leaf.2 := by
  rw [mem_leavesBelow_iff ordered]
  simp

theorem nodup_leavesBelow : (leavesBelow [] tree).Nodup := by
  apply (leavesBelow_pairwise ordered).imp
  intro first second less same
  exact irrefl_of (· < ·) second.1 (same ▸ less)

theorem mem_ofTree_iff (naming : Naming) (column : Column) :
    column ∈ ofTree naming tree ↔
      ∃ names leaf, tree.LeafAt names leaf ∧ column = ofLeaf naming names leaf ∧
        ∀ names' leaf', tree.LeafAt names' leaf' → names < names' →
          naming.join names' ≠ naming.join names := by
  have found := Origin.lookup_leaves_iff ⟨[], tree⟩ ordered naming
  have increasing := Keyed.increasing_ofList ((leavesBelow [] tree).map (named naming))
  simp only [Origin.leaves] at found
  rw [ofTree, addLeaves_nil, Keyed.mem_values_iff increasing]
  constructor
  · rintro ⟨key, here⟩
    obtain ⟨names, leaf, last, rfl⟩ := (found key column).mp here
    refine ⟨names, leaf, (Origin.hasLeaf_root_iff tree names leaf).mp last.present, rfl, ?_⟩
    intro names' leaf' present later
    rw [last.joined]
    exact last.last names' leaf' ((Origin.hasLeaf_root_iff tree _ _).mpr present) later
  · rintro ⟨names, leaf, present, rfl, last⟩
    refine ⟨naming.join names, (found _ _).mpr ⟨names, leaf, ⟨?_, rfl, ?_⟩, rfl⟩⟩
    · exact (Origin.hasLeaf_root_iff tree names leaf).mpr present
    · intro names' leaf' present' later
      exact last names' leaf' ((Origin.hasLeaf_root_iff tree _ _).mp present') later

theorem nodup_joined_iff (naming : Naming) :
    (Keyed.keys ((leavesBelow [] tree).map (named naming))).Nodup ↔ JoinApart naming tree := by
  rw [Keyed.keys, List.map_map, List.nodup_map_iff_inj_on (nodup_leavesBelow ordered)]
  constructor
  · intro injective names names' leaf leaf' present present' same
    have equal := injective (names, leaf) ((mem_leavesBelow_root ordered _).mpr present)
      (names', leaf') ((mem_leavesBelow_root ordered _).mpr present') same
    exact congrArg Prod.fst equal
  · intro apart leaf inside leaf' inside' same
    have present := (mem_leavesBelow_root ordered leaf).mp inside
    have present' := (mem_leavesBelow_root ordered leaf').mp inside'
    have names := apart _ _ _ _ present present' same
    have found := present'.2.2
    rw [← names, present.2.2] at found
    exact Prod.ext names (Option.some.inj found)

theorem onePerLeaf_iff (naming : Naming) :
    OnePerLeaf tree (ofTree naming tree) ↔ JoinApart naming tree := by
  rw [← nodup_joined_iff ordered]
  constructor
  · rintro ⟨leaves, once, just, perm⟩
    have same : leaves.Perm (leavesBelow [] tree) := by
      apply (List.perm_ext_iff_of_nodup once (nodup_leavesBelow ordered)).mpr
      intro leaf
      rw [just, mem_leavesBelow_root ordered]
    -- as many columns as leaves: none was replaced
    rw [← Keyed.length_ofList_eq_iff, ← addLeaves_nil]
    have length := perm.length_eq
    simpa [ofTree, Keyed.values, same.length_eq] using length
  · intro once
    refine ⟨leavesBelow [] tree, nodup_leavesBelow ordered, mem_leavesBelow_root ordered, ?_⟩
    have perm := (Keyed.ofList_perm once).map fun entry => entry.2.expression
    rw [← addLeaves_nil, List.map_map] at perm
    rw [ofTree, Keyed.values, List.map_map]
    exact perm

end InKeyOrder

/-- A document on its own gives a column for each leaf, ordered by name, but of leaves whose names
join alike only the last one's. No leaf is lost exactly when none join alike, in particular when no
name holds a separator. -/
theorem ofSchema_leaves (document : Json) (ordered : document.Ordered) (tree : Node)
    (read : Node.ofDocument document = .ok tree) (naming : Naming) :
    ∃ columns, ofSchema document [] [] naming = .ok columns ∧
      Ordered.Increasing (columns.map name) ∧
        (∀ column, column ∈ columns ↔
          ∃ names leaf, tree.LeafAt names leaf ∧ column = ofLeaf naming names leaf ∧
            ∀ names' leaf', tree.LeafAt names' leaf' → names < names' →
              naming.join names' ≠ naming.join names) ∧
          (OnePerLeaf tree columns ↔ JoinApart naming tree) ∧
            ((∀ names leaf, tree.LeafAt names leaf → ∀ name ∈ names, naming.Apart name) →
              OnePerLeaf tree columns) := by
  have inKeyOrder := Node.inKeyOrder_of_ofDocument ordered read
  have distinct := onePerLeaf_iff inKeyOrder naming
  refine ⟨ofTree naming tree, ofSchema_alone naming read, names_ofTree_increasing naming tree,
    mem_ofTree_iff inKeyOrder naming, distinct, ?_⟩
  intro apart
  apply distinct.mpr
  intro names names' leaf leaf' present present' same
  exact Naming.join_injective present.1 present'.1 (apart names leaf present)
    (apart names' leaf' present') same

/-- Joined by dots, a name with an underscore is told from a property of an object. -/
theorem ofSchema_leaves_dotted :
    let document : Json := .object [("properties", .object
      [("a", .object [("properties", .object [("b", .object [("type", .string "string")])])]),
        ("a_b", .object [("type", .array [.string "integer", .string "null"])]),
        ("xs", .object [("type", .string "array")])])]
    let tree : Node := .object {}
      [("a", .object {} [("b", .scalar {} .string)] []),
        ("a_b", .union {} [.scalar {} .integer, .scalar {} .null]), ("xs", .emptyArray {})] []
    document.Ordered ∧ Node.ofDocument document = .ok tree ∧
      ∃ columns, ofSchema document [] [] .dotted = .ok columns ∧ columns.length = 3 ∧
        OnePerLeaf tree columns := by
  intro document tree
  have ordered : document.Ordered :=
    Json.ordered_of_sorted [document] (by rfl) document List.mem_cons_self
  have read : Node.ofDocument document = .ok tree := by cbv
  obtain ⟨columns, made, -, -, -, kept⟩ := ofSchema_leaves document ordered tree read .dotted
  have inKeyOrder := Node.inKeyOrder_of_ofDocument ordered read
  have leaves : leavesBelow [] tree = [(["a", "b"], .scalar {} .string),
      (["a_b"], .union {} [.scalar {} .integer, .scalar {} .null]), (["xs"], .emptyArray {})] := rfl
  have apart : ∀ names leaf, tree.LeafAt names leaf → ∀ name ∈ names, Naming.dotted.Apart name := by
    intro names leaf present
    have listed := (mem_leavesBelow_root inKeyOrder (names, leaf)).mpr present
    rw [leaves] at listed
    have places : names ∈ [["a", "b"], ["a_b"], ["xs"]] :=
      List.mem_map_of_mem (f := Prod.fst) listed
    have plain : ∀ names ∈ [["a", "b"], ["a_b"], ["xs"]], ∀ name ∈ names,
        Naming.dotted.Apart name := by
      simp [Naming.Apart, Naming.separator]
    exact plain names places
  obtain rfl : ofTree .dotted tree = columns :=
    Except.ok.inj ((ofSchema_alone .dotted read).symm.trans made)
  exact ⟨ordered, read, _, made, rfl, kept apart⟩

/-- The leaf `b` of `a` loses its column to the property `a.b`. -/
theorem ofSchema_leaves_lost :
    let document : Json := .object [("properties", .object
      [("a", .object [("properties", .object [("b", .object [("type", .string "string")])])]),
        ("a.b", .object [("type", .string "integer")])])]
    let tree : Node := .object {}
      [("a", .object {} [("b", .scalar {} .string)] []), ("a.b", .scalar {} .integer)] []
    document.Ordered ∧ Node.ofDocument document = .ok tree ∧
      tree.LeafAt ["a", "b"] (.scalar {} .string) ∧ tree.LeafAt ["a.b"] (.scalar {} .integer) ∧
        ∃ columns, ofSchema document [] [] .dotted = .ok columns ∧ columns.length = 1 ∧
          ¬ OnePerLeaf tree columns := by
  intro document tree
  have ordered : document.Ordered :=
    Json.ordered_of_sorted [document] (by rfl) document List.mem_cons_self
  have read : Node.ofDocument document = .ok tree := by cbv
  have inner : tree.LeafAt ["a", "b"] (.scalar {} .string) := ⟨by simp, rfl, rfl⟩
  have outer : tree.LeafAt ["a.b"] (.scalar {} .integer) := ⟨by simp, rfl, rfl⟩
  refine ⟨ordered, read, inner, outer, ofTree .dotted tree, ofSchema_alone .dotted read, rfl, ?_⟩
  rw [onePerLeaf_iff (Node.inKeyOrder_of_ofDocument ordered read)]
  intro apart
  have same := apart _ _ _ _ inner outer (by decide)
  exact absurd same (by decide)

end Column

end EventSchema
