import EventSchema.Proofs.FieldListing
import EventSchema.Proofs.Occurrences
import EventSchema.Proofs.ReachedValues
import EventSchema.Repetition
/-!
The rollup entries of a set of rows. There is one for every path at which the schema has a scalar of
a unique format and some row has a value, in the order of paths, and each is made of the values that
the rows have at its path, in whatever order they come.
-/
namespace EventSchema

namespace Json

def parts : Step → Json → List Json
  | .property name, value => (value.member? name).toList
  | .items, value => value.elements?.getD []

theorem reached_cons (step : Step) (path : Path) (value : Json) :
    value.reached (step :: path) = (value.parts step).flatMap (reached path) := by
  cases step <;> rfl

end Json

namespace Repetition

variable (formats : List Format)

/-- The node is a scalar of a unique format. -/
def Measured (node : Node) : Prop :=
  ∃ label type format, node = .scalar label type ∧ label.format = some format ∧ format ∈ formats

def textOf : Node → Json → List String
  | .scalar _ _, .null => []
  | .scalar label _, value => if isUnique formats label.format then [valueText value] else []
  | _, _ => []

def textsAt (schema : Node) (rows : List Json) (path : Path) : List String :=
  (schema.get? path).elim [] fun node =>
    rows.flatMap fun row => (row.reached path).flatMap (textOf formats node)

theorem textOf_ne_nil_iff (node : Node) (value : Json) :
    textOf formats node value ≠ [] ↔ Measured formats node ∧ value ≠ .null := by
  have unique : ∀ label : Label, isUnique formats label.format = true ↔
      ∃ format, label.format = some format ∧ format ∈ formats := by
    intro label
    simp [isUnique, Option.any_eq_true]
  cases node with
  | scalar label type => cases value <;> simp [textOf, Measured, unique]
  | _ => simp [textOf, Measured]

theorem textsAt_ne_nil_iff (schema : Node) (rows : List Json) (path : Path) :
    textsAt formats schema rows path ≠ [] ↔
      (∃ node, schema.get? path = some node ∧ Measured formats node) ∧
        ∃ row ∈ rows, ∃ value ∈ row.reached path, value ≠ .null := by
  rw [textsAt]
  cases schema.get? path with
  | none => simp
  | some node =>
      simp only [Option.elim_some, ne_eq, List.flatMap_eq_nil_iff, not_forall, exists_prop,
        Option.some.injEq, exists_eq_left']
      constructor
      · rintro ⟨row, sampled, value, reached, text⟩
        obtain ⟨measured, some⟩ := (textOf_ne_nil_iff formats node value).mp text
        exact ⟨measured, row, sampled, value, reached, some⟩
      · rintro ⟨measured, row, sampled, value, reached, some⟩
        exact ⟨row, sampled, value, reached,
          (textOf_ne_nil_iff formats node value).mpr ⟨measured, some⟩⟩

section Walk

variable (base : Path)

theorem valuesAt_scalar (label : Label) (type : ScalarType) (value : Json) :
    valuesAt formats base (.scalar label type) value =
      (textOf formats (.scalar label type) value).map (base, ·) := by
  cases value <;> simp only [valuesAt, textOf, List.map_nil] <;> split <;> rfl

theorem valuesAtProperties_eq_flatMap (properties : List (String × Node))
    (members : List (String × Json)) :
    valuesAtProperties formats base properties members = properties.flatMap fun entry =>
      (Keyed.lookup entry.1 members).toList.flatMap
        (valuesAt formats (base.child entry.1) entry.2) := by
  induction properties with
  | nil => rfl
  | cons entry rest ih =>
      rw [valuesAtProperties, List.flatMap_cons, ← ih]
      cases Keyed.lookup entry.1 members <;> simp

theorem valuesAt_object (label : Label) (properties : List (String × Node))
    (required : List String) (value : Json) :
    valuesAt formats base (.object label properties required) value =
      properties.flatMap fun entry => (value.member? entry.1).toList.flatMap
        (valuesAt formats (base.child entry.1) entry.2) := by
  cases value with
  | object members => exact valuesAtProperties_eq_flatMap formats base properties members
  | _ => simp [valuesAt, Json.member?]

theorem valuesAt_arrayOf (label : Label) (items : Node) (value : Json) :
    valuesAt formats base (.arrayOf label items) value =
      (value.elements?.getD []).flatMap (valuesAt formats base.items items) := by
  cases value <;> rfl

variable {formats base}

theorem prefix_of_mem_valuesAt {node : Node} (ordered : node.Everywhere Node.InKeyOrder)
    {value : Json} {found : Path × String} (member : found ∈ valuesAt formats base node value) :
    base <+: found.1 := by
  induction ordered generalizing base value with
  | scalar label type _ =>
      rw [valuesAt_scalar] at member
      obtain ⟨text, -, rfl⟩ := List.mem_map.mp member
      exact List.prefix_refl base
  | object label properties required _ _ ih =>
      rw [valuesAt_object] at member
      obtain ⟨entry, listed, inside⟩ := List.mem_flatMap.mp member
      obtain ⟨part, -, below⟩ := List.mem_flatMap.mp inside
      exact (List.prefix_append base [.property entry.1]).trans (ih entry listed below)
  | arrayOf label items _ _ ih =>
      rw [valuesAt_arrayOf] at member
      obtain ⟨element, -, below⟩ := List.mem_flatMap.mp member
      exact (List.prefix_append base [.items]).trans (ih below)
  | emptyArray _ _ | mixedArray _ _ | union _ _ _ _ => cases value <;> cases member

theorem paired_eq_nil {node : Node} (ordered : node.Everywhere Node.InKeyOrder) (parts : List Json)
    {step : Step} {rest : Path} (apart : rest.head? ≠ some step) :
    Keyed.paired (base ++ rest) (parts.flatMap (valuesAt formats (base ++ [step]) node)) = [] := by
  rw [List.eq_nil_iff_forall_not_mem]
  intro text member
  obtain ⟨part, -, found⟩ := List.mem_flatMap.mp ((Keyed.mem_paired _ _ _).mp member)
  have through := prefix_of_mem_valuesAt ordered found
  rw [List.prefix_append_right_inj] at through
  cases rest with
  | nil => exact List.cons_ne_nil _ _ (List.prefix_nil.mp through)
  | cons first rest => exact apart (congrArg some (List.cons_prefix_cons.mp through).1.symm)

theorem paired_valuesAt_self {node : Node} (ordered : node.Everywhere Node.InKeyOrder)
    (value : Json) :
    Keyed.paired base (valuesAt formats base node value) = textOf formats node value := by
  have outer : ∀ {part : Node} (step : Step) (parts : List Json), part.Everywhere Node.InKeyOrder →
      Keyed.paired base (parts.flatMap (valuesAt formats (base ++ [step]) part)) = [] := by
    intro part step parts ordered
    simpa using paired_eq_nil ordered parts (show ([] : Path).head? ≠ some step by simp)
  cases ordered with
  | scalar label type _ => rw [valuesAt_scalar, Keyed.paired_map_mk]
  | object label properties required _ children =>
      rw [valuesAt_object, Keyed.paired_flatMap]
      exact List.flatMap_eq_nil_iff.mpr fun entry listed => outer _ _ (children entry listed)
  | arrayOf label items _ inner =>
      rw [valuesAt_arrayOf]
      exact outer _ _ inner
  | emptyArray _ _ | mixedArray _ _ | union _ _ _ _ => cases value <;> rfl

theorem paired_valuesAt_cons {node : Node} (ordered : node.Everywhere Node.InKeyOrder) (step : Step)
    (rest : Path) (value : Json) :
    Keyed.paired (base ++ step :: rest) (valuesAt formats base node value) =
      (node.step? step).elim [] fun child => Keyed.paired (base ++ step :: rest)
        ((value.parts step).flatMap (valuesAt formats (base ++ [step]) child)) := by
  cases ordered with
  | object label properties required own children =>
      have increasing := (own label properties required rfl).1
      rw [valuesAt_object, Keyed.paired_flatMap]
      cases step with
      | property name =>
          rw [Node.step?, Keyed.flatMap_eq_lookup name increasing]
          · rfl
          · intro entry listed different
            exact paired_eq_nil (children entry listed) _ (by simpa using different.symm)
      | items =>
          refine List.flatMap_eq_nil_iff.mpr fun entry listed => ?_
          exact paired_eq_nil (children entry listed) _ (by simp)
  | arrayOf label items _ inner =>
      rw [valuesAt_arrayOf]
      cases step with
      | property name => exact paired_eq_nil inner _ (by simp)
      | items => rfl
  | scalar label type _ =>
      rw [valuesAt_scalar]
      simp [Keyed.paired, Node.step?]
  | emptyArray _ _ | mixedArray _ _ | union _ _ _ _ => cases step <;> cases value <;> rfl

theorem paired_valuesAt {node : Node} (ordered : node.Everywhere Node.InKeyOrder) (rest : Path)
    (value : Json) :
    Keyed.paired (base ++ rest) (valuesAt formats base node value) =
      (node.get? rest).elim [] fun place =>
        (value.reached rest).flatMap (textOf formats place) := by
  induction rest generalizing base node value with
  | nil =>
      rw [List.append_nil, paired_valuesAt_self ordered]
      simp [Json.reached]
  | cons step rest ih =>
      rw [paired_valuesAt_cons ordered, Node.get?_cons, Json.reached_cons]
      cases next : node.step? step with
      | none => rfl
      | some child =>
          have below := fun part => @ih (base ++ [step]) child (ordered.step? next) part
          simp only [List.append_assoc, List.singleton_append] at below
          rw [Option.elim_some, Option.bind_some, Keyed.paired_flatMap]
          simp only [below]
          cases child.get? rest <;> simp [List.flatMap_assoc]

end Walk

theorem foldl_put (texts : List String) (given : texts ≠ []) :
    texts.foldl (fun present text => some (text :: present.getD [])) none = some texts.reverse := by
  induction texts using List.reverseRecOn with
  | nil => exact absurd rfl given
  | append_singleton texts last ih =>
      rw [List.foldl_append]
      by_cases empty : texts = []
      · simp [empty]
      · simp [ih empty]

theorem summarise_perm (ratio : Float) (path : Path) {values values' : List String}
    (shuffled : values.Perm values') :
    summarise ratio path values = summarise ratio path values' := by
  have counts : values.foldl (fun counts value => Keyed.tally value counts) [] =
      values'.foldl (fun counts value => Keyed.tally value counts) [] :=
    Occurrences.histogram_perm values values' shuffled
  rw [summarise, summarise, counts, shuffled.length_eq]

section Entries

variable (ratio : Float) (rows : List Json) {schema : Node}

def foundPaths (schema : Node) : List Path :=
  Ordered.ofList (Keyed.keys (rows.flatMap (valuesAt formats Path.root schema)))

variable (ordered : schema.Everywhere Node.InKeyOrder)

include ordered

theorem paired_found (path : Path) :
    Keyed.paired path (rows.flatMap (valuesAt formats Path.root schema)) =
      textsAt formats schema rows path := by
  rw [Keyed.paired_flatMap, textsAt]
  have each := @paired_valuesAt formats [] schema ordered path
  simp only [List.nil_append] at each
  simp only [Path.root, each]
  cases schema.get? path <;> simp

theorem mem_foundPaths (path : Path) :
    path ∈ foundPaths formats rows schema ↔ textsAt formats schema rows path ≠ [] := by
  rw [foundPaths, Ordered.mem_ofList, ← paired_found formats rows ordered, ne_eq,
    List.eq_nil_iff_forall_not_mem]
  simp [Keyed.keys, Keyed.mem_paired]

/-- An entry for each path at which a value is found, made of all texts there. -/
theorem analyse_eq :
    analyse ratio formats rows schema = (foundPaths formats rows schema).map fun path =>
      summarise (Settings.clampPercent ratio) path (textsAt formats schema rows path) := by
  let found := rows.flatMap (valuesAt formats Path.root schema)
  let put : String → Option (List String) → List String :=
    fun value values => value :: values.getD []
  calc
    analyse ratio formats rows schema = (Keyed.collected put found).map fun entry =>
        summarise (Settings.clampPercent ratio) entry.1 entry.2 := rfl
    _ = (Keyed.collected put found).map fun entry =>
        summarise (Settings.clampPercent ratio) entry.1 (textsAt formats schema rows entry.1) := by
      apply List.map_congr_left
      intro entry listed
      have looked := Keyed.lookup_of_mem (Keyed.increasing_collected put found) listed
      rw [Keyed.lookup_collected, paired_found formats rows ordered] at looked
      by_cases empty : textsAt formats schema rows entry.1 = []
      · rw [empty] at looked
        cases looked
      · rw [foldl_put _ empty, Option.some.injEq] at looked
        exact summarise_perm _ _ (looked ▸ List.reverse_perm _)
    _ = (Keyed.keys (Keyed.collected put found)).map fun path =>
        summarise (Settings.clampPercent ratio) path (textsAt formats schema rows path) := by
      rw [Keyed.keys, List.map_map]
      rfl
    _ = _ := by rw [Keyed.keys_collected]; rfl

theorem path_analyse :
    (analyse ratio formats rows schema).map RollupEntry.path = foundPaths formats rows schema := by
  rw [analyse_eq formats ratio rows ordered, List.map_map]
  exact List.map_id _

theorem analyse_perm {rows' : List Json} (shuffled : rows.Perm rows') :
    analyse ratio formats rows' schema = analyse ratio formats rows schema := by
  have found := (shuffled.flatMap_right (valuesAt formats Path.root schema)).symm
  have paths : foundPaths formats rows' schema = foundPaths formats rows schema := by
    apply Ordered.eq_of_mem_iff (Ordered.increasing_ofList _) (Ordered.increasing_ofList _)
    intro path
    rw [Ordered.mem_ofList, Ordered.mem_ofList]
    exact (found.map Prod.fst).mem_iff
  rw [analyse_eq formats ratio rows' ordered, analyse_eq formats ratio rows ordered, paths]
  apply List.map_congr_left
  intro path _
  apply summarise_perm
  rw [← paired_found formats rows' ordered, ← paired_found formats rows ordered]
  exact Keyed.paired_perm path found

end Entries

/-- Entries come in strictly increasing order of their paths. A path has an entry exactly when the
schema has a scalar of a unique format there and some row a value other than null. Rows in another
order give the same entries, shares and recommendations included. -/
theorem analyse_entries (ratio : Float) (formats : List Format) (rows : List Json) (schema : Node)
    (ordered : schema.Everywhere Node.InKeyOrder) :
    let entries := analyse ratio formats rows schema
    (entries.map RollupEntry.path).Pairwise (· < ·) ∧
      (∀ path, path ∈ entries.map RollupEntry.path ↔
        (∃ node, schema.get? path = some node ∧ Measured formats node) ∧
          ∃ row ∈ rows, ∃ value ∈ row.reached path, value ≠ .null) ∧
        ∀ rows', rows.Perm rows' → analyse ratio formats rows' schema = entries := by
  intro entries
  refine ⟨?_, ?_, fun rows' => analyse_perm formats ratio rows ordered⟩
  · rw [path_analyse formats ratio rows ordered]
    exact Ordered.increasing_ofList _
  · intro path
    rw [path_analyse formats ratio rows ordered, mem_foundPaths formats rows ordered,
      textsAt_ne_nil_iff]

open Node in
/-- An array of one row has two values at the path of its elements' names, of which one is not of
the type that the schema has there. A field that is null and one of another format have no entry. -/
theorem analyse_entries_elements :
    let schema := object {}
      [("id", scalar { format := some .uuid } .string),
        ("orders",
          arrayOf {} (object {} [("ref", scalar { format := some .uri } .string)] ["ref"])),
        ("ts", scalar { format := some .epoch } .integer)] []
    let rows : List Json :=
      [.object [("id", .null), ("orders", .array [.object [("ref", .string "https://a.example")],
          .null, .object [("ref", .bool true)]])],
        .object [("orders", .string "none"), ("ts", .ofNat 1700000000)]]
    let entries := analyse 50.0 [.uuid, .uri] rows schema
    schema.Everywhere InKeyOrder ∧
      [.property "orders", .items, .property "ref"] ∈ entries.map RollupEntry.path ∧
        [.property "id"] ∉ entries.map RollupEntry.path ∧
          [.property "ts"] ∉ entries.map RollupEntry.path ∧
            analyse 50.0 [.uuid, .uri] rows.reverse schema = entries := by
  intro schema rows entries
  have ordered : schema.Everywhere InKeyOrder := by decide
  obtain ⟨-, listed, shuffled⟩ := analyse_entries 50.0 [.uuid, .uri] rows schema ordered
  refine ⟨ordered, ?_, ?_, ?_, shuffled _ (List.reverse_perm rows).symm⟩
  · refine (listed _).mpr ⟨⟨_, rfl, _, _, .uri, rfl, rfl, by decide⟩, ?_⟩
    exact ⟨_, List.mem_cons_self, .bool true, List.mem_cons_of_mem _ List.mem_cons_self, nofun⟩
  · rw [listed]
    rintro ⟨-, row, sampled, value, reached, some⟩
    simp only [rows, List.mem_cons, List.not_mem_nil, or_false] at sampled
    rcases sampled with rfl | rfl <;> simp_all [Json.reached, Json.member?, Keyed.lookup]
  · rw [listed]
    rintro ⟨⟨node, found, label, type, format, rfl, own, unique⟩, -⟩
    cases found
    cases own
    exact absurd unique (by decide)

end Repetition

end EventSchema
