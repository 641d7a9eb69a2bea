import EventSchema.Proofs.LastLeaves

namespace EventSchema.Column

namespace Origin

/-- The schema's own tree, then those of joined data sets under their names. -/
def all (tree : Node) (joined : List (Denorm × Node)) : List Origin :=
  ⟨[], tree⟩ :: joined.map fun pair => ⟨[pair.1.name], pair.2⟩

theorem all_inKeyOrder {tree : Node} {joined : List (Denorm × Node)}
    (own : tree.Everywhere Node.InKeyOrder)
    (others : ∀ pair ∈ joined, pair.2.Everywhere Node.InKeyOrder) :
    ∀ origin ∈ all tree joined, origin.tree.Everywhere Node.InKeyOrder := by
  refine List.forall_mem_cons.mpr ⟨own, ?_⟩
  intro origin member
  obtain ⟨pair, inside, rfl⟩ := List.mem_map.mp member
  exact others pair inside

end Origin

/-- The last leaf of the last of several origins that have one for the name. -/
def LastLeafOf (naming : Naming) (origins : List Origin) (name : String) (names : List String)
    (leaf : Node) : Prop :=
  ∃ before origin after, origins = before ++ origin :: after ∧
    origin.LastLeaf naming name names leaf ∧ ∀ later ∈ after, ¬ later.Names naming name

def Given (naming : Naming) (origins : List Origin) (name : String) : Option Column → Prop
  | some column => ∃ names leaf, LastLeafOf naming origins name names leaf ∧
      column = ofLeaf naming names leaf
  | none => ∀ origin ∈ origins, ¬ origin.Names naming name

def computing (naming : Naming) (transformations : List Transformation) (name : String) :
    List Transformation :=
  (transformations.filter (!·.isDeleted)).filter fun transformation =>
    naming.join (keySegments transformation.key) = name

/-- What the last transformation sets, or else the one before it, back to the first, or else what is
given. -/
def lastSet (aspect : Transformation → Option String) (computing : List Transformation)
    (given : Option String) : Option String :=
  (computing.reverse.findSome? aspect).or given

def overlaid (naming : Naming) (computing : List Transformation) (given : Option Column) :
    Option Column :=
  match computing.getLast? with
  | none => given
  | some last => some
    { expression := Expression.select (keySegments last.key)
      name := naming.join (keySegments last.key)
      dataType := lastSet (·.dataType) computing (given.bind (·.dataType))
      arrival := lastSet (·.arrival) computing (given.bind (·.arrival))
      computed := true }

section Given

variable (naming : Naming)

def gathered (origins : List Origin) : List (String × Column) :=
  Keyed.ofList ((origins.flatMap Origin.leaves).map (named naming))

theorem addLeaves_gathered (origins : List Origin) (origin : Origin) :
    addLeaves naming (gathered naming origins) origin.leaves =
      gathered naming (origins ++ [origin]) := by
  rw [gathered, gathered, List.flatMap_append, List.flatMap_singleton, List.map_append,
    Keyed.ofList, Keyed.ofList, List.foldl_append, List.foldl_map (l := origin.leaves)]
  rfl

theorem foldlM_addDenorm (origins : List Origin) (joined : List (Denorm × Node))
    (read : ∀ pair ∈ joined, Node.ofDocument pair.1.document = .ok pair.2) :
    (joined.map Prod.fst).foldlM (addDenorm naming) (gathered naming origins) =
      .ok (gathered naming (origins ++ joined.map fun pair => ⟨[pair.1.name], pair.2⟩)) := by
  induction joined generalizing origins with
  | nil => simp [pure, Except.pure]
  | cons pair rest ih =>
      obtain ⟨own, others⟩ := List.forall_mem_cons.mp read
      have added : addDenorm naming (gathered naming origins) pair.1 =
          .ok (gathered naming (origins ++ [⟨[pair.1.name], pair.2⟩])) := by
        rw [addDenorm, own, ← addLeaves_gathered]
        rfl
      have later := ih (origins ++ [⟨[pair.1.name], pair.2⟩]) others
      rw [List.append_assoc, List.singleton_append] at later
      rw [List.map_cons, List.foldlM_cons, added]
      exact later

variable {naming}

theorem lookup_gathered_cons (origin : Origin) (later : List Origin) (name : String) :
    Keyed.lookup name (gathered naming (origin :: later)) =
      (Keyed.lookup name (gathered naming later)).or
        (Keyed.lookup name (Keyed.ofList (origin.leaves.map (named naming)))) := by
  rw [gathered, gathered, List.flatMap_cons, List.map_append, Keyed.lookup_ofList_append]

theorem lastLeafOf_cons_iff (origin : Origin) (later : List Origin) (name : String)
    (names : List String) (leaf : Node) :
    LastLeafOf naming (origin :: later) name names leaf ↔
      LastLeafOf naming later name names leaf ∨
        (∀ other ∈ later, ¬ other.Names naming name) ∧ origin.LastLeaf naming name names leaf := by
  constructor
  · rintro ⟨before, last, after, split, here, quiet⟩
    cases before with
    | nil =>
        obtain ⟨rfl, rfl⟩ := List.cons.inj split
        exact .inr ⟨quiet, here⟩
    | cons first between =>
        obtain ⟨rfl, rfl⟩ := List.cons.inj split
        exact .inl ⟨between, last, after, rfl, here, quiet⟩
  · rintro (⟨before, last, after, rfl, here, quiet⟩ | ⟨quiet, here⟩)
    · exact ⟨origin :: before, last, after, rfl, here, quiet⟩
    · exact ⟨[], origin, later, rfl, here, quiet⟩

theorem given_lookup_gathered {origins : List Origin}
    (ordered : ∀ origin ∈ origins, origin.tree.Everywhere Node.InKeyOrder) (name : String) :
    Given naming origins name (Keyed.lookup name (gathered naming origins)) := by
  induction origins with
  | nil => simp [gathered, Given]
  | cons origin later ih =>
      obtain ⟨own, others⟩ := List.forall_mem_cons.mp ordered
      have inner := ih others
      rw [lookup_gathered_cons]
      -- a leaf of this origin counts only if no later origin has one for the name
      cases found : Keyed.lookup name (gathered naming later) with
      | some column =>
          rw [found] at inner
          obtain ⟨names, leaf, last, same⟩ := inner
          refine ⟨names, leaf, ?_, same⟩
          exact (lastLeafOf_cons_iff origin later name names leaf).mpr (.inl last)
      | none =>
          rw [found] at inner
          rw [Option.none_or]
          cases here : Keyed.lookup name (Keyed.ofList (origin.leaves.map (named naming))) with
          | some column =>
              obtain ⟨names, leaf, last, same⟩ :=
                (Origin.lookup_leaves_iff origin own naming name column).mp here
              refine ⟨names, leaf, ?_, same⟩
              exact (lastLeafOf_cons_iff origin later name names leaf).mpr (.inr ⟨inner, last⟩)
          | none =>
              have unnamed := (Origin.lookup_leaves_eq_none_iff origin own naming name).mp here
              exact List.forall_mem_cons.mpr ⟨unnamed, inner⟩

end Given

section Computed

variable {naming : Naming}

theorem lastSet_append (aspect : Transformation → Option String) (former : List Transformation)
    (last : Transformation) (given : Option String) :
    lastSet aspect (former ++ [last]) given = (aspect last).or (lastSet aspect former given) := by
  cases set : aspect last <;> simp [lastSet, set]

theorem overlaid_append (former : List Transformation) (last : Transformation)
    (given : Option Column) :
    overlaid naming (former ++ [last]) given =
      some (ofTransformation naming last (overlaid naming former given)) := by
  cases former using List.reverseRecOn with
  | nil => simp [overlaid, ofTransformation, lastSet]
  | append_singleton earlier middle =>
      simp [overlaid, ofTransformation, lastSet_append, -List.append_assoc]

theorem lookup_addTransformations (name : String) (transformations : List Transformation)
    (columns : List (String × Column)) :
    Keyed.lookup name (transformations.foldl (addTransformation naming) columns) =
      overlaid naming
        (transformations.filter fun transformation =>
          naming.join (keySegments transformation.key) = name)
        (Keyed.lookup name columns) := by
  induction transformations using List.reverseRecOn with
  | nil => rfl
  | append_singleton former last ih =>
      rw [List.foldl_append, List.foldl_cons, List.foldl_nil, addTransformation, Keyed.lookup_alter,
        List.filter_append]
      by_cases same : naming.join (keySegments last.key) = name
      · subst same
        simp [ih, overlaid_append]
      · simp [same, Ne.symm same, ih]

theorem increasing_addTransformations (transformations : List Transformation)
    {columns : List (String × Column)} (increasing : Keyed.Increasing columns) :
    Keyed.Increasing (transformations.foldl (addTransformation naming) columns) := by
  induction transformations generalizing columns with
  | nil => exact increasing
  | cons first rest ih => exact ih (Keyed.increasing_alter _ _ _ increasing)

def table (naming : Naming) (origins : List Origin) (transformations : List Transformation) :
    List (String × Column) :=
  (transformations.filter (!·.isDeleted)).foldl (addTransformation naming) (gathered naming origins)

variable (naming) in
theorem increasing_table (origins : List Origin) (transformations : List Transformation) :
    Keyed.Increasing (table naming origins transformations) :=
  increasing_addTransformations _ (Keyed.increasing_ofList _)

theorem lookup_table (origins : List Origin) (transformations : List Transformation)
    (name : String) :
    Keyed.lookup name (table naming origins transformations) =
      overlaid naming (computing naming transformations name)
        (Keyed.lookup name (gathered naming origins)) :=
  lookup_addTransformations name _ _

theorem isSome_overlaid_iff (computing : List Transformation) (given : Option Column) :
    (overlaid naming computing given).isSome ↔ given.isSome ∨ computing ≠ [] := by
  cases computing using List.reverseRecOn with
  | nil => simp [overlaid]
  | append_singleton former last => simp [overlaid]

theorem computing_ne_nil_iff (transformations : List Transformation) (name : String) :
    computing naming transformations name ≠ [] ↔
      ∃ transformation ∈ transformations, transformation.isDeleted = false ∧
        naming.join (keySegments transformation.key) = name := by
  simp [computing, List.filter_eq_nil_iff, and_comm]

theorem isSome_given_iff {origins : List Origin} {name : String} {given : Option Column}
    (settled : Given naming origins name given) :
    given.isSome ↔ ∃ origin ∈ origins, origin.Names naming name := by
  cases given with
  | none =>
      refine iff_of_false Bool.false_ne_true ?_
      rintro ⟨origin, member, found⟩
      exact settled origin member found
  | some column =>
      obtain ⟨names, leaf, ⟨before, origin, after, rfl, last, -⟩, -⟩ := settled
      refine iff_of_true rfl ⟨origin, ?_, names, leaf, last.present, last.joined⟩
      exact List.mem_append_right before List.mem_cons_self

theorem name_of_overlaid {origins : List Origin} {transformations : List Transformation}
    {name : String} {given : Option Column} {column : Column}
    (settled : Given naming origins name given)
    (found : overlaid naming (computing naming transformations name) given = some column) :
    column.name = name := by
  rw [overlaid] at found
  split at found
  · subst found
    obtain ⟨names, leaf, ⟨_, _, _, -, last, -⟩, rfl⟩ := settled
    exact last.joined
  · rename_i last listed
    cases found
    have member := List.mem_of_getLast? listed
    exact of_decide_eq_true (List.mem_filter.mp member).2

theorem name_of_mem_table {origins : List Origin}
    (ordered : ∀ origin ∈ origins, origin.tree.Everywhere Node.InKeyOrder)
    {transformations : List Transformation} {entry : String × Column}
    (member : entry ∈ table naming origins transformations) : entry.2.name = entry.1 := by
  have found := Keyed.lookup_of_mem (increasing_table naming origins transformations) member
  rw [lookup_table] at found
  exact name_of_overlaid (given_lookup_gathered ordered entry.1) found

end Computed

theorem ofSchema_eq_table {document : Json} {tree : Node}
    (read : Node.ofDocument document = .ok tree) {denorms : List Denorm}
    {joined : List (Denorm × Node)} (kept : joined.map Prod.fst = denorms.filter (!·.isDeleted))
    (read' : ∀ pair ∈ joined, Node.ofDocument pair.1.document = .ok pair.2)
    (transformations : List Transformation) (naming : Naming) :
    ofSchema document transformations denorms naming =
      .ok (Keyed.values (table naming (Origin.all tree joined) transformations)) := by
  have own : addLeaves naming [] (leavesBelow [] tree) = gathered naming [⟨[], tree⟩] :=
    addLeaves_gathered naming [] ⟨[], tree⟩
  rw [ofSchema, read, ← kept]
  simp only [bind, Except.bind, own, foldlM_addDenorm naming _ joined read']
  rfl

/-- A document gives its columns in the order of their names: one for each name that leaves join to
or that a transformation computes. It is the column of the last leaf of the name, unless a
transformation stands over it. -/
theorem ofSchema_origins (document : Json) (ordered : document.Ordered) (tree : Node)
    (read : Node.ofDocument document = .ok tree) (denorms : List Denorm)
    (joined : List (Denorm × Node)) (kept : joined.map Prod.fst = denorms.filter (!·.isDeleted))
    (ordered' : ∀ pair ∈ joined, pair.1.document.Ordered)
    (read' : ∀ pair ∈ joined, Node.ofDocument pair.1.document = .ok pair.2)
    (transformations : List Transformation) (naming : Naming) :
    let origins := Origin.all tree joined
    ∃ columns, ofSchema document transformations denorms naming = .ok columns ∧
      Ordered.Increasing (columns.map name) ∧
        (∀ name, name ∈ columns.map Column.name ↔
          (∃ origin ∈ origins, origin.Names naming name) ∨
            ∃ transformation ∈ transformations, transformation.isDeleted = false ∧
              naming.join (keySegments transformation.key) = name) ∧
          ∀ column ∈ columns, ∃ given, Given naming origins column.name given ∧
            overlaid naming (computing naming transformations column.name) given = some column := by
  intro origins
  have inKeyOrder : ∀ origin ∈ origins, origin.tree.Everywhere Node.InKeyOrder :=
    Origin.all_inKeyOrder (Node.inKeyOrder_of_ofDocument ordered read) fun pair member =>
      Node.inKeyOrder_of_ofDocument (ordered' pair member) (read' pair member)
  have given : ∀ name, Given naming origins name (Keyed.lookup name (gathered naming origins)) :=
    given_lookup_gathered inKeyOrder
  have names : (Keyed.values (table naming origins transformations)).map name =
      Keyed.keys (table naming origins transformations) :=
    names_values fun _ => name_of_mem_table inKeyOrder
  have increasing := increasing_table naming origins transformations
  refine ⟨_, ofSchema_eq_table read kept read' transformations naming, ?_, ?_, ?_⟩
  · rw [names]
    exact increasing
  · intro name
    rw [names, ← Keyed.lookup_isSome_iff, lookup_table, isSome_overlaid_iff,
      isSome_given_iff (given name), computing_ne_nil_iff]
  · intro column member
    obtain ⟨key, found⟩ := (Keyed.mem_values_iff increasing column).mp member
    obtain rfl : column.name = key := name_of_mem_table inKeyOrder (Keyed.mem_of_lookup found)
    exact ⟨_, given column.name, by rwa [← lookup_table]⟩

/-- Three leaves and two transformations share a name. The type comes from the first transformation
and the arrival format from the joined data set. -/
theorem ofSchema_origins_shared :
    let object (properties : List (String × Json)) : Json :=
      .object [("properties", .object properties)]
    let leaf (type : String) : Json := .object [("type", .string type)]
    let document := object
      [("a", object [("b", leaf "string")]), ("a.b", leaf "integer"), ("c", leaf "boolean")]
    let tree : Node := .object {}
      [("a", .object {} [("b", .scalar {} .string)] []), ("a.b", .scalar {} .integer),
        ("c", .scalar {} .boolean)] []
    let denorm : Denorm := { name := "a", document := object [("b", leaf "number")] }
    let joined := [(denorm, Node.object {} [("b", .scalar {} .number)] [])]
    let denorms : List Denorm := [denorm, { name := "c", document := .null, isDeleted := true }]
    let transformations : List Transformation :=
      [{ key := "a.b", function := "first", dataType := some "price" },
        { key := ".a..b", function := "second" }, { key := "c", function := "", isDeleted := true }]
    let shared : Column := ⟨"$.a.b", "a.b", some "price", some "number", true⟩
    let columns := [shared, ⟨"$.c", "c", some "boolean", some "boolean", false⟩]
    document.Ordered ∧ Node.ofDocument document = .ok tree ∧
      joined.map Prod.fst = denorms.filter (!·.isDeleted) ∧
        (∀ pair ∈ joined, pair.1.document.Ordered) ∧
          (∀ pair ∈ joined, Node.ofDocument pair.1.document = .ok pair.2) ∧
            ofSchema document transformations denorms .dotted = .ok columns ∧
              Ordered.Increasing (columns.map name) ∧
                ∃ given, Given .dotted (Origin.all tree joined) "a.b" given ∧
                  overlaid .dotted (computing .dotted transformations "a.b") given =
                    some shared := by
  intro object leaf document tree denorm joined denorms transformations shared columns
  have sorted := Json.ordered_of_sorted [document, denorm.document] (by rfl)
  have ordered : document.Ordered := sorted document List.mem_cons_self
  have read : Node.ofDocument document = .ok tree := by cbv
  have kept : joined.map Prod.fst = denorms.filter (!·.isDeleted) := rfl
  have ordered' : ∀ pair ∈ joined, pair.1.document.Ordered :=
    List.forall_mem_singleton.mpr (sorted _ (List.mem_cons_of_mem _ List.mem_cons_self))
  have read' : ∀ pair ∈ joined, Node.ofDocument pair.1.document = .ok pair.2 :=
    List.forall_mem_singleton.mpr (by cbv)
  obtain ⟨columns', made, increasing, -, each⟩ :=
    ofSchema_origins document ordered tree read denorms joined kept ordered' read' transformations
      .dotted
  have listed : ofSchema document transformations denorms .dotted = .ok columns := by cbv
  obtain rfl : columns = columns' := Except.ok.inj (listed.symm.trans made)
  exact ⟨ordered, read, kept, ordered', read', listed, increasing, each shared List.mem_cons_self⟩

end EventSchema.Column
