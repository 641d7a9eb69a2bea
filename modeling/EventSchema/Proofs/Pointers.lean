import EventSchema.Proofs.Splitting
import EventSchema.Schema.Path
import Mathlib.Data.List.Induction
/-!
Reading pointers back. Whether a part of a pointer is a word or a name is told by its place alone,
so that every name can be read back but one that holds a dot.
-/
namespace EventSchema

def Step.parts : Step → List String
  | .property name => ["properties", name]
  | .items => ["items"]

namespace Path

def parts (path : Path) : List String := path.flatMap Step.parts

/-- No property on the path has a name with a dot. -/
def Undotted (path : Path) : Prop := ∀ name, .property name ∈ path → '.' ∉ name.toList

theorem ofParts?_parts (path : Path) : ofParts? path.parts = some path := by
  induction path with
  | nil => rfl
  | cons step rest ih =>
      have later : ofParts? (rest.flatMap Step.parts) = some rest := ih
      cases step with
      | property name => simp [parts, Step.parts, ofParts?, later]
      | items => simp [parts, Step.parts, ofParts?, later]

theorem parts_of_ofParts? {parts : List String} {path : Path} (read : ofParts? parts = some path) :
    path.parts = parts := by
  fun_induction ofParts? parts generalizing path with
  | case1 =>
      cases read
      rfl
  | case2 name rest ih =>
      obtain ⟨inner, later, rfl⟩ := Option.map_eq_some_iff.mp read
      exact congrArg (["properties", name] ++ ·) (ih later)
  | case3 rest ih =>
      obtain ⟨inner, later, rfl⟩ := Option.map_eq_some_iff.mp read
      exact congrArg (["items"] ++ ·) (ih later)
  | case4 => cases read

theorem ofParts?_eq_some_iff (parts : List String) (path : Path) :
    ofParts? parts = some path ↔ path.parts = parts :=
  ⟨parts_of_ofParts?, fun same => same ▸ ofParts?_parts path⟩

theorem undotted_iff (path : Path) : path.Undotted ↔ ∀ part ∈ path.parts, '.' ∉ part.toList := by
  constructor
  · intro undotted part member
    obtain ⟨step, inside, own⟩ := List.mem_flatMap.mp member
    cases step with
    | property name =>
        rcases List.mem_pair.mp own with rfl | rfl
        · decide
        · exact undotted part inside
    | items =>
        obtain rfl := List.mem_singleton.mp own
        decide
  · intro plain name inside
    exact plain name (List.mem_flatMap.mpr ⟨_, inside, by simp [Step.parts]⟩)

def dotted (parts : List String) : List Char := parts.flatMap fun part => '.' :: part.toList

theorem toList_pointer (path : Path) : path.pointer.toList = '$' :: dotted path.parts := by
  induction path using List.reverseRecOn with
  | nil => rfl
  | append_singleton path last ih =>
      have written : last.pointer.toList = dotted last.parts := by
        cases last with
        | property name => simp [Step.pointer, Step.parts, dotted]
        | items => rfl
      have continued : pointer (path ++ [last]) = pointer path ++ last.pointer := by
        simp [pointer]
      rw [continued, String.toList_append, ih, written]
      simp [parts, dotted]

/-- A text is read as a path if the path's parts stand in it, none of them with a dot of its own.
Before the first dot anything may stand. -/
theorem ofPointer?_eq_some_iff (text : String) (path : Path) :
    ofPointer? text = some path ↔
      path.Undotted ∧ ∃ ahead, '.' ∉ ahead ∧ text.toList = '$' :: (ahead ++ dotted path.parts) := by
  rw [undotted_iff]
  constructor
  · intro read
    rw [ofPointer?] at read
    split at read
    · rename_i rest start
      obtain ⟨ahead, pieces, split, same, apart⟩ := Text.exists_pieces '.' rest
      rw [split, List.tail_cons, ofParts?_eq_some_iff] at read
      obtain ⟨clear, plain⟩ := List.forall_mem_cons.mp apart
      refine ⟨?_, ahead, clear, ?_⟩
      · simpa [read] using plain
      · simp [start, same, read, dotted, List.flatMap_map]
    · cases read
  · rintro ⟨plain, ahead, clear, written⟩
    have split : Text.splitOn '.' (ahead ++ dotted path.parts) =
        ahead :: path.parts.map String.toList := by
      rw [Text.splitOn_eq_cons_iff]
      refine ⟨by rw [dotted, List.flatMap_map], List.forall_mem_cons.mpr ⟨clear, ?_⟩⟩
      simpa using plain
    have unchanged : String.ofList ∘ String.toList = id := funext fun _ => String.ofList_toList
    rw [ofPointer?, written]
    simp only [split, List.tail_cons, List.map_map, unchanged, List.map_id, ofParts?_parts]

/-- A path can be read back from its pointer exactly when no name on it holds a dot, so that such
paths have different pointers. -/
theorem pointer_reads_iff_undotted (path : Path) :
    (ofPointer? path.pointer = some path ↔ path.Undotted) ∧
      (path.Undotted → ∀ other : Path, other.Undotted → other.pointer = path.pointer →
        other = path) := by
  have recovered : ∀ path : Path, ofPointer? path.pointer = some path ↔ path.Undotted := by
    intro path
    rw [ofPointer?_eq_some_iff]
    exact and_iff_left ⟨[], List.not_mem_nil, toList_pointer path⟩
  refine ⟨recovered path, ?_⟩
  intro undotted other undotted' same
  have read := (recovered other).mpr undotted'
  rw [same, (recovered path).mpr undotted] at read
  exact (Option.some.inj read).symm

/-- Names that are words of pointers, and one without any character. -/
theorem pointer_reads_iff_undotted_words :
    let path : Path := [.property "items", .items, .items, .property "properties", .property ""]
    path.pointer = "$.properties.items.items.items.properties.properties.properties." ∧
      path.Undotted ∧ ofPointer? path.pointer = some path ∧
        ∀ other : Path, other.Undotted → other.pointer = path.pointer → other = path := by
  intro path
  have undotted : path.Undotted := by simp [path, Undotted]
  obtain ⟨recovered, unique⟩ := pointer_reads_iff_undotted path
  exact ⟨by decide, undotted, recovered.mpr undotted, unique undotted⟩

/-- What is read is the path whose pointer the text is once all before its first dot but the `$` is
left out. So the text is that pointer itself if a dot follows the `$`, or nothing does. -/
theorem pointer_eq_iff_of_read {text : String} {path : Path} (read : ofPointer? text = some path) :
    (∃ ahead, '.' ∉ ahead ∧ text.toList = '$' :: (ahead ++ path.pointer.toList.tail)) ∧
      (path.pointer = text ↔ ∀ char, ['$', char] <+: text.toList → char = '.') := by
  obtain ⟨-, ahead, clear, written⟩ := (ofPointer?_eq_some_iff text path).mp read
  refine ⟨⟨ahead, clear, by rw [toList_pointer, List.tail_cons, written]⟩, ?_⟩
  rw [← String.toList_inj, toList_pointer, written]
  constructor
  · intro same char start
    rw [← same, List.cons_prefix_cons] at start
    -- a pointer goes on with its first part, and each part stands behind a dot
    cases parts : path.parts with
    | nil => simp [parts, dotted] at start
    | cons part rest => simpa [parts, dotted] using start
  · intro followed
    cases ahead with
    | nil => rfl
    | cons char rest =>
        have dot : char = '.' := followed char ⟨rest ++ dotted path.parts, by simp⟩
        exact absurd (dot ▸ List.mem_cons_self) clear

/-- A name that is a word of pointers, behind a name without any character. -/
theorem pointer_eq_iff_of_read_words :
    let text := "$.properties..items.properties.items"
    let path : Path := [.property "", .items, .property "items"]
    ofPointer? text = some path ∧ (∀ char, ['$', char] <+: text.toList → char = '.') ∧
      path.pointer = text := by
  intro text path
  have read : ofPointer? text = some path := by decide
  have followed : ∀ char, ['$', char] <+: text.toList → char = '.' := by
    intro char start
    simpa [text] using start
  exact ⟨read, followed, (pointer_eq_iff_of_read read).2.mpr followed⟩

/-- Characters behind the `$` are passed over, and the path that is read has another pointer. -/
theorem pointer_ne_of_read_glued :
    ofPointer? "$x.items" = some [.items] ∧ pointer [.items] ≠ "$x.items" := by
  decide

end Path

end EventSchema
