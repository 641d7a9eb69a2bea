import EventSchema.Proofs.DocumentReading
import EventSchema.Proofs.SoundStages

namespace EventSchema

namespace Arrival

theorem mem_distinct (arrivals : List Arrival) (arrival : Arrival) :
    arrival ∈ distinct arrivals ↔ arrival ∈ arrivals := by
  cases arrival <;> simp [distinct, all]

theorem one_lt_length_distinct_iff (arrivals : List Arrival) :
    1 < (distinct arrivals).length ↔ ∃ first ∈ arrivals, ∃ second ∈ arrivals, first ≠ second := by
  have once : (distinct arrivals).Nodup := List.Nodup.filter _ (by decide)
  simpa only [mem_distinct] using one_lt_length_iff once

end Arrival

def Label.withoutAdvice (label : Label) : Label :=
  { label with notes := { label.notes with arrivalOneOf := [], suggestions := [] } }

namespace Node

mutual

/-- A tree with the advice taken off its nodes. The alternatives of a union keep theirs, for no path
leads to them. -/
def withoutAdvice : Node → Node
  | scalar label type => scalar label.withoutAdvice type
  | object label properties required =>
    object label.withoutAdvice (withoutAdviceProperties properties) required
  | emptyArray label => emptyArray label.withoutAdvice
  | arrayOf label items => arrayOf label.withoutAdvice items.withoutAdvice
  | mixedArray label => mixedArray label.withoutAdvice
  | union label branches => union label.withoutAdvice branches

def withoutAdviceProperties : List (String × Node) → List (String × Node)
  | [] => []
  | (name, child) :: rest => (name, child.withoutAdvice) :: withoutAdviceProperties rest

end

theorem withoutAdviceProperties_eq_map (properties : List (String × Node)) :
    withoutAdviceProperties properties =
      properties.map fun entry => (entry.1, entry.2.withoutAdvice) := by
  induction properties with
  | nil => rfl
  | cons entry rest ih => simp [withoutAdviceProperties, ih]

theorem withoutAdvice_relabel {label : Label} {node : Node}
    (same : label.withoutAdvice = node.label.withoutAdvice) :
    (node.relabel label).withoutAdvice = node.withoutAdvice := by
  cases node <;> simp only [Node.label] at same <;> simp only [relabel, withoutAdvice, same]

theorem withoutAdvice_update {change : Node → Node}
    (same : ∀ node, (change node).withoutAdvice = node.withoutAdvice) (path : Path) {tree : Node}
    (ordered : tree.Everywhere InKeyOrder) :
    (tree.update change path).withoutAdvice = tree.withoutAdvice := by
  induction path generalizing tree with
  | nil => exact same tree
  | cons step path ih =>
      cases ordered with
      | object label properties required own children =>
          cases step with
          | items => rfl
          | property name =>
              rw [update]
              split
              · rename_i child found
                have inner := ih (children _ (Keyed.mem_of_lookup found))
                have increasing := (own label properties required rfl).1
                rw [withoutAdvice, withoutAdvice, withoutAdviceProperties_eq_map,
                  withoutAdviceProperties_eq_map, Keyed.map_insert_eq_map increasing found inner]
              · rfl
      | arrayOf label items _ inner =>
          cases step with
          | items => rw [update, withoutAdvice, withoutAdvice, ih inner]
          | property name => rfl
      | _ => cases step <;> rfl

theorem notes_update_cons (change : Node → Node) (step : Step) (rest : Path) (node : Node) :
    (node.update change (step :: rest)).notes = node.notes :=
  congrArg Label.notes (label_update_cons change step rest node)

end Node

namespace Conflict

open Node

/-- The conflict is one between types, as its resolution says, and its candidates arrive in more than
one format. -/
def SpansArrivals (conflict : Conflict) : Prop :=
  (∃ type, conflict.resolution = .dataType type) ∧
    ∃ first ∈ conflict.candidateTypes.filterMap Arrival.accepting?,
      ∃ second ∈ conflict.candidateTypes.filterMap Arrival.accepting?, first ≠ second

def noteOn (conflict : Conflict) (notes : Notes) : Notes :=
  { notes with
    arrivalOneOf :=
      if conflict.arrivalCandidates.isEmpty then notes.arrivalOneOf else conflict.arrivalCandidates
    suggestions := notes.suggestions ++ conflict.suggestions }

def noteAll (conflicts : List Conflict) (notes : Notes) : Notes :=
  conflicts.foldl (fun notes conflict => conflict.noteOn notes) notes

theorem notes_annotate (conflict : Conflict) (node : Node) :
    (conflict.annotate node).notes = conflict.noteOn node.notes := by
  rw [annotate, withNotes, Node.notes, label_relabel]
  rfl

theorem withoutAdvice_annotate (conflict : Conflict) (node : Node) :
    (conflict.annotate node).withoutAdvice = node.withoutAdvice :=
  withoutAdvice_relabel rfl

theorem arrivalCandidates_ne_nil_iff (conflict : Conflict) :
    conflict.arrivalCandidates ≠ [] ↔ conflict.SpansArrivals := by
  rw [SpansArrivals, arrivalCandidates]
  cases conflict.resolution with
  | dataType type =>
      rw [← Arrival.one_lt_length_distinct_iff]
      by_cases several : 1 < (Arrival.distinct
          (conflict.candidateTypes.filterMap Arrival.accepting?)).length
      · have filled := List.ne_nil_of_length_pos (Nat.zero_lt_of_lt several)
        simp [several, filled]
      · simp [several]
  | nullField | optional _ | format _ _ => simp

instance (conflict : Conflict) : Decidable conflict.SpansArrivals :=
  decidable_of_iff _ conflict.arrivalCandidates_ne_nil_iff

section Notes

variable (conflicts : List Conflict) (notes : Notes)

theorem suggestions_noteAll :
    (noteAll conflicts notes).suggestions = notes.suggestions ++ allSuggestions conflicts := by
  induction conflicts generalizing notes with
  | nil => exact (List.append_nil _).symm
  | cons conflict rest ih =>
      calc
        (noteAll rest (conflict.noteOn notes)).suggestions =
            (notes.suggestions ++ conflict.suggestions) ++ allSuggestions rest := ih _
        _ = _ := List.append_assoc _ _ _

theorem noteAll_append (later : List Conflict) :
    noteAll (conflicts ++ later) notes = noteAll later (noteAll conflicts notes) :=
  List.foldl_append

variable {conflicts}

theorem arrivalOneOf_noteAll (narrow : ∀ conflict ∈ conflicts, ¬ conflict.SpansArrivals) :
    (noteAll conflicts notes).arrivalOneOf = notes.arrivalOneOf := by
  induction conflicts generalizing notes with
  | nil => rfl
  | cons conflict rest ih =>
      have empty : conflict.arrivalCandidates = [] := by
        simpa using mt (arrivalCandidates_ne_nil_iff conflict).mp (narrow conflict List.mem_cons_self)
      calc
        (noteAll rest (conflict.noteOn notes)).arrivalOneOf = (conflict.noteOn notes).arrivalOneOf :=
          ih _ fun later member => narrow later (List.mem_cons_of_mem _ member)
        _ = notes.arrivalOneOf := by rw [noteOn, empty]; rfl

/-- The last conflict that spans several arrival formats decides. -/
theorem arrivalOneOf_noteAll_append {conflict : Conflict} {before after : List Conflict}
    (spans : conflict.SpansArrivals) (narrow : ∀ later ∈ after, ¬ later.SpansArrivals) :
    (noteAll (before ++ conflict :: after) notes).arrivalOneOf = conflict.arrivalCandidates := by
  have filled := (arrivalCandidates_ne_nil_iff conflict).mpr spans
  calc
    (noteAll (before ++ conflict :: after) notes).arrivalOneOf =
        (noteAll after (conflict.noteOn (noteAll before notes))).arrivalOneOf := by
      rw [noteAll_append]
      rfl
    _ = (conflict.noteOn (noteAll before notes)).arrivalOneOf := arrivalOneOf_noteAll _ narrow
    _ = conflict.arrivalCandidates := by simp [noteOn, filled]

end Notes

theorem map_notes_update (conflict : Conflict) (path : Path) (tree : Node) :
    ((tree.update conflict.annotate conflict.path).get? path).map notes =
      (tree.get? path).map fun node =>
        if conflict.path = path then conflict.noteOn node.notes else node.notes := by
  by_cases own : conflict.path = path
  · subst own
    have here := get?_update_below conflict.annotate conflict.path [] tree
    rw [List.append_nil] at here
    rw [here]
    cases tree.get? conflict.path with
    | none => rfl
    | some node => simp [notes_annotate]
  · simp only [if_neg own]
    exact map_get?_update_of_steps _ notes notes_update_cons (fun node => node.step?_relabel _)
      conflict.path path (fun same => absurd same.symm own) tree

theorem map_notes_annotateAll (conflicts : List Conflict) (path : Path) (tree : Node) :
    ((annotateAll conflicts tree).get? path).map notes =
      (tree.get? path).map fun node => noteAll (conflicts.filter (·.path = path)) node.notes := by
  induction conflicts generalizing tree with
  | nil => rfl
  | cons conflict rest ih =>
      have changed := map_notes_update conflict path tree
      calc
        ((annotateAll rest (tree.update conflict.annotate conflict.path)).get? path).map notes =
            (((tree.update conflict.annotate conflict.path).get? path).map notes).map
              (noteAll (rest.filter (·.path = path))) := by rw [Option.map_map]; exact ih _
        _ = (tree.get? path).map fun node => noteAll (rest.filter (·.path = path))
              (if conflict.path = path then conflict.noteOn node.notes else node.notes) := by
            rw [changed, Option.map_map]
            rfl
        _ = _ := by
            by_cases own : conflict.path = path
            · simp [own, noteAll]
            · simp [own]

theorem annotateAll_withoutAdvice (conflicts : List Conflict) {tree : Node}
    (ordered : tree.Everywhere InKeyOrder) :
    (annotateAll conflicts tree).withoutAdvice = tree.withoutAdvice := by
  induction conflicts using List.reverseRecOn with
  | nil => rfl
  | append_singleton conflicts last ih =>
      have ordered' : (annotateAll conflicts tree).Everywhere InKeyOrder :=
        annotateAll_everywhere (fun change step rest part own => own.update_cons change step rest)
          (fun notes part own => own.relabel _) conflicts ordered
      calc
        (annotateAll (conflicts ++ [last]) tree).withoutAdvice =
            ((annotateAll conflicts tree).update last.annotate last.path).withoutAdvice := by
          rw [annotateAll, List.foldl_append]
          rfl
        _ = (annotateAll conflicts tree).withoutAdvice :=
          withoutAdvice_update last.withoutAdvice_annotate last.path ordered'
        _ = tree.withoutAdvice := ih

structure Advised (conflicts : List Conflict) (former node : Node) : Prop where
  suggestions : node.notes.suggestions = allSuggestions conflicts
  kept : (∀ conflict ∈ conflicts, ¬ conflict.SpansArrivals) →
    node.notes.arrivalOneOf = former.notes.arrivalOneOf
  chosen : ∀ before conflict after, conflicts = before ++ conflict :: after →
    conflict.SpansArrivals → (∀ later ∈ after, ¬ later.SpansArrivals) →
      node.notes.arrivalOneOf = conflict.arrivalCandidates

theorem advised_of_notes {conflicts : List Conflict} {former node : Node}
    (quiet : former.notes.suggestions = []) (noted : node.notes = noteAll conflicts former.notes) :
    Advised conflicts former node := by
  constructor
  · rw [noted, suggestions_noteAll, quiet, List.nil_append]
  · intro narrow
    rw [noted, arrivalOneOf_noteAll _ narrow]
  · rintro before conflict after rfl spans narrow
    rw [noted, arrivalOneOf_noteAll_append _ spans narrow]

/-- In a tree without suggestions every node gets those of the conflicts at its path, in the order of
the conflicts. Nodes come to choose among arrival formats where such a conflict spans several.
Nothing else changes. -/
theorem annotateAll_advises (conflicts : List Conflict) (tree : Node)
    (ordered : tree.Everywhere InKeyOrder)
    (quiet : tree.Everywhere fun node => node.notes.suggestions = []) :
    let annotated := annotateAll conflicts tree
    annotated.withoutAdvice = tree.withoutAdvice ∧
      (∀ path, (annotated.get? path).isSome = (tree.get? path).isSome) ∧
        ∀ path former node, tree.get? path = some former → annotated.get? path = some node →
          Advised (conflicts.filter (·.path = path)) former node := by
  intro annotated
  have notes := fun path => map_notes_annotateAll conflicts path tree
  refine ⟨annotateAll_withoutAdvice conflicts ordered, ?_, ?_⟩
  · intro path
    simpa using congrArg Option.isSome (notes path)
  · intro path former node there here
    have noted := notes path
    rw [there, here] at noted
    exact advised_of_notes (quiet.get? there).own (Option.some.inj noted)

/-- Two conflicts on one node, one of which suggests twice, and one that finds no node. -/
theorem annotateAll_advises_twice :
    let types : Conflict :=
      ⟨.dataType, "a", [.property "a"], [], ["string", "integer"], .mustFix, .dataType .string⟩
    let declared : Conflict :=
      ⟨.optionalType, "a", [.property "a"], [], ["true", "false"], .medium, .optional false⟩
    let missing : Conflict := ⟨.nullField, "b", [.property "b"], [], [], .mustFix, .nullField⟩
    let tree := object {} [("a", scalar {} .string), ("c", emptyArray {})] []
    let annotated := annotateAll [types, missing, declared] tree
    tree.Everywhere InKeyOrder ∧ (tree.Everywhere fun node => node.notes.suggestions = []) ∧
      annotated.withoutAdvice = tree.withoutAdvice ∧
        ∃ node, annotated.get? [.property "a"] = some node ∧
          node.notes.suggestions = allSuggestions [types, declared] ∧
            (allSuggestions [types, declared]).length = 3 ∧
              node.notes.arrivalOneOf = [.text, .number] := by
  intro types declared missing tree annotated
  have ordered : tree.Everywhere InKeyOrder := by decide
  have quiet : tree.Everywhere fun node => node.notes.suggestions = [] := by decide
  obtain ⟨kept, -, advised⟩ := annotateAll_advises [types, missing, declared] tree ordered quiet
  have own := advised [.property "a"] _ _ rfl rfl
  refine ⟨ordered, quiet, kept, _, rfl, own.suggestions, by decide, ?_⟩
  exact own.chosen [] types [declared] rfl (by decide) (by decide)

end Conflict

end EventSchema
