import EventSchema.Text.Words
import Mathlib.Data.List.Basic

namespace EventSchema

namespace Text

theorem splitOn_of_not_mem {separator : Char} {piece : List Char} (apart : separator ∉ piece) :
    splitOn separator piece = [piece] := by
  induction piece with
  | nil => rfl
  | cons char rest ih =>
      obtain ⟨other, later⟩ := not_or.mp (List.mem_cons.not.mp apart)
      rw [splitOn, if_neg (Ne.symm other), ih later]

theorem splitOn_append_cons {separator : Char} {piece : List Char} (rest : List Char)
    (apart : separator ∉ piece) :
    splitOn separator (piece ++ separator :: rest) = piece :: splitOn separator rest := by
  induction piece with
  | nil => simp [splitOn]
  | cons char inner ih =>
      obtain ⟨other, later⟩ := not_or.mp (List.mem_cons.not.mp apart)
      rw [List.cons_append, splitOn, if_neg (Ne.symm other), ih later]

theorem exists_pieces (separator : Char) (text : List Char) :
    ∃ first pieces, splitOn separator text = first :: pieces ∧
      text = first ++ pieces.flatMap (separator :: ·) ∧
        ∀ piece ∈ first :: pieces, separator ∉ piece := by
  induction text with
  | nil => exact ⟨[], [], rfl, rfl, by simp⟩
  | cons char rest ih =>
      obtain ⟨first, pieces, split, same, apart⟩ := ih
      by_cases marks : char = separator
      · refine ⟨[], first :: pieces, by rw [splitOn, if_pos marks, split], ?_, ?_⟩
        · simp [marks, same]
        · simpa using apart
      · refine ⟨char :: first, pieces, by rw [splitOn, if_neg marks, split], ?_, ?_⟩
        · simp [same]
        · simpa [Ne.symm marks] using apart

theorem splitOn_eq_cons_iff (separator : Char) (text first : List Char)
    (pieces : List (List Char)) :
    splitOn separator text = first :: pieces ↔
      text = first ++ pieces.flatMap (separator :: ·) ∧
        ∀ piece ∈ first :: pieces, separator ∉ piece := by
  constructor
  · intro split
    obtain ⟨first', pieces', split', same, apart⟩ := exists_pieces separator text
    obtain ⟨rfl, rfl⟩ := List.cons.inj (split.symm.trans split')
    exact ⟨same, apart⟩
  · rintro ⟨rfl, apart⟩
    induction pieces generalizing first with
    | nil =>
        rw [List.flatMap_nil, List.append_nil]
        exact splitOn_of_not_mem (apart first List.mem_cons_self)
    | cons second later ih =>
        obtain ⟨own, others⟩ := List.forall_mem_cons.mp apart
        rw [List.flatMap_cons, List.cons_append, splitOn_append_cons _ own, ih second others]

theorem intercalate_singleton_cons (separator : Char) (first : List Char)
    (pieces : List (List Char)) :
    [separator].intercalate (first :: pieces) = first ++ pieces.flatMap (separator :: ·) := by
  induction pieces generalizing first with
  | nil => simp
  | cons second later ih =>
      rw [List.intercalate_cons_cons, ih, List.flatMap_cons]
      simp

theorem split_eq_iff (separator : Char) (text : String) (pieces : List String) :
    split separator text = pieces ↔
      pieces ≠ [] ∧ (∀ piece ∈ pieces, separator ∉ piece.toList) ∧
        (String.singleton separator).intercalate pieces = text := by
  constructor
  · rintro rfl
    obtain ⟨first, rest, found, same, apart⟩ := exists_pieces separator text.toList
    have toLists : (split separator text).map String.toList = first :: rest := by
      rw [split, found, List.map_map]
      simp [Function.comp_def]
    refine ⟨?_, ?_, ?_⟩
    · intro none
      rw [none] at toLists
      cases toLists
    · intro piece listed
      apply apart
      rw [← toLists]
      exact List.mem_map_of_mem listed
    · rw [← String.toList_inj, String.toList_intercalate, toLists, String.toList_singleton,
        intercalate_singleton_cons, same]
  · rintro ⟨some, apart, rfl⟩
    obtain ⟨first, rest, rfl⟩ := List.exists_cons_of_ne_nil some
    have found : splitOn separator ((String.singleton separator).intercalate (first :: rest)).toList =
        first.toList :: rest.map String.toList := by
      apply (splitOn_eq_cons_iff _ _ _ _).mpr
      refine ⟨?_, ?_⟩
      · rw [String.toList_intercalate, String.toList_singleton, List.map_cons,
          intercalate_singleton_cons]
      · rw [← List.map_cons]
        exact List.forall_mem_map.mpr apart
    rw [split, found]
    simp [Function.comp_def]

theorem split_join (separator : Char) (pieces : List String) (some : pieces ≠ [])
    (apart : ∀ piece ∈ pieces, separator ∉ piece.toList) :
    split separator (join (String.singleton separator) pieces) = pieces := by
  induction pieces with
  | nil => exact absurd rfl some
  | cons first rest ih =>
      obtain ⟨own, others⟩ := List.forall_mem_cons.mp apart
      cases rest with
      | nil => simp [split, join, splitOn_of_not_mem own]
      | cons second later =>
          have inner := ih (List.cons_ne_nil _ _) others
          have joined : join (String.singleton separator) (first :: second :: later) =
              first ++ String.singleton separator ++
                join (String.singleton separator) (second :: later) := rfl
          rw [split] at inner ⊢
          rw [joined, String.toList_append, String.toList_append, String.toList_singleton,
            List.append_assoc, List.singleton_append, splitOn_append_cons _ own, List.map_cons,
            String.ofList_toList, inner]

end Text

end EventSchema
