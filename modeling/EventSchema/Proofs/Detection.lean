import EventSchema.Proofs.FormatMarks

namespace EventSchema.Format

variable {text : String} {format : Format} {recognises : List Char → Bool}
  {before after : List (Format × (List Char → Bool))}

theorem detect?_of_first (order : recognisers = before ++ (format, recognises) :: after)
    (shaped : recognises (Text.trim text.toList) = true)
    (others : ∀ entry ∈ before, entry.2 (Text.trim text.toList) = false) :
    detect? text = some format := by
  have none : before.find? (fun entry => entry.2 (Text.trim text.toList)) = none :=
    List.find?_eq_none.mpr fun entry listed => by simp [others entry listed]
  rw [detect?, order, List.find?_append, none, Option.none_or]
  simp only [List.find?_cons, shaped, Option.map_some]

/-- No two recognisers are for one format, so what is detected was let through by its own. -/
theorem shaped_of_detect? (listed : (format, recognises) ∈ recognisers)
    (found : detect? text = some format) : recognises (Text.trim text.toList) = true := by
  obtain ⟨own, listed', shaped⟩ := exists_recogniser_of_detect? found
  have distinct : (recognisers.map Prod.fst).Nodup := by decide
  have unique : (format, own) = (format, recognises) :=
    List.inj_on_of_nodup_map distinct listed' listed rfl
  exact (Prod.mk.inj unique).2 ▸ shaped

theorem not_recognised_of_unmarked {chars : List Char} (listed : (format, recognises) ∈ recognisers)
    (unmarked : ∀ mark ∈ format.marks, mark ∉ chars) : recognises chars = false := by
  by_contra shaped
  obtain ⟨mark, wanted, present⟩ :=
    exists_mark_mem_of_recognised listed (eq_true_of_ne_false shaped)
  exact unmarked mark wanted present

end EventSchema.Format
