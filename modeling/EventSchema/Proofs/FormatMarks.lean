import EventSchema.Format.Detection
import EventSchema.Proofs.Octets
import EventSchema.Proofs.Scanning
import EventSchema.Proofs.Splitting

namespace EventSchema

namespace Text

theorem mem_of_splitOn_length {separator : Char} {text : List Char}
    (several : (splitOn separator text).length ≠ 1) : separator ∈ text := by
  by_contra apart
  exact several (by rw [splitOn_of_not_mem apart, List.length_singleton])

theorem mem_of_dropChar?_dropCount? {α : Type} {isMember : Char → Bool} {count : Nat} {mark : Char}
    {text : List Char} {next : List Char → Option α} {result : α}
    (read : (dropCount? isMember count text >>= fun left => dropChar? mark left >>= next) =
      some result) : mark ∈ text := by
  obtain ⟨_, front, joined⟩ := Option.bind_eq_some_iff.mp read
  obtain ⟨_, marked, -⟩ := Option.bind_eq_some_iff.mp joined
  obtain ⟨group, rfl, -⟩ := dropCount?_eq_some_iff.mp front
  simp [dropChar?_eq_some_iff.mp marked]

end Text

namespace Format

/-- Characters of which every text of the format has one. An epoch has no need of them. -/
def marks : Format → List Char
  | uuid | date | dateTime => ['-']
  | time | uri | ipv6 => [':']
  | email => ['@']
  | ipv4 => ['.']
  | creditCard => [' ', '-']
  | epoch => []

theorem not_isDigit_of_mem_marks (format : Format) :
    ∀ mark ∈ format.marks, Text.isDigit mark = false := by
  have none : format.marks.all (!Text.isDigit ·) = true := by cases format <;> decide
  simpa using none

variable {text rest : List Char}

theorem hyphen_mem_of_isUuid (shaped : isUuid text = true) : '-' ∈ text :=
  Text.mem_of_dropChar?_dropCount? (of_decide_eq_true shaped)

theorem hyphen_mem_of_afterDate? (read : afterDate? text = some rest) : '-' ∈ text :=
  Text.mem_of_dropChar?_dropCount? read

theorem colon_mem_of_afterTime? (read : afterTime? text = some rest) : ':' ∈ text :=
  Text.mem_of_dropChar?_dropCount? read

theorem hyphen_mem_of_isDateTimeShape (shaped : isDateTimeShape text = true) : '-' ∈ text := by
  obtain ⟨_, read, -⟩ := (Option.any_eq_true _ _).mp shaped
  obtain ⟨_, date, -⟩ := Option.bind_eq_some_iff.mp read
  exact hyphen_mem_of_afterDate? date

theorem at_mem_of_isEmail (shaped : isEmail text = true) : '@' ∈ text := by
  refine Text.mem_of_splitOn_length fun one => ?_
  obtain ⟨piece, only⟩ := List.length_eq_one_iff.mp one
  simp [isEmail, only] at shaped

theorem colon_mem_of_isUri (shaped : isUri text = true) : ':' ∈ text := by
  obtain ⟨scheme, -, address⟩ := List.any_eq_true.mp shaped
  obtain ⟨_, started, -⟩ := (Option.any_eq_true _ _).mp address
  simp [Text.dropStart?_eq_some_iff.mp started]

theorem point_mem_of_isIpv4 (shaped : isIpv4 text = true) : '.' ∈ text := by
  obtain ⟨octets, size, -, rfl⟩ := isIpv4_iff.mp shaped
  obtain ⟨first, others, rfl⟩ := List.exists_cons_of_length_eq_add_one size
  rw [List.intercalate_cons_of_ne_nil (List.ne_nil_of_length_eq_add_one (Nat.succ.inj size))]
  simp

theorem eq_of_splitGap {before after : List Char} (split : splitGap text = some (before, after)) :
    text = before ++ ':' :: ':' :: after := by
  fun_induction splitGap text generalizing before with
  | case1 => simp at split
  | case2 rest =>
      obtain ⟨rfl, rfl⟩ := Prod.mk.inj (Option.some.inj split)
      rfl
  | case3 char left _ ih =>
      obtain ⟨⟨inner, rest⟩, found, same⟩ := Option.map_eq_some_iff.mp split
      obtain ⟨rfl, rfl⟩ := Prod.mk.inj same
      rw [ih found, List.cons_append]

theorem colon_mem_of_isIpv6 (shaped : isIpv6 text = true) : ':' ∈ text := by
  cases split : splitGap text with
  | some parts =>
      rw [eq_of_splitGap split]
      simp
  | none =>
      -- Without a gap there are eight groups, and one piece counts for two at most.
      refine Text.mem_of_splitOn_length fun one => ?_
      obtain ⟨piece, only⟩ := List.length_eq_one_iff.mp one
      simp only [isIpv6, split, partCount?, only, groupCount?] at shaped
      grind

theorem exists_separator_mem_of_isCard (shaped : isCard text = true) :
    ∃ mark ∈ [' ', '-'], mark ∈ text := by
  obtain ⟨_, read, -⟩ := (Option.any_eq_true _ _).mp (Bool.and_eq_true_iff.mp shaped).1
  obtain ⟨_, front, joined⟩ := Option.bind_eq_some_iff.mp read
  obtain ⟨_, marked, -⟩ := Option.bind_eq_some_iff.mp joined
  obtain ⟨group, rfl, -⟩ := Text.dropCount?_eq_some_iff.mp front
  obtain ⟨mark, listed, rfl⟩ := Text.dropOneOf?_eq_some_iff.mp marked
  exact ⟨mark, listed, by simp⟩

theorem exists_mark_mem_of_recognised {format : Format} {recognises : List Char → Bool}
    (listed : (format, recognises) ∈ recognisers) (shaped : recognises text = true) :
    ∃ mark ∈ format.marks, mark ∈ text := by
  simp only [recognisers, List.mem_cons, List.not_mem_nil, or_false, Prod.mk.injEq] at listed
  obtain ⟨rfl, rfl⟩ | ⟨rfl, rfl⟩ | ⟨rfl, rfl⟩ | ⟨rfl, rfl⟩ | ⟨rfl, rfl⟩ | ⟨rfl, rfl⟩ | ⟨rfl, rfl⟩ |
    ⟨rfl, rfl⟩ | ⟨rfl, rfl⟩ := listed
  · exact ⟨_, List.mem_singleton_self _, hyphen_mem_of_isUuid shaped⟩
  · exact ⟨_, List.mem_singleton_self _, hyphen_mem_of_isDateTimeShape shaped⟩
  · exact ⟨_, List.mem_singleton_self _, hyphen_mem_of_afterDate? (of_decide_eq_true shaped)⟩
  · exact ⟨_, List.mem_singleton_self _, colon_mem_of_afterTime? (of_decide_eq_true shaped)⟩
  · exact ⟨_, List.mem_singleton_self _, at_mem_of_isEmail shaped⟩
  · exact ⟨_, List.mem_singleton_self _, colon_mem_of_isUri shaped⟩
  · exact ⟨_, List.mem_singleton_self _, point_mem_of_isIpv4 shaped⟩
  · exact ⟨_, List.mem_singleton_self _, colon_mem_of_isIpv6 shaped⟩
  · exact exists_separator_mem_of_isCard shaped

theorem exists_recogniser_of_detect? {text : String} {format : Format}
    (found : detect? text = some format) :
    ∃ recognises, (format, recognises) ∈ recognisers ∧
      recognises (Text.trim text.toList) = true := by
  obtain ⟨⟨_, recognises⟩, first, rfl⟩ := Option.map_eq_some_iff.mp found
  have shaped := List.find?_some first
  exact ⟨recognises, List.mem_of_find?_eq_some first, shaped⟩

theorem exists_mark_mem_of_detect? {text : String} {format : Format}
    (found : detect? text = some format) :
    ∃ mark ∈ format.marks, mark ∈ Text.trim text.toList := by
  obtain ⟨_, listed, shaped⟩ := exists_recogniser_of_detect? found
  exact exists_mark_mem_of_recognised listed shaped

theorem detect?_of_digits {text : String}
    (digits : ∀ char ∈ Text.trim text.toList, Text.isDigit char = true) :
    detect? text = none := by
  refine Option.eq_none_iff_forall_ne_some.mpr fun format found => ?_
  obtain ⟨mark, wanted, present⟩ := exists_mark_mem_of_detect? found
  exact absurd (digits mark present) (by simp [not_isDigit_of_mem_marks format mark wanted])

end Format

end EventSchema
