import EventSchema.Proofs.Scanning

namespace EventSchema.Text

variable {char : Char}

theorem isDecimal_of_isDigit (digit : isDigit char = true) : isDecimal char = true := by
  rw [isDigit_iff] at digit
  refine List.any_eq_true.mpr ⟨0x30, List.mem_cons_self, ?_⟩
  rw [Bool.and_eq_true, decide_eq_true_eq, decide_eq_true_eq]
  omega

theorem digit?_of_isDigit (digit : isDigit char = true) : digit? char = some (char.toNat - 48) := by
  rw [isDigit, digit?, Option.isSome_ite] at digit
  rw [digit?, if_pos digit]
  rfl

theorem digit?_eq_some_iff {digit : Nat} :
    digit? char = some digit ↔ char.toNat = 48 + digit ∧ digit ≤ 9 := by
  constructor
  · intro found
    have is : isDigit char = true := by rw [isDigit, found, Option.isSome_some]
    obtain rfl := Option.some.inj ((digit?_of_isDigit is).symm.trans found)
    rw [isDigit_iff] at is
    omega
  · rintro ⟨code, single⟩
    have is : isDigit char = true := isDigit_iff.mpr (by omega)
    rw [digit?_of_isDigit is, code, Nat.add_sub_cancel_left]

theorem le_nine_of_digit? {digit : Nat} (found : digit? char = some digit) : digit ≤ 9 :=
  (digit?_eq_some_iff.mp found).2

theorem eq_of_digit? {char' : Char} {digit : Nat} (found : digit? char = some digit)
    (found' : digit? char' = some digit) : char = char' := by
  rw [digit?_eq_some_iff] at found found'
  exact Char.toNat_inj.mp (found.1.trans found'.1.symm)

theorem digit?_digitChar {digit : Nat} (single : digit ≤ 9) :
    digit? (digitChar digit) = some digit := by
  revert digit
  decide

theorem filterMap_digit?_trimStart (text : List Char) :
    (trimStart text).filterMap digit? = text.filterMap digit? := by
  have none : (text.takeWhile isBlank).filterMap digit? = [] := by
    refine List.filterMap_eq_nil_iff.mpr fun char inside => ?_
    by_contra digit
    have blank : isBlank char = true := List.mem_takeWhile_imp inside
    exact not_isBlank_of_isDigit (Option.ne_none_iff_isSome.mp digit) blank
  calc
    (trimStart text).filterMap digit? =
        (text.takeWhile isBlank ++ text.dropWhile isBlank).filterMap digit? := by
      rw [List.filterMap_append, none, List.nil_append, trimStart]
    _ = text.filterMap digit? := by rw [List.takeWhile_append_dropWhile]

theorem filterMap_digit?_trim (text : List Char) :
    (trim text).filterMap digit? = text.filterMap digit? := by
  rw [trim, trimEnd, List.filterMap_reverse, filterMap_digit?_trimStart, List.filterMap_reverse,
    List.reverse_reverse, filterMap_digit?_trimStart]

theorem toNat_of_digits {text : List Char} (digits : ∀ char ∈ text, isDigit char = true) :
    toNat text = text.foldl (fun value char => value * 10 + (char.toNat - 48)) 0 := by
  refine List.foldl_ext _ _ _ fun value char member => ?_
  rw [digit?_of_isDigit (digits char member), Option.getD_some]

end EventSchema.Text
