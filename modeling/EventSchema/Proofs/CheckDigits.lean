import EventSchema.Proofs.CardNumbers
/-!
Wrong digits in card numbers. The check weighs a digit by the number of digits behind it, whatever
else stands between them, and under either weight no two digits count alike. So at each place of a
text exactly one digit passes the check with all others, and a text that passes fails as soon as one
of its digits is mistyped.
-/
namespace EventSchema.Format

def weighed (behind digit : Nat) : Nat :=
  if behind % 2 = 1 then 2 * digit / 10 + 2 * digit % 10 else digit

theorem checksum_eq (digits : List Nat) :
    checksum digits = (digits.reverse.mapIdx weighed).sum := rfl

theorem exists_checksum_eq (front back : List Nat) :
    ∃ others, ∀ digit, checksum (front ++ digit :: back) = others + weighed back.length digit := by
  have split (digit : Nat) : checksum (front ++ digit :: back) =
      (back.reverse.mapIdx weighed).sum + weighed back.length digit +
        (front.reverse.mapIdx fun place => weighed (place + 1 + back.length)).sum := by
    rw [checksum_eq, List.reverse_append, List.reverse_cons, List.append_assoc,
      List.singleton_append, List.mapIdx_append, List.sum_append, List.mapIdx_cons, List.sum_cons,
      List.length_reverse, Nat.zero_add, Nat.add_assoc]
  exact ⟨_, fun digit => (split digit).trans (Nat.add_right_comm _ _ _)⟩

theorem existsUnique_weighed (others behind : Nat) :
    ∃! digit, digit ≤ 9 ∧ 10 ∣ others + weighed behind digit := by
  by_cases odd : behind % 2 = 1
  · simp only [weighed, if_pos odd]
    obtain ⟨digit, passes⟩ :
        ∃ digit, digit ≤ 9 ∧ 10 ∣ others + (2 * digit / 10 + 2 * digit % 10) := by
      -- Doubling gives an even sum of digits up to four, and an odd one from five on.
      by_cases even : others % 2 = 0
      · exact ⟨(10 - others % 10) % 10 / 2, by omega⟩
      · exact ⟨(19 - others % 10) / 2, by omega⟩
    exact ⟨digit, passes, fun other passes' => by omega⟩
  · simp only [weighed, if_neg odd]
    exact ⟨(10 - others % 10) % 10, by omega, fun digit passes => by omega⟩

section Places

variable {before after : List Char}

theorem isLuhnValid_append_cons_iff {char : Char} {digit : Nat}
    (found : Text.digit? char = some digit) :
    isLuhnValid (before ++ char :: after) = true ↔
      12 ≤ ((before ++ after).filterMap Text.digit?).length ∧
        10 ∣ checksum (before.filterMap Text.digit? ++ digit :: after.filterMap Text.digit?) := by
  rw [isLuhnValid_iff, List.filterMap_append, List.filterMap_append,
    List.filterMap_cons_some found, List.length_append, List.length_append, List.length_cons]
  exact and_congr_left fun _ => by omega

theorem existsUnique_isLuhnValid (enough : 12 ≤ ((before ++ after).filterMap Text.digit?).length) :
    ∃! char, Text.isDigit char = true ∧ isLuhnValid (before ++ char :: after) = true := by
  obtain ⟨others, sum⟩ :=
    exists_checksum_eq (before.filterMap Text.digit?) (after.filterMap Text.digit?)
  obtain ⟨digit, ⟨single, passes⟩, unique⟩ :=
    existsUnique_weighed others (after.filterMap Text.digit?).length
  refine ⟨Text.digitChar digit, ⟨?_, ?_⟩, ?_⟩
  · rw [Text.isDigit, Text.digit?_digitChar single, Option.isSome_some]
  · rw [isLuhnValid_append_cons_iff (Text.digit?_digitChar single), sum]
    exact ⟨enough, passes⟩
  · rintro char ⟨isDigit, valid⟩
    obtain ⟨digit', found⟩ := Option.isSome_iff_exists.mp isDigit
    rw [isLuhnValid_append_cons_iff found, sum] at valid
    obtain rfl := unique digit' ⟨Text.le_nine_of_digit? found, valid.2⟩
    exact Text.eq_of_digit? found (Text.digit?_digitChar single)

end Places

/-- The same text but for one ASCII digit, which another one has replaced. -/
def Mistyped (text typo : List Char) : Prop :=
  ∃ (before after : List Char) (digit other : Char),
    Text.isDigit digit = true ∧ Text.isDigit other = true ∧ digit ≠ other ∧
      text = before ++ digit :: after ∧ typo = before ++ other :: after

theorem isLuhnValid_of_mistyped {text typo : List Char} (mistyped : Mistyped text typo)
    (valid : isLuhnValid text = true) : isLuhnValid typo = false := by
  obtain ⟨before, after, digit, other, isDigit, isDigit', different, rfl, rfl⟩ := mistyped
  obtain ⟨_, found⟩ := Option.isSome_iff_exists.mp isDigit
  have enough := ((isLuhnValid_append_cons_iff found).mp valid).1
  by_contra passes
  have both := (existsUnique_isLuhnValid enough).unique ⟨isDigit, valid⟩
    ⟨isDigit', eq_true_of_ne_false passes⟩
  exact different both

theorem isLuhnValid_trim (text : List Char) :
    isLuhnValid (Text.trim text) = isLuhnValid text := by
  rw [isLuhnValid, isLuhnValid, Text.filterMap_digit?_trim]

/-- A text that passes the check fails it with any one of its ASCII digits mistyped, and a text that
is detected as a card number is not detected as one any more. -/
theorem not_isLuhnValid_of_mistyped {text typo : String}
    (mistyped : Mistyped text.toList typo.toList) :
    (isLuhnValid text.toList = true → isLuhnValid typo.toList = false) ∧
      (detect? text = some .creditCard → detect? typo ≠ some .creditCard) := by
  refine ⟨isLuhnValid_of_mistyped mistyped, fun detected detected' => ?_⟩
  have valid {card : String} (detected : detect? card = some .creditCard) :
      isLuhnValid card.toList = true := by
    have shaped := (detect?_eq_creditCard_iff_isCard card).mp detected
    rw [isCard, Bool.and_eq_true, isLuhnValid_trim] at shaped
    exact shaped.2
  have fails := isLuhnValid_of_mistyped mistyped (valid detected)
  exact Bool.false_ne_true (fails.symm.trans (valid detected'))

/-- A seven stands for a one where digits are doubled, so that it counts five and not two. -/
theorem not_isLuhnValid_of_mistyped_hyphens :
    Mistyped "4111-1111-1111-1111".toList "4111-1171-1111-1111".toList ∧
      isLuhnValid "4111-1111-1111-1111".toList = true ∧
        detect? "4111-1111-1111-1111" = some .creditCard ∧
          isLuhnValid "4111-1171-1111-1111".toList = false ∧
            detect? "4111-1171-1111-1111" ≠ some .creditCard := by
  have mistyped : Mistyped "4111-1111-1111-1111".toList "4111-1171-1111-1111".toList :=
    ⟨"4111-11".toList, "1-1111-1111".toList, '1', '7', by decide, by decide, by decide,
      by decide +kernel, by decide +kernel⟩
  have valid : isLuhnValid "4111-1111-1111-1111".toList = true := by decide +kernel
  have detected : detect? "4111-1111-1111-1111" = some .creditCard := by decide +kernel
  obtain ⟨checked, undetected⟩ := not_isLuhnValid_of_mistyped mistyped
  exact ⟨mistyped, valid, detected, checked valid, undetected detected⟩

end EventSchema.Format
