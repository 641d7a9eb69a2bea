import EventSchema.Proofs.EpochTexts
import EventSchema.Proofs.FormatMarks
import EventSchema.Proofs.UndatedDigits

namespace EventSchema

namespace Format

def trimmed (text : String) : String := String.ofList (Text.trim text.toList)

/-- Digits which white space around them keeps from being an epoch. -/
def PaddedEpoch (text : String) : Prop :=
  isEpochText (trimmed text).toList = true ∧ trimmed text ≠ text

instance (text : String) : Decidable (PaddedEpoch text) :=
  inferInstanceAs (Decidable (_ ∧ _))

@[simp]
theorem toList_trimmed (text : String) : (trimmed text).toList = Text.trim text.toList :=
  String.toList_ofList

theorem detect?_trimmed (text : String) : detect? (trimmed text) = detect? text := by
  rw [detect?, toList_trimmed, Text.trim_trim, detect?]

theorem isTemporal_trimmed (text : String) :
    Calendar.isTemporal (trimmed text) = Calendar.isTemporal text := by
  rw [Calendar.isTemporal, toList_trimmed, Text.trim_trim, Calendar.isTemporal]

theorem digits_of_isEpochText {text : List Char} (epoch : isEpochText text = true) :
    ∀ char ∈ text, Text.isDigit char = true :=
  (isEpochText_iff.mp epoch).2.1

theorem trimmed_of_isEpochText {text : String} (epoch : isEpochText text.toList = true) :
    trimmed text = text := by
  rw [trimmed, Text.trim_of_digits (digits_of_isEpochText epoch), String.ofList_toList]

theorem ofText_of_paddedEpoch {text : String} (padded : PaddedEpoch text) (detectOthers : Bool) :
    ofText? detectOthers text = none := by
  obtain ⟨epoch, changed⟩ := padded
  have digits := digits_of_isEpochText epoch
  rw [toList_trimmed] at digits
  have unread : isEpochText text.toList ≠ true := fun read => changed (trimmed_of_isEpochText read)
  rw [ofText?, if_neg unread, detect?_of_digits digits, Calendar.isTemporal_of_digits digits]
  rfl

theorem ofText_of_not_paddedEpoch {text : String} (unpadded : ¬ PaddedEpoch text)
    (detectOthers : Bool) : ofText? detectOthers text = ofText? detectOthers (trimmed text) := by
  by_cases same : trimmed text = text
  · rw [same]
  · have unread : isEpochText text.toList ≠ true := fun read => same (trimmed_of_isEpochText read)
    have unreadTrimmed : isEpochText (trimmed text).toList ≠ true := fun read =>
      unpadded ⟨read, same⟩
    rw [ofText?, ofText?, if_neg unread, if_neg unreadTrimmed, detect?_trimmed, isTemporal_trimmed]

/-- White space around a text changes its format in one case only: digits that are an epoch lose it,
and no other format comes in its place. -/
theorem ofText_eq_trimmed (detectOthers : Bool) (text : String) :
    ofText? detectOthers text =
      if PaddedEpoch text then none else ofText? detectOthers (trimmed text) := by
  split
  case isTrue padded => exact ofText_of_paddedEpoch padded detectOthers
  case isFalse unpadded => exact ofText_of_not_paddedEpoch unpadded detectOthers

theorem ofText_spaced_epoch :
    ofText? true " 1700000000" = none ∧ ofText? true (trimmed " 1700000000") = some .epoch := by
  decide +kernel

end Format

end EventSchema
