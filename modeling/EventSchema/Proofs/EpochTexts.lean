import EventSchema.Format.Epoch
import EventSchema.Proofs.Digits
/-!
Epochs as numbers and as texts. A text of ASCII digits is the decimal text of one number, with zeros
before it, and is an epoch exactly if that number is. How large a number a text may stand for makes
no difference: a reader of 64-bit integers, which refuses larger ones, finds the same epochs.
-/
namespace EventSchema

namespace Text

variable {text : List Char}

theorem isDigit_eq (char : Char) : isDigit char = char.isDigit := by
  rw [Bool.eq_iff_iff, isDigit_iff, Char.isDigit_iff_toNat]
  rfl

theorem toNat_eq_ofDigitChars (digits : ∀ char ∈ text, isDigit char = true) :
    toNat text = Nat.ofDigitChars 10 text 0 := by
  rw [toNat_of_digits digits, Nat.ofDigitChars_eq_foldl]
  simp only [Nat.mul_comm]
  rfl

theorem isDigit_of_mem_padded {zeros count : Nat} :
    ∀ char ∈ List.replicate zeros '0' ++ Nat.toDigits 10 count, isDigit char = true := by
  intro char inside
  obtain zero | own := List.mem_append.mp inside
  · obtain rfl := List.eq_of_mem_replicate zero
    rfl
  · rw [isDigit_eq]
    exact Nat.isDigit_of_mem_toDigits (by decide) (by decide) own

/-- Reading undoes printing, and zeros before a number do not change it. -/
theorem toNat_padded (zeros count : Nat) :
    toNat (List.replicate zeros '0' ++ Nat.toDigits 10 count) = count := by
  rw [toNat_eq_ofDigitChars isDigit_of_mem_padded, Nat.ofDigitChars_append,
    Nat.ofDigitChars_replicate_zero, Nat.mul_zero, Nat.ofDigitChars_ten_toDigits]

theorem toNat_append_singleton (front : List Char) {last : Char} {digit : Nat}
    (found : digit? last = some digit) : toNat (front ++ [last]) = 10 * toNat front + digit := by
  rw [toNat, List.foldl_append, List.foldl_cons, List.foldl_nil, found, Option.getD_some,
    Nat.mul_comm]
  rfl

theorem toDigits_of_digit? {char : Char} {digit : Nat} (found : digit? char = some digit) :
    Nat.toDigits 10 digit = [char] := by
  obtain ⟨code, single⟩ := digit?_eq_some_iff.mp found
  have small : digit < 10 := by omega
  have same : digit.digitChar = char :=
    Char.toNat_inj.mp ((Nat.toNat_digitChar_of_lt_ten small).trans code.symm)
  rw [Nat.toDigits_of_lt_base small, same]

theorem exists_eq_padded (some : text ≠ []) (digits : ∀ char ∈ text, isDigit char = true) :
    ∃ zeros, text = List.replicate zeros '0' ++ Nat.toDigits 10 (toNat text) := by
  induction text using List.reverseRecOn with
  | nil => exact absurd rfl some
  | append_singleton front last ih =>
      obtain ⟨earlier, own⟩ := List.forall_mem_append.mp digits
      obtain ⟨digit, found⟩ := Option.isSome_iff_exists.mp (own last (List.mem_singleton_self _))
      rw [toNat_append_singleton front found]
      cases front with
      | nil => exact ⟨0, by simp [toNat, toDigits_of_digit? found]⟩
      | cons char rest =>
          obtain ⟨zeros, same⟩ := ih (List.cons_ne_nil _ _) earlier
          generalize char :: rest = front at same ⊢
          obtain zero | positive := Nat.eq_zero_or_pos (toNat front)
          · -- The zero at the end of what was read so far is one more zero at the front.
            refine ⟨zeros + 1, ?_⟩
            rw [zero, Nat.toDigits_zero] at same
            rw [zero, Nat.mul_zero, Nat.zero_add, toDigits_of_digit? found, same,
              List.replicate_succ']
          · refine ⟨zeros, ?_⟩
            have small : digit < 10 := Nat.lt_succ_of_le (le_nine_of_digit? found)
            rw [← Nat.toDigits_append_toDigits (by decide) positive small,
              toDigits_of_digit? found, ← List.append_assoc, ← same]

def signedLimit : Nat := 0x8000000000000000

def appendDigit? (limit value : Nat) (char : Char) : Option Nat := do
  let digit ← digit? char
  if value * 10 + digit < limit then some (value * 10 + digit) else none

def toNatBelow? (limit : Nat) (text : List Char) : Option Nat :=
  text.foldlM (appendDigit? limit) 0

theorem appendDigit?_eq_some_iff {limit value next : Nat} {char : Char} :
    appendDigit? limit value char = some next ↔
      isDigit char = true ∧ value * 10 + (digit? char).getD 0 = next ∧ next < limit := by
  rw [appendDigit?, isDigit]
  cases digit? char with
  | none => simp
  | some digit =>
      simp only [Option.bind_eq_bind, Option.bind_some, Option.ite_none_right_eq_some,
        Option.some.injEq, Option.isSome_some, Option.getD_some, true_and]
      constructor
      · rintro ⟨bounded, rfl⟩
        exact ⟨rfl, bounded⟩
      · rintro ⟨rfl, bounded⟩
        exact ⟨bounded, rfl⟩

theorem le_foldl_digits (text : List Char) (start : Nat) :
    start ≤ text.foldl (fun value char => value * 10 + (digit? char).getD 0) start := by
  induction text generalizing start with
  | nil => exact le_rfl
  | cons char rest ih =>
      calc
        start ≤ start * 10 + (digit? char).getD 0 := by omega
        _ ≤ _ := ih _

theorem foldlM_appendDigit?_eq_some_iff {limit start value : Nat} (small : start < limit) :
    text.foldlM (appendDigit? limit) start = some value ↔
      (∀ char ∈ text, isDigit char = true) ∧
        text.foldl (fun value char => value * 10 + (digit? char).getD 0) start = value ∧
          value < limit := by
  induction text generalizing start with
  | nil =>
      constructor
      · rintro ⟨⟩
        exact ⟨nofun, rfl, small⟩
      · rintro ⟨-, rfl, -⟩
        rfl
  | cons char rest ih =>
      rw [List.foldlM_cons, Option.bind_eq_bind, Option.bind_eq_some_iff, List.forall_mem_cons,
        List.foldl_cons]
      constructor
      · rintro ⟨next, step, later⟩
        obtain ⟨own, rfl, bounded⟩ := appendDigit?_eq_some_iff.mp step
        obtain ⟨others, whole, below⟩ := (ih bounded).mp later
        exact ⟨⟨own, others⟩, whole, below⟩
      · rintro ⟨⟨own, others⟩, rfl, below⟩
        -- Numbers only grow, so below the limit in the end is below it at every step.
        have bounded := (le_foldl_digits rest _).trans_lt below
        exact ⟨_, appendDigit?_eq_some_iff.mpr ⟨own, rfl, bounded⟩,
          (ih bounded).mpr ⟨others, rfl, below⟩⟩

theorem toNatBelow?_eq_some_iff {limit value : Nat} (positive : 0 < limit) :
    toNatBelow? limit text = some value ↔
      (∀ char ∈ text, isDigit char = true) ∧ toNat text = value ∧ value < limit :=
  foldlM_appendDigit?_eq_some_iff positive

theorem toList_toString_natCast (count : Nat) :
    (toString (count : Int)).toList = Nat.toDigits 10 count := by
  rw [Int.toString_eq_repr, Int.repr_eq_if, if_pos (Int.natCast_nonneg count), Int.toNat_natCast,
    Nat.toList_repr]

end Text

namespace Format

variable {text : List Char}

theorem isEpochText_iff : isEpochText text = true ↔
    text ≠ [] ∧ (∀ char ∈ text, Text.isDigit char = true) ∧
      isEpoch (Text.toNat text) = true := by
  simp [isEpochText, and_assoc]

theorem isEpochText_padded (zeros count : Nat) :
    isEpochText (List.replicate zeros '0' ++ Nat.toDigits 10 count) = isEpoch count := by
  rw [Bool.eq_iff_iff, isEpochText_iff, Text.toNat_padded]
  have some : List.replicate zeros '0' ++ Nat.toDigits 10 count ≠ [] := by
    simp [Nat.toDigits_ne_nil]
  exact ⟨fun epoch => epoch.2.2, fun epoch => ⟨some, Text.isDigit_of_mem_padded, epoch⟩⟩

theorem isEpochText_of_neg {value : Int} (negative : value < 0) (zeros : Nat) :
    isEpochText (List.replicate zeros '0' ++ (toString value).toList) = isEpoch value := by
  have sign : '-' ∈ List.replicate zeros '0' ++ (toString value).toList := by
    simp [Int.repr_eq_if, Int.not_le.mpr negative]
  have early : isEpoch value = false := by
    rw [isEpoch, decide_eq_false (by rw [epochLowerBound]; omega), Bool.false_and]
  rw [early]
  by_contra epoch
  have digit := (isEpochText_iff.mp (eq_true_of_ne_false epoch)).2.1 '-' sign
  exact absurd digit (by decide)

theorem isEpochText_decimal (value : Int) (zeros : Nat) :
    isEpochText (List.replicate zeros '0' ++ (toString value).toList) = isEpoch value := by
  obtain negative | positive := Int.lt_or_le value 0
  · exact isEpochText_of_neg negative zeros
  · obtain ⟨count, rfl⟩ := Int.eq_ofNat_of_zero_le positive
    rw [Text.toList_toString_natCast]
    exact isEpochText_padded zeros count

theorem isEpochText_iff_padded : isEpochText text = true ↔
    ∃ zeros count : Nat, isEpochNumber (.whole count) = true ∧
      text = List.replicate zeros '0' ++ (toString (count : Int)).toList := by
  constructor
  · intro epoch
    obtain ⟨some, digits, number⟩ := isEpochText_iff.mp epoch
    obtain ⟨zeros, same⟩ := Text.exists_eq_padded some digits
    exact ⟨zeros, Text.toNat text, number, by rw [Text.toList_toString_natCast, ← same]⟩
  · rintro ⟨zeros, count, number, rfl⟩
    exact (isEpochText_decimal count zeros).trans number

theorem lt_signedLimit_of_isEpoch {count : Nat} (epoch : isEpoch count = true) :
    count < Text.signedLimit := by
  have most : (count : Int) ≤ 8210266876799999 :=
    of_decide_eq_true (Bool.and_eq_true_iff.mp epoch).2
  rw [Text.signedLimit]
  omega

/-- A text of digits of any script that a reader of 64-bit integers takes is an epoch if its number
is one. No other text is. -/
theorem isEpochText_eq_read (text : List Char) : isEpochText text =
    (!text.isEmpty && text.all Text.isDecimal &&
      (Text.toNatBelow? Text.signedLimit text).any fun value : Nat => isEpoch value) := by
  rw [Bool.eq_iff_iff, isEpochText_iff]
  simp only [Bool.and_eq_true, Bool.not_eq_true', List.isEmpty_eq_false_iff, List.all_eq_true,
    Option.any_eq_true, Text.toNatBelow?_eq_some_iff (by decide : 0 < Text.signedLimit)]
  constructor
  · rintro ⟨some, digits, epoch⟩
    exact ⟨⟨some, fun char inside => Text.isDecimal_of_isDigit (digits char inside)⟩,
      _, ⟨digits, rfl, lt_signedLimit_of_isEpoch epoch⟩, epoch⟩
  · rintro ⟨⟨some, -⟩, _, ⟨digits, rfl, -⟩, epoch⟩
    exact ⟨some, digits, epoch⟩

/-- A whole number is an epoch exactly if its decimal text is one, and zeros before the text do not
change that. -/
theorem isEpochText_toString (value : Int) :
    isEpochNumber (.whole value) = isEpochText (toString value).toList ∧
      ∀ zeros : Nat, isEpochText (List.replicate zeros '0' ++ (toString value).toList) =
        isEpochText (toString value).toList := by
  have plain : isEpochText (toString value).toList = isEpoch value := isEpochText_decimal value 0
  refine ⟨plain.symm, fun zeros => ?_⟩
  rw [isEpochText_decimal, plain]

-- The last representable millisecond and the one after it.
example : isEpochText "0008210266876799999".toList = true ∧
    isEpochText "8210266876800000".toList = false := by
  decide +kernel

end Format

end EventSchema
