import EventSchema.Proofs.Detection
import Mathlib.Algebra.GroupWithZero.Nat

namespace EventSchema.Format

/-- The Luhn sum: counted from the last digit on, every second digit adds the digits of its double
and every other one itself. -/
def checksum (digits : List Nat) : Nat :=
  (digits.reverse.mapIdx fun place digit =>
    if place % 2 = 1 then 2 * digit / 10 + 2 * digit % 10 else digit).sum

theorem doubled_eq {digit : Nat} (single : digit ≤ 9) :
    doubled digit = 2 * digit / 10 + 2 * digit % 10 := by
  rw [doubled]
  split <;> omega

theorem luhnSum_eq {digits : List Nat} (single : ∀ digit ∈ digits, digit ≤ 9) (start : Nat) :
    luhnSum (start % 2 = 1) digits = (digits.mapIdx fun place digit =>
      if (start + place) % 2 = 1 then 2 * digit / 10 + 2 * digit % 10 else digit).sum := by
  induction digits generalizing start with
  | nil => rfl
  | cons digit rest ih =>
      obtain ⟨own, others⟩ := List.forall_mem_cons.mp single
      have turned : (!decide (start % 2 = 1)) = decide ((start + 1) % 2 = 1) := by
        rw [← decide_not, decide_eq_decide]
        omega
      rw [luhnSum, turned, ih others, List.mapIdx_cons, List.sum_cons, doubled_eq own]
      simp [add_comm, add_left_comm]

theorem isLuhnValid_iff {text : List Char} : isLuhnValid text = true ↔
    13 ≤ (text.filterMap Text.digit?).length ∧ 10 ∣ checksum (text.filterMap Text.digit?) := by
  have single : ∀ digit ∈ (text.filterMap Text.digit?).reverse, digit ≤ 9 := by
    intro digit listed
    obtain ⟨char, -, found⟩ := List.mem_filterMap.mp (List.mem_reverse.mp listed)
    exact Text.le_nine_of_digit? found
  have sum := luhnSum_eq single 0
  simp only [Nat.zero_add] at sum
  rw [isLuhnValid, Bool.and_eq_true, decide_eq_true_eq, decide_eq_true_eq, Nat.dvd_iff_mod_eq_zero,
    checksum, ← sum]
  rfl

theorem forall_mark {holds : Char → Prop} :
    (∀ mark ∈ [' ', '-'], holds mark) ↔ holds ' ' ∧ holds '-' := by
  simp

/-- The text is made of the groups, with one blank or hyphen between two of them. -/
inductive Joined : (groups : List (List Char)) → (text : List Char) → Prop where
  | last (group : List Char) : Joined [group] group
  | next {groups : List (List Char)} {rest : List Char} (group : List Char) {mark : Char}
      (isMark : mark ∈ [' ', '-']) (later : Joined groups rest) :
      Joined (group :: groups) (group ++ mark :: rest)

structure Grouped (isMember : Char → Bool) (groups : List (List Char)) (text : List Char) :
    Prop where
  joined : Joined groups text
  sizes : ∃ size, groups.map List.length = [4, 4, 4, size] ∧ 1 ≤ size ∧ size ≤ 7
  members : ∀ char ∈ groups.flatten, isMember char = true

/-- A number in groups of characters of a class that has at least thirteen ASCII digits and passes
the check with them. -/
def CardNumber (isMember : Char → Bool) (text : List Char) : Prop :=
  ∃ groups, Grouped isMember groups text ∧
    13 ≤ (groups.flatten.filterMap Text.digit?).length ∧
      10 ∣ checksum (groups.flatten.filterMap Text.digit?)

namespace Joined

variable {groups : List (List Char)} {text : List Char} (joined : Joined groups text)
include joined

theorem mem_iff {char : Char} (solid : char ∉ [' ', '-']) :
    char ∈ text ↔ char ∈ groups.flatten := by
  induction joined with
  | last group => simp
  | @next _ _ group mark isMark _ ih =>
      have apart : char ≠ mark := fun same => solid (same ▸ isMark)
      simp [apart, ih]

theorem mem {char : Char} (inside : char ∈ groups.flatten) : char ∈ text := by
  induction joined with
  | last group => simpa using inside
  | next group _ _ ih =>
      rw [List.flatten_cons, List.mem_append] at inside
      exact List.mem_append.mpr (inside.imp_right fun later => List.mem_cons_of_mem _ (ih later))

theorem digits_eq : text.filterMap Text.digit? = groups.flatten.filterMap Text.digit? := by
  have none : ∀ mark ∈ [' ', '-'], Text.digit? mark = none := forall_mark.mpr (by decide)
  induction joined with
  | last group => simp
  | next group isMark _ ih => simp [none _ isMark, ih]

end Joined

namespace Grouped

variable {isMember : Char → Bool} {groups : List (List Char)} {text : List Char}
  (grouped : Grouped isMember groups text)
include grouped

theorem exists_four : ∃ first second third last : List Char,
    groups = [first, second, third, last] ∧ first.length = 4 ∧ second.length = 4 ∧
      third.length = 4 ∧ 1 ≤ last.length ∧ last.length ≤ 7 := by
  obtain ⟨size, sizes, least, most⟩ := grouped.sizes
  simp only [List.map_eq_cons_iff, List.map_eq_nil_iff] at sizes
  obtain ⟨first, _, rfl, one, second, _, rfl, two, third, _, rfl, three, last, _, rfl, rfl, rfl⟩ :=
    sizes
  exact ⟨first, second, third, last, rfl, one, two, three, least, most⟩

theorem restrict {isMember' : Char → Bool}
    (members : ∀ char ∈ groups.flatten, isMember' char = true) : Grouped isMember' groups text :=
  { grouped with members }

theorem fifth : ∃ mark ∈ [' ', '-'], text[4]? = some mark := by
  obtain ⟨first, second, third, last, rfl, size, -⟩ := grouped.exists_four
  cases grouped.joined with
  | next _ isMark _ => exact ⟨_, isMark, by simp [size]⟩

theorem eighth : ∃ char, isMember char = true ∧ text[7]? = some char := by
  obtain ⟨first, second, third, last, rfl, size, size', -⟩ := grouped.exists_four
  have inside : 2 < second.length := by omega
  refine ⟨second[2], grouped.members _ (by simp), ?_⟩
  cases grouped.joined with
  | next _ _ later =>
      cases later with
      | next _ _ _ => simp [List.getElem?_append, size, size']

end Grouped

theorem isCardShape_iff {text : List Char} :
    isCardShape text = true ↔ ∃ groups, Grouped Text.isDecimal groups text := by
  simp only [isCardShape, Option.any_eq_true, Option.bind_eq_bind, Option.bind_eq_some_iff,
    Text.dropCount?_eq_some_iff, Text.dropOneOf?_eq_some_iff, lastGroup, Bool.and_eq_true,
    decide_eq_true_eq, List.all_eq_true]
  constructor
  · rintro ⟨last, ⟨_, ⟨first, rfl, size, one⟩, _, ⟨_, isMark, rfl⟩, _, ⟨second, rfl, size', two⟩,
      _, ⟨_, isMark', rfl⟩, _, ⟨third, rfl, size'', three⟩, _, isMark'', rfl⟩, ⟨least, most⟩, four⟩
    refine ⟨[first, second, third, last], ?_, ⟨last.length, ?_, least, most⟩, ?_⟩
    · exact .next first isMark (.next second isMark' (.next third isMark'' (.last last)))
    · simp [size, size', size'']
    · simpa [or_imp, forall_and] using ⟨one, two, three, four⟩
  · rintro ⟨groups, grouped⟩
    obtain ⟨first, second, third, last, rfl, size, size', size'', bounds⟩ := grouped.exists_four
    obtain ⟨one, two, three, four⟩ : (∀ char ∈ first, Text.isDecimal char = true) ∧
        (∀ char ∈ second, Text.isDecimal char = true) ∧
          (∀ char ∈ third, Text.isDecimal char = true) ∧
            ∀ char ∈ last, Text.isDecimal char = true := by
      simpa [or_imp, forall_and] using grouped.members
    obtain _ | ⟨_, isMark, _ | ⟨_, isMark', _ | ⟨_, isMark'', _ | ⟨_, _, later⟩⟩⟩⟩ := grouped.joined
    · exact ⟨last, ⟨_, ⟨first, rfl, size, one⟩, _, ⟨_, isMark, rfl⟩, _, ⟨second, rfl, size', two⟩,
        _, ⟨_, isMark', rfl⟩, _, ⟨third, rfl, size'', three⟩, _, isMark'', rfl⟩, bounds, four⟩
    · cases later

theorem isCard_iff {text : List Char} : isCard text = true ↔ CardNumber Text.isDecimal text := by
  rw [isCard, Bool.and_eq_true, isCardShape_iff, isLuhnValid_iff, ← exists_and_right]
  exact exists_congr fun groups => and_congr_right fun grouped => by rw [grouped.joined.digits_eq]

theorem isHexDigit_of_isUuid {text : List Char} {char : Char} (shaped : isUuid text = true)
    (fifth : text[4]? = some char) : Text.isHexDigit char = true := by
  obtain ⟨_, front, -⟩ := Option.bind_eq_some_iff.mp (of_decide_eq_true shaped)
  obtain ⟨group, rfl, size, members⟩ := Text.dropCount?_eq_some_iff.mp front
  have inside : char ∈ group := by
    rw [List.getElem?_append_left (by omega)] at fifth
    exact List.mem_of_getElem? fifth
  exact List.all_eq_true.mp members char inside

theorem hyphen_of_afterDate? {text rest : List Char} (read : afterDate? text = some rest) :
    text[7]? = some '-' := by
  simp only [afterDate?, twoDecimals?, Option.bind_eq_bind, Option.bind_eq_some_iff,
    Text.dropCount?_eq_some_iff, Text.dropChar?_eq_some_iff] at read
  obtain ⟨_, ⟨year, rfl, size, -⟩, _, rfl, _, ⟨month, rfl, size', -⟩, _, rfl, -⟩ := read
  simp [List.getElem?_append, size, size']

section Shapes

variable {groups : List (List Char)} {text : List Char}
  (grouped : Grouped Text.isDecimal groups text)
include grouped

theorem not_isUuid_of_grouped : isUuid text = false := by
  obtain ⟨mark, listed, fifth⟩ := grouped.fifth
  have foreign : ∀ mark ∈ [' ', '-'], Text.isHexDigit mark = false := forall_mark.mpr (by decide)
  by_contra shaped
  have digit := isHexDigit_of_isUuid (eq_true_of_ne_false shaped) fifth
  exact Bool.false_ne_true ((foreign mark listed).symm.trans digit)

theorem afterDate?_of_grouped : afterDate? text = none := by
  obtain ⟨char, digit, eighth⟩ := grouped.eighth
  refine Option.eq_none_iff_forall_ne_some.mpr fun rest read => ?_
  obtain rfl : char = '-' := Option.some.inj (eighth.symm.trans (hyphen_of_afterDate? read))
  exact absurd digit (by decide)

theorem not_mem_of_grouped {mark : Char} (solid : mark ∉ [' ', '-'])
    (foreign : Text.isDecimal mark = false) : mark ∉ text := by
  intro inside
  have digit := grouped.members mark ((grouped.joined.mem_iff solid).mp inside)
  exact Bool.false_ne_true (foreign.symm.trans digit)

end Shapes

theorem detect?_of_isCard {text : String} (shaped : isCard (Text.trim text.toList) = true) :
    detect? text = some .creditCard := by
  obtain ⟨groups, grouped, -⟩ := isCard_iff.mp shaped
  have order : recognisers = [(.uuid, isUuid), (.dateTime, isDateTimeShape), (.date, isDateShape),
    (.time, isTimeShape), (.email, isEmail), (.uri, isUri), (.ipv4, isIpv4), (.ipv6, isIpv6)] ++
      (.creditCard, isCard) :: [] := rfl
  refine detect?_of_first order shaped fun entry earlier => ?_
  have listed : entry ∈ recognisers := order ▸ List.mem_append_left _ earlier
  simp only [List.mem_cons, List.not_mem_nil, or_false] at earlier
  obtain rfl | rfl | rfl | later := earlier
  · exact not_isUuid_of_grouped grouped
  · simp [isDateTimeShape, afterDate?_of_grouped grouped]
  · simp [isDateShape, afterDate?_of_grouped grouped]
  · -- The other formats have marks that do not stand between groups of digits.
    have foreign : entry.1.marks.all (fun mark =>
        decide (mark ∉ [' ', '-']) && !Text.isDecimal mark) = true := by
      obtain rfl | rfl | rfl | rfl | rfl := later <;> decide
    refine not_recognised_of_unmarked listed fun mark wanted => ?_
    have other := List.all_eq_true.mp foreign mark wanted
    rw [Bool.and_eq_true, decide_eq_true_eq, Bool.not_eq_true'] at other
    exact not_mem_of_grouped grouped other.1 other.2

theorem detect?_eq_creditCard_iff_isCard (text : String) :
    detect? text = some .creditCard ↔ isCard (Text.trim text.toList) = true := by
  have listed : (Format.creditCard, isCard) ∈ recognisers := by simp [recognisers]
  exact ⟨shaped_of_detect? listed, detect?_of_isCard⟩

theorem cardNumber_isDigit_iff {text : List Char} : CardNumber Text.isDigit text ↔
    CardNumber Text.isDecimal text ∧
      ∀ char ∈ text, Text.isDecimal char = true → Text.isDigit char = true := by
  constructor
  · rintro ⟨groups, grouped, valid⟩
    have none : ∀ mark ∈ [' ', '-'], Text.isDecimal mark ≠ true := forall_mark.mpr (by decide)
    refine ⟨⟨groups, grouped.restrict fun char inside => ?_, valid⟩, fun char inside decimal => ?_⟩
    · exact Text.isDecimal_of_isDigit (grouped.members char inside)
    · have solid : char ∉ [' ', '-'] := fun mark => none char mark decimal
      exact grouped.members char ((grouped.joined.mem_iff solid).mp inside)
  · rintro ⟨⟨groups, grouped, valid⟩, digits⟩
    refine ⟨groups, grouped.restrict fun char inside => ?_, valid⟩
    exact digits char (grouped.joined.mem inside) (grouped.members char inside)

/-- A text is detected as a card number exactly if it is one in digits of any script, of which the
ASCII digits are at least thirteen and pass the check. The card numbers in ASCII digits are those
among them without a digit of another script. -/
theorem detect?_eq_creditCard_iff (text : String) :
    (detect? text = some .creditCard ↔ CardNumber Text.isDecimal (Text.trim text.toList)) ∧
      (CardNumber Text.isDigit (Text.trim text.toList) ↔ detect? text = some .creditCard ∧
        ∀ char ∈ Text.trim text.toList, Text.isDecimal char = true → Text.isDigit char = true) := by
  rw [detect?_eq_creditCard_iff_isCard, isCard_iff]
  exact ⟨Iff.rfl, cardNumber_isDigit_iff⟩

/-- The last digit here is an Arabic zero, which the check passes over. -/
theorem detect?_creditCard_of_foreign_digit :
    detect? "4111 1111 1111 1111\u0660" = some .creditCard ∧
      ¬ CardNumber Text.isDigit (Text.trim "4111 1111 1111 1111\u0660".toList) := by
  refine ⟨by decide +kernel, fun ⟨groups, grouped, _⟩ => ?_⟩
  have inside : '\u0660' ∈ Text.trim "4111 1111 1111 1111\u0660".toList := by decide +kernel
  have digit := grouped.members _ ((grouped.joined.mem_iff (by decide)).mp inside)
  exact absurd digit (by decide)

end EventSchema.Format
