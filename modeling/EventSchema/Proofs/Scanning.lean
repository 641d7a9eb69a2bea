import EventSchema.Text.Blank
import EventSchema.Text.Scan
import EventSchema.Text.Words
import Mathlib.Data.List.DropRight

namespace EventSchema

namespace Text

variable {text rest : List Char}

@[simp]
theorem dropChar?_eq_some_iff {expected : Char} :
    dropChar? expected text = some rest ↔ text = expected :: rest := by
  cases text with
  | nil => simp [dropChar?]
  | cons char left => simp [dropChar?]

@[simp]
theorem dropOneOf?_eq_some_iff {expected : List Char} :
    dropOneOf? expected text = some rest ↔ ∃ char ∈ expected, text = char :: rest := by
  cases text with
  | nil => simp [dropOneOf?]
  | cons char left => simp [dropOneOf?]

theorem dropCount?_eq_some_iff {isMember : Char → Bool} {count : Nat} :
    dropCount? isMember count text = some rest ↔
      ∃ front, text = front ++ rest ∧ front.length = count ∧ front.all isMember := by
  induction count generalizing text with
  | zero => simp [dropCount?]
  | succ count ih =>
      constructor
      · intro dropped
        cases text with
        | nil => simp [dropCount?] at dropped
        | cons char left =>
            rw [dropCount?, Option.ite_none_right_eq_some, ih] at dropped
            obtain ⟨own, front, rfl, rfl, members⟩ := dropped
            exact ⟨char :: front, rfl, rfl, by simp [own, members]⟩
      · rintro ⟨front, rfl, size, members⟩
        obtain ⟨char, later, rfl⟩ := List.exists_cons_of_length_eq_add_one size
        obtain ⟨own, others⟩ := Bool.and_eq_true_iff.mp members
        rw [List.cons_append, dropCount?, if_pos own, ih]
        exact ⟨later, rfl, Nat.succ.inj size, others⟩

@[simp]
theorem dropStart?_eq_some_iff {start : List Char} :
    dropStart? start text = some rest ↔ text = start ++ rest := by
  induction start generalizing text with
  | nil => simp [dropStart?]
  | cons expected start ih =>
      cases text with
      | nil => simp [dropStart?]
      | cons char left =>
          rw [dropStart?, Option.ite_none_right_eq_some, ih, List.cons_append, List.cons.injEq,
            eq_comm]

def LeavesEnd {α : Type} (text : List Char) (found : Option (α × List Char)) : Prop :=
  ∀ value rest, found = some (value, rest) → rest <:+ text

theorem LeavesEnd.mono {α : Type} {found : Option (α × List Char)} (kept : LeavesEnd rest found)
    (suffix : rest <:+ text) : LeavesEnd text found :=
  fun value left here => (kept value left here).trans suffix

theorem LeavesEnd.map {α β : Type} {found : Option (α × List Char)}
    {change : α × List Char → β × List Char} (kept : LeavesEnd text found)
    (same : ∀ pair, (change pair).2 = pair.2) : LeavesEnd text (found.map change) := by
  intro value rest changed
  obtain ⟨⟨original, left⟩, here, result⟩ := Option.map_eq_some_iff.mp changed
  have end_ : left = rest := (same (original, left)).symm.trans (congrArg Prod.snd result)
  exact end_ ▸ kept original left here

theorem leavesEnd_some {α : Type} {value : α} (suffix : rest <:+ text) :
    LeavesEnd text (some (value, rest)) := by
  rintro _ _ ⟨⟩
  exact suffix

theorem leavesEnd_map_mk {α : Type} {value : α} {found : Option (List Char)}
    (kept : ∀ rest, found = some rest → rest <:+ text) :
    LeavesEnd text (found.map (value, ·)) := by
  cases found with
  | none => exact nofun
  | some left => exact leavesEnd_some (kept left rfl)

theorem digits?_leavesEnd (least most : Nat) (text : List Char) :
    LeavesEnd text (digits? least most text) := by
  intro value rest read
  simp only [digits?, Option.ite_none_right_eq_some, Option.some.injEq, Prod.mk.injEq] at read
  obtain ⟨-, -, rfl⟩ := read
  exact List.drop_suffix _ _

theorem trimStart_suffix (text : List Char) : trimStart text <:+ text :=
  List.dropWhile_suffix _

theorem trim_eq_rdropWhile (text : List Char) :
    trim text = (trimStart text).rdropWhile isBlank := rfl

theorem trimStart_trim (text : List Char) : trimStart (trim text) = trim text := by
  have front : trim text <+: trimStart text := List.rdropWhile_prefix _ _
  refine List.dropWhile_eq_self_iff.mpr fun some => ?_
  rw [front.getElem some]
  exact List.dropWhile_get_zero_not _ _ _

theorem trim_trim (text : List Char) : trim (trim text) = trim text := by
  rw [trim_eq_rdropWhile, trimStart_trim, trim_eq_rdropWhile, List.rdropWhile_idempotent]

theorem trimStart_of_no_blank (solid : ∀ char ∈ text, ¬ isBlank char) : trimStart text = text :=
  List.dropWhile_eq_self_iff.mpr fun _ => solid _ (List.getElem_mem _)

theorem trim_of_no_blank (solid : ∀ char ∈ text, ¬ isBlank char) : trim text = text := by
  rw [trim_eq_rdropWhile, trimStart_of_no_blank solid]
  exact List.rdropWhile_eq_self_iff.mpr fun _ => solid _ (List.getLast_mem _)

theorem isDigit_iff {char : Char} : isDigit char = true ↔ 48 ≤ char.toNat ∧ char.toNat ≤ 57 := by
  rw [isDigit, digit?, Option.isSome_ite]
  rfl

theorem not_isBlank_of_isDigit {char : Char} (digit : isDigit char = true) : ¬ isBlank char := by
  rw [isDigit_iff] at digit
  simp only [isBlank, Bool.or_eq_true, Bool.and_eq_true, decide_eq_true_eq, beq_iff_eq]
  omega

theorem trimStart_of_digits (digits : ∀ char ∈ text, isDigit char = true) :
    trimStart text = text :=
  trimStart_of_no_blank fun char member => not_isBlank_of_isDigit (digits char member)

theorem trim_of_digits (digits : ∀ char ∈ text, isDigit char = true) : trim text = text :=
  trim_of_no_blank fun char member => not_isBlank_of_isDigit (digits char member)

end Text

end EventSchema
