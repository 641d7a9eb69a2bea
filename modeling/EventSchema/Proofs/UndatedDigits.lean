import EventSchema.Calendar.Temporal
import EventSchema.Proofs.Scanning
/-!
Digits alone tell no date and no time. Every layout has an item that reads only texts with something
else than digits, and before it comes to that item it has left a text of digits behind.
-/
namespace EventSchema

namespace Text

theorem lowerAscii_of_isDigit {char : Char} (digit : isDigit char = true) :
    lowerAscii char = char := by
  have notUpper : ¬ ('A' ≤ char ∧ char ≤ 'Z') := fun ⟨least, _⟩ => by
    have : 65 ≤ char.toNat := least
    rw [isDigit_iff] at digit
    omega
  rw [lowerAscii, if_neg notUpper]

end Text

namespace Calendar

theorem dropWord?_eq_some_iff {word text rest : List Char} :
    dropWord? word text = some rest ↔
      ∃ front, text = front ++ rest ∧ front.map Text.lowerAscii = word := by
  induction word generalizing text with
  | nil => simp [dropWord?]
  | cons letter word ih =>
      constructor
      · intro dropped
        cases text with
        | nil => simp [dropWord?] at dropped
        | cons char left =>
            rw [dropWord?, Option.ite_none_right_eq_some, ih] at dropped
            obtain ⟨rfl, front, rfl, rfl⟩ := dropped
            exact ⟨char :: front, rfl, rfl⟩
      · rintro ⟨front, rfl, spelt⟩
        obtain ⟨char, later, rfl, rfl, others⟩ := List.map_eq_cons_iff.mp spelt
        rw [List.cons_append, dropWord?, if_pos rfl, ih]
        exact ⟨later, rfl, others⟩

def Item.isMark : Item → Bool
  | .char expected => !Text.isDigit expected
  | .shortMonth | .anyMonth | .weekday | .offset => true
  | _ => false

theorem exists_isMark_of_mem_layouts : ∀ entry ∈ layouts, entry.2.any Item.isMark = true := by
  decide +kernel

theorem year?_leavesEnd (text : List Char) : Text.LeavesEnd text (year? text) := by
  unfold year?
  split
  · exact .mono (.map (Text.digits?_leavesEnd _ _ _) fun _ => rfl) (List.suffix_cons _ _)
  · exact .mono (.map (Text.digits?_leavesEnd _ _ _) fun _ => rfl) (List.suffix_cons _ _)
  · exact .map (Text.digits?_leavesEnd _ _ _) fun _ => rfl

theorem twoDigits?_leavesEnd (text : List Char) : Text.LeavesEnd text (twoDigits? text) :=
  (Text.digits?_leavesEnd _ _ _).mono (Text.trimStart_suffix text)

theorem fraction?_suffix {text rest : List Char} (read : fraction? text = some rest) :
    rest <:+ text := by
  rw [fraction?, Option.ite_none_left_eq_some, Option.some.injEq] at read
  exact read.2 ▸ List.dropWhile_suffix _

theorem Item.read_leavesEnd {item : Item} (unmarked : item.isMark = false) (fields : Fields)
    (text : List Char) : Text.LeavesEnd text (item.read fields text) := by
  cases item with
  | year => exact .map ((year?_leavesEnd _).mono (Text.trimStart_suffix text)) fun _ => rfl
  | month | day | hour | minute | second => exact .map (twoDigits?_leavesEnd text) fun _ => rfl
  | fraction =>
      rw [Item.read.eq_def]
      dsimp only
      split
      · exact Text.leavesEnd_map_mk fun rest read =>
          (fraction?_suffix read).trans (List.suffix_cons _ _)
      · exact Text.leavesEnd_some List.suffix_rfl
  | blank => exact Text.leavesEnd_some (Text.trimStart_suffix text)
  | char expected =>
      exact Text.leavesEnd_map_mk fun rest read =>
        Text.dropChar?_eq_some_iff.mp read ▸ List.suffix_cons _ _
  | shortMonth | anyMonth | weekday | offset => cases unmarked

variable {text : List Char} (digits : ∀ char ∈ text, Text.isDigit char = true)
include digits

theorem dropWord?_of_digits {word : List Char} (foreign : word.any (!Text.isDigit ·) = true) :
    dropWord? word text = none := by
  refine Option.eq_none_iff_forall_ne_some.mpr fun rest dropped => ?_
  obtain ⟨front, rfl, rfl⟩ := dropWord?_eq_some_iff.mp dropped
  obtain ⟨_, spelt, other⟩ := List.any_eq_true.mp foreign
  obtain ⟨char, member, rfl⟩ := List.mem_map.mp spelt
  have digit := digits char (List.mem_append_left _ member)
  rw [Text.lowerAscii_of_isDigit digit, digit] at other
  exact Bool.false_ne_true other

theorem name?_of_digits {names : List (List Char)}
    (foreign : ∀ name ∈ names, name.any (!Text.isDigit ·) = true) : name? names text = none := by
  rw [name?, List.head?_eq_none_iff, List.filterMap_eq_nil_iff]
  rintro ⟨name, index⟩ listed
  simp [dropWord?_of_digits digits (foreign name (List.fst_mem_of_mem_zipIdx listed))]

theorem shortMonth?_of_digits : shortMonth? text = none := by
  rw [shortMonth?, name?_of_digits digits (by decide), Option.map_none]

theorem anyMonth?_of_digits : anyMonth? text = none := by
  rw [anyMonth?, name?_of_digits digits (by decide), shortMonth?_of_digits digits]

theorem weekday?_of_digits : weekday? text = none :=
  name?_of_digits digits (by decide)

theorem sign?_of_digits : sign? text = none := by
  fun_cases sign? text with
  | case4 => rfl
  | _ => exact absurd (digits _ List.mem_cons_self) (by decide)

theorem offset?_of_digits {separator : List Char → Option (List Char)} :
    offset? separator text = none := by
  rw [offset?, sign?_of_digits digits]
  rfl

theorem Item.read_of_digits {item : Item} (marked : item.isMark = true) (fields : Fields) :
    item.read fields text = none := by
  cases item with
  | shortMonth => rw [Item.read, shortMonth?_of_digits digits, Option.map_none]
  | anyMonth => rw [Item.read, anyMonth?_of_digits digits, Option.map_none]
  | weekday => rw [Item.read, weekday?_of_digits digits, Option.map_none]
  | offset =>
      rw [Item.read, Text.trimStart_of_digits digits, offset?_of_digits digits, Option.map_none]
  | char expected =>
      refine Option.eq_none_iff_forall_ne_some.mpr fun result read => ?_
      obtain ⟨rest, dropped, -⟩ := Option.map_eq_some_iff.mp read
      obtain rfl := Text.dropChar?_eq_some_iff.mp dropped
      have foreign : (!Text.isDigit expected) = true := marked
      simp [digits expected List.mem_cons_self] at foreign
  | _ => cases marked

theorem Layout.readFrom_of_digits {layout : Layout} (marked : layout.any Item.isMark = true)
    (fields : Fields) : layout.readFrom fields text = none := by
  induction layout generalizing fields text with
  | nil => cases marked
  | cons item later ih =>
      cases own : item.isMark with
      | true => rw [readFrom, Item.read_of_digits digits own]; rfl
      | false =>
          -- The item takes off the front only, so the mark that comes later meets digits too.
          refine Option.eq_none_iff_forall_ne_some.mpr fun result read => ?_
          obtain ⟨⟨next, left⟩, first, others⟩ := Option.bind_eq_some_iff.mp read
          have suffix := Item.read_leavesEnd own fields text next left first
          have none := ih (fun char member => digits char (suffix.subset member))
            (by simpa [own] using marked) next
          exact Option.some_ne_none _ (others.symm.trans none)

theorem matchesLayout_of_digits : matchesLayout text = false := by
  refine List.any_eq_false.mpr fun ⟨kind, layout⟩ listed => ?_
  have unread : layout.read? text = none :=
    Layout.readFrom_of_digits digits (exists_isMark_of_mem_layouts (kind, layout) listed) {}
  simp [unread]

theorem profile?_of_digits : profile? text = none := by
  refine Option.eq_none_iff_forall_ne_some.mpr fun fields read => ?_
  obtain ⟨⟨year, left⟩, first, joined⟩ := Option.bind_eq_some_iff.mp read
  obtain ⟨rest, marked, -⟩ := Option.bind_eq_some_iff.mp joined
  obtain rfl := Text.dropChar?_eq_some_iff.mp marked
  have inside := (Text.digits?_leavesEnd 4 4 text year _ first).subset List.mem_cons_self
  exact absurd (digits '-' inside) (by decide)

theorem space?_of_digits : space? text = none := by
  rw [space?, Text.trimStart_of_digits digits, if_neg (lt_irrefl _)]

theorem mailDate?_of_digits : mailDate? text = none := by
  refine Option.eq_none_iff_forall_ne_some.mpr fun fields read => ?_
  rw [mailDate?, Text.trimStart_of_digits digits, weekday?_of_digits digits] at read
  -- Without the name of a weekday the day comes first, and after it white space is wanted.
  obtain ⟨_, ⟨⟩, unnamed⟩ := Option.bind_eq_some_iff.mp read
  obtain ⟨⟨day, left⟩, first, spaced⟩ := Option.bind_eq_some_iff.mp unnamed
  obtain ⟨later, blank, -⟩ := Option.bind_eq_some_iff.mp spaced
  rw [Text.trimStart_of_digits digits] at first
  have inside := (Text.digits?_leavesEnd 1 2 text day left first).subset
  rw [space?_of_digits fun char member => digits char (inside member)] at blank
  cases blank

omit digits in
theorem isTemporal_of_digits {text : String}
    (digits : ∀ char ∈ Text.trim text.toList, Text.isDigit char = true) :
    isTemporal text = false := by
  rw [isTemporal, isInternetTimestamp, profile?_of_digits digits, mailDate?_of_digits digits,
    matchesLayout_of_digits digits]
  rfl

end Calendar

end EventSchema
