import EventSchema.Text.Pattern
import Mathlib.Computability.Language

namespace EventSchema.Text.Pattern

def language : Pattern → Language Char
  | empty => 1
  | one isMember => {text | ∃ char, isMember char = true ∧ text = [char]}
  | followed first second => first.language * second.language
  | either left right => left.language + right.language

variable {text rest : List Char} {pattern part first second left right : Pattern}

theorem mem_language_empty : text ∈ empty.language ↔ text = [] := Language.mem_one text

theorem mem_language_one {isMember : Char → Bool} :
    text ∈ (one isMember).language ↔ ∃ char, isMember char = true ∧ text = [char] := Iff.rfl

theorem mem_language_followed : text ∈ (followed first second).language ↔
    ∃ front ∈ first.language, ∃ back ∈ second.language, front ++ back = text := Language.mem_mul

theorem mem_language_either : text ∈ (either left right).language ↔
    text ∈ left.language ∨ text ∈ right.language := Language.mem_add _ _ _

theorem mem_language_exactly {char : Char} : text ∈ (exactly char).language ↔ text = [char] := by
  simp [exactly, mem_language_one]

theorem mem_language_between {least most : Char} : text ∈ (between least most).language ↔
    ∃ char, (least.toNat ≤ char.toNat ∧ char.toNat ≤ most.toNat) ∧ text = [char] := by
  simp only [between, mem_language_one, Bool.and_eq_true, decide_eq_true_eq]
  rfl

theorem mem_language_optional :
    text ∈ (optional part).language ↔ text ∈ part.language ∨ text = [] := by
  rw [optional, mem_language_either, mem_language_empty]

theorem mem_rests_iff :
    rest ∈ pattern.rests text ↔ ∃ front ∈ pattern.language, text = front ++ rest := by
  induction pattern generalizing text rest with
  | empty => simp [rests, mem_language_empty, @eq_comm _ text]
  | one isMember =>
      simp only [mem_language_one]
      cases text with
      | nil => simp [rests]
      | cons char later =>
          rw [rests, List.mem_ite_nil_right, List.mem_singleton]
          constructor
          · rintro ⟨own, rfl⟩
            exact ⟨[char], ⟨char, own, rfl⟩, rfl⟩
          · rintro ⟨_, ⟨_, own, rfl⟩, same⟩
            obtain ⟨rfl, rfl⟩ := List.cons.inj same
            exact ⟨own, rfl⟩
  | followed first second former latter =>
      simp only [rests, List.mem_flatMap, former, latter, mem_language_followed]
      constructor
      · rintro ⟨_, ⟨front, inside, rfl⟩, back, inside', rfl⟩
        exact ⟨front ++ back, ⟨front, inside, back, inside', rfl⟩, by simp⟩
      · rintro ⟨_, ⟨front, inside, back, inside', rfl⟩, rfl⟩
        exact ⟨back ++ rest, ⟨front, inside, by simp⟩, back, inside', rfl⟩
  | either left right former latter =>
      simp only [rests, List.mem_append, former, latter, mem_language_either]
      grind

theorem describes_iff : pattern.describes text = true ↔ text ∈ pattern.language := by
  simp [describes, mem_rests_iff]

theorem mem_language_separated {count : Nat} {mark : Char} :
    text ∈ (followed (times count (followed part (exactly mark))) part).language ↔
      ∃ pieces : List (List Char), pieces.length = count + 1 ∧
        (∀ piece ∈ pieces, piece ∈ part.language) ∧ text = [mark].intercalate pieces := by
  induction count generalizing text with
  | zero => simp [times, mem_language_followed, mem_language_empty, List.length_eq_one_iff]
  | succ count ih =>
      simp only [times, mem_language_followed, mem_language_exactly] at ih ⊢
      constructor
      · rintro ⟨_, ⟨_, ⟨piece, inside, _, rfl, rfl⟩, middle, marked, rfl⟩, last, ending, rfl⟩
        obtain ⟨pieces, size, each, joined⟩ := ih.mp ⟨middle, marked, last, ending, rfl⟩
        have some : pieces ≠ [] := List.ne_nil_of_length_eq_add_one size
        refine ⟨piece :: pieces, by rw [List.length_cons, size], ?_, ?_⟩
        · exact List.forall_mem_cons.mpr ⟨inside, each⟩
        · rw [List.intercalate_cons_of_ne_nil some, ← joined, List.append_assoc (piece ++ [mark])]
      · rintro ⟨_, size, each, rfl⟩
        obtain ⟨piece, pieces, rfl⟩ := List.exists_cons_of_length_eq_add_one size
        obtain ⟨inside, others⟩ := List.forall_mem_cons.mp each
        have size' : pieces.length = count + 1 := Nat.succ.inj size
        have some : pieces ≠ [] := List.ne_nil_of_length_eq_add_one size'
        obtain ⟨middle, marked, last, ending, joined⟩ := ih.mpr ⟨pieces, size', others, rfl⟩
        refine ⟨piece ++ [mark] ++ middle, ?_, last, ending, ?_⟩
        · exact ⟨_, ⟨piece, inside, _, rfl, rfl⟩, middle, marked, rfl⟩
        · rw [List.intercalate_cons_of_ne_nil some, ← joined, List.append_assoc (piece ++ [mark])]

end EventSchema.Text.Pattern
