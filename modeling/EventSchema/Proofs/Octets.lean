import EventSchema.Format.Network
import EventSchema.Proofs.Digits
import EventSchema.Proofs.Patterns

namespace EventSchema.Format

open Text.Pattern

variable {text : List Char}

theorem isOctet_iff :
    isOctet text = true ↔ (1 ≤ text.length ∧ text.length ≤ 3) ∧
      (∀ char ∈ text, Text.isDigit char = true) ∧ Text.toNat text ≤ 255 := by
  simp [isOctet, and_assoc]

theorem isOctet_iff_toNat :
    isOctet text = true ↔ (1 ≤ text.length ∧ text.length ≤ 3) ∧
      (∀ char ∈ text, 48 ≤ char.toNat ∧ char.toNat ≤ 57) ∧
        text.foldl (fun value char => value * 10 + (char.toNat - 48)) 0 ≤ 255 := by
  rw [isOctet_iff, ← forall₂_congr fun char _ => Text.isDigit_iff]
  refine and_congr_right fun _ => and_congr_right fun digits => ?_
  rw [Text.toNat_of_digits digits]

theorem mem_language_octet : text ∈ octet.language ↔ isOctet text = true := by
  have two {char : Char} : '2' = char ↔ char.toNat = 50 := eq_comm.trans Char.toNat_inj.symm
  have five {char : Char} : '5' = char ↔ char.toNat = 53 := eq_comm.trans Char.toNat_inj.symm
  simp only [octet, Text.Pattern.sequence, mem_language_either, mem_language_followed,
    mem_language_empty, mem_language_exactly, mem_language_between, mem_language_optional,
    isOctet_iff_toNat]
  match text with
  | [] => simp
  | [_] => simp; omega
  | [_, _] => simp; omega
  | [_, _, _] => simp [two, five]; omega
  | _ :: _ :: _ :: _ :: _ => simp

theorem isIpv4_iff : isIpv4 text = true ↔
    ∃ octets : List (List Char), octets.length = 4 ∧ (∀ octet ∈ octets, isOctet octet = true) ∧
      text = ['.'].intercalate octets := by
  rw [isIpv4, describes_iff, dottedQuad, mem_language_separated]
  simp only [mem_language_octet]

end EventSchema.Format
