import Mathlib.Tactic.Common
import ShellTranscript.Proofs.Signal.Payload
import ShellTranscript.Proofs.Text.Hexadecimal
import ShellTranscript.Stored.Block

-- An identifier is read as it was written: hyphens are no digits, so they part the groups again.
namespace ShellTranscript

open Text

namespace Text.Numeral

theorem continueDigits_append (digit? : Char → Option Nat) (base value : Nat) (t u : Text) :
    continueDigits digit? base value (t ++ u) =
      (continueDigits digit? base value t).bind fun value => continueDigits digit? base value u := by
  induction t generalizing value with
  | nil => rfl
  | cons c t ih =>
    simp only [List.cons_append, continueDigits]
    cases digit? c with
    | none => rfl
    | some d => exact ih _

end Text.Numeral

namespace Uuid

open Numeral

variable {count n : Nat} {t : Text}

theorem hexDigit?_digitChar : ∀ n < 16, hexDigit? (Nat.digitChar n) = some n := by
  decide

theorem hexDigit?_hexDigit (n : Nat) : hexDigit? (JsonValue.hexDigit n) = some (n % 16) :=
  hexDigit?_digitChar _ (Nat.mod_lt n (by decide))

theorem length_hexDigits (count n : Nat) : (hexDigits count n).length = count := by
  induction count generalizing n with
  | zero => rfl
  | succ count ih => rw [hexDigits, List.length_append, ih, List.length_singleton]

theorem isHexDigit_of_mem {c : Char} (hc : c ∈ hexDigits count n) : IsHexDigit c := by
  induction count generalizing n with
  | zero => cases hc
  | succ count ih =>
    rcases List.mem_append.mp hc with hc | hc
    · exact ih hc
    · rw [List.mem_singleton.mp hc]
      exact Option.isSome_of_eq_some (hexDigit?_hexDigit n)

theorem continueDigits_hexDigits (count value n : Nat) :
    continueDigits hexDigit? 16 value (hexDigits count n) =
      some (value * Nat.pow 16 count + n % Nat.pow 16 count) := by
  induction count generalizing n with
  | zero => rw [hexDigits, continueDigits, Nat.pow_eq, Nat.pow_zero, Nat.mul_one, Nat.mod_one,
      Nat.add_zero]
  | succ count ih =>
    have hvalue : (value * Nat.pow 16 count + n / 16 % Nat.pow 16 count) * 16 + n % 16 =
        value * Nat.pow 16 (count + 1) + n % Nat.pow 16 (count + 1) := by
      rw [Nat.pow_eq, Nat.pow_eq, Nat.pow_succ', Nat.mod_mul, Nat.add_mul, Nat.mul_left_comm value,
        Nat.mul_comm 16, Nat.mul_comm 16 (n / 16 % _), Nat.add_assoc, Nat.add_comm (n % 16)]
    rw [hexDigits, continueDigits_append, ih, Option.bind_some, continueDigits, hexDigit?_hexDigit]
    exact congrArg some hvalue

theorem ofDigits?_hexDigits (id : Uuid) : ofDigits? (hexDigits 32 id.bits.toNat) = some id := by
  have hvalue : digits? hexDigit? 16 (hexDigits 32 id.bits.toNat) = some id.bits.toNat := by
    have hcontinue := continueDigits_hexDigits 32 0 id.bits.toNat
    have hlt : id.bits.toNat < Nat.pow 16 32 := id.bits.isLt
    rw [Nat.mod_eq_of_lt hlt, Nat.zero_mul, Nat.zero_add] at hcontinue
    have hlength := length_hexDigits 32 id.bits.toNat
    cases hdigits : hexDigits 32 id.bits.toNat with
    | nil =>
      rw [hdigits] at hlength
      cases hlength
    | cons c t =>
      rw [hdigits] at hcontinue
      exact hcontinue
  rw [ofDigits?, if_pos (length_hexDigits 32 _), hvalue, Option.map_some, BitVec.ofNat_toNat,
    BitVec.setWidth_eq]

-- Thirty-two digits in five groups are these digits again.
theorem ofGroups?_hyphened (hlength : t.length = 32) (hdigits : ∀ c ∈ t, IsHexDigit c) :
    ofGroups? (t.take 8 ++ ['-'] ++ (t.drop 8).take 4 ++ ['-'] ++ (t.drop 12).take 4 ++ ['-'] ++
      (t.drop 16).take 4 ++ ['-'] ++ t.drop 20) = ofDigits? t := by
  have hhyphen : '-' ∉ t := fun hmem => absurd (hdigits '-' hmem) (by decide)
  have hdrop : ∀ n, '-' ∉ t.drop n := fun n hmem => hhyphen (List.mem_of_mem_drop hmem)
  have htake : ∀ n u, '-' ∉ u → '-' ∉ List.take n u := fun n u hu hmem =>
    hu (List.mem_of_mem_take hmem)
  have hflat : t.take 8 ++ ((t.drop 8).take 4 ++ ((t.drop 12).take 4 ++ ((t.drop 16).take 4 ++
      t.drop 20))) = t := by
    have hgroup : ∀ n, (t.drop n).take 4 ++ t.drop (n + 4) = t.drop n := fun n => by
      rw [← List.drop_drop, List.take_append_drop]
    rw [hgroup 16, hgroup 12, hgroup 8, List.take_append_drop]
  simp only [List.append_assoc, List.cons_append, List.nil_append]
  rw [ofGroups?, fields_append (htake 8 _ hhyphen), fields_append (htake 4 _ (hdrop 8)),
    fields_append (htake 4 _ (hdrop 12)), fields_append (htake 4 _ (hdrop 16)),
    fields_of_not_mem (hdrop 20)]
  simp only [List.map_cons, List.map_nil, List.length_take, List.length_drop, hlength,
    List.flatten_cons, List.flatten_nil, List.append_nil, hflat]
  rfl

theorem parse?_write (id : Uuid) : parse? id.write = some id := by
  have hlength := length_hexDigits 32 id.bits.toNat
  have hdigits : ∀ c ∈ hexDigits 32 id.bits.toNat, IsHexDigit c := fun c => isHexDigit_of_mem
  have hgroups : ofGroups? id.write = some id :=
    (ofGroups?_hyphened hlength hdigits).trans (ofDigits?_hexDigits id)
  obtain ⟨c, t, hcons, hc⟩ : ∃ c t, id.write = c :: t ∧ IsHexDigit c := by
    cases ht : hexDigits 32 id.bits.toNat with
    | nil =>
      rw [ht] at hlength
      cases hlength
    | cons c t =>
      rw [ht] at hdigits
      simp only [write, ht]
      exact ⟨c, _, rfl, hdigits c List.mem_cons_self⟩
  have hname : dropBeginning? "urn:uuid:".toList id.write = none := by
    rw [Option.eq_none_iff_forall_ne_some]
    intro rest hrest
    have hurn := dropBeginning?_eq_some_iff.mp hrest
    rw [hcons] at hurn
    cases hurn
    exact absurd hc (by decide)
  unfold parse?
  split
  · rename_i heq
    rw [hcons] at heq
    cases heq
    exact absurd hc (by decide)
  · rw [hname]
    simp only [hgroups]
    rfl

end Uuid

end ShellTranscript
