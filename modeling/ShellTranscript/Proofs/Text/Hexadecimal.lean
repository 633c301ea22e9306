import Mathlib.Tactic.Common
import ShellTranscript.Text.Numeral

-- Bytes in hexadecimal. Two digits are a byte, and so is one digit, alone or behind a plus sign;
-- nothing else of at most two characters is.
namespace ShellTranscript.Text.Numeral

theorem hexDigit?_bounds {c : Char} {n : Nat} (h : hexDigit? c = some n) :
    n < 16 ∧ 0x30 ≤ c.toNat ∧ c.toNat ≤ 0x66 := by
  rw [hexDigit?] at h
  split_ifs at h with hdecimal hlower hupper
  · have hlow : 0x30 ≤ c.toNat := hdecimal.1
    have hhigh : c.toNat ≤ 0x39 := hdecimal.2
    have hvalue : c.toNat - 0x30 = n := Option.some.inj h
    omega
  · have hlow : 0x61 ≤ c.toNat := hlower.1
    have hhigh : c.toNat ≤ 0x66 := hlower.2
    have hvalue : c.toNat - 0x61 + 10 = n := Option.some.inj h
    omega
  · have hlow : 0x41 ≤ c.toNat := hupper.1
    have hhigh : c.toNat ≤ 0x46 := hupper.2
    have hvalue : c.toNat - 0x41 + 10 = n := Option.some.inj h
    omega

theorem hexDigit?_lt {c : Char} {n : Nat} (h : hexDigit? c = some n) : n < 16 :=
  (hexDigit?_bounds h).1

theorem digits?_one (a : Char) : digits? hexDigit? 16 [a] = hexDigit? a := by
  rw [digits?, continueDigits]
  cases hexDigit? a with
  | none => rfl
  | some n => simp [continueDigits]

theorem digits?_two (a b : Char) : digits? hexDigit? 16 [a, b] =
    (hexDigit? a).bind fun high => (hexDigit? b).map fun low => high * 16 + low := by
  rw [digits?, continueDigits]
  cases hexDigit? a with
  | none => rfl
  | some high =>
    simp only [continueDigits, Nat.zero_mul, Nat.zero_add, Option.bind_some]
    cases hexDigit? b <;> rfl

theorem bind_byte_eq_some_iff {digits : Option Nat} {n : UInt8} :
    (digits.bind fun value => if value < 256 then some (UInt8.ofNat value) else none) = some n ↔
      digits = some n.toNat := by
  cases digits with
  | none => simp
  | some value =>
    have hn := n.toNat_lt
    rw [Option.bind_some, Option.some.injEq]
    constructor
    · intro h
      split at h
      · rename_i hlt
        rw [← Option.some.inj h, UInt8.toNat_ofNat', Nat.mod_eq_of_lt hlt]
      · cases h
    · rintro rfl
      rw [if_pos (by omega), UInt8.ofNat_toNat]

-- A sign is not counted among the digits.
theorem hexByte?_plus_iff {t : Text} {n : UInt8} :
    hexByte? ('+' :: t) = some n ↔ digits? hexDigit? 16 t = some n.toNat :=
  bind_byte_eq_some_iff

theorem hexByte?_unsigned_iff {a : Char} (ha : a ≠ '+') {t : Text} {n : UInt8} :
    hexByte? (a :: t) = some n ↔ digits? hexDigit? 16 (a :: t) = some n.toNat := by
  unfold hexByte?
  split
  · rename_i heq
    exact absurd (List.cons.inj heq).1 ha
  · exact bind_byte_eq_some_iff

theorem hexByte?_single_iff {a : Char} {n : UInt8} :
    hexByte? [a] = some n ↔ hexDigit? a = some n.toNat := by
  by_cases hplus : a = '+'
  · have hempty : digits? hexDigit? 16 [] = none := rfl
    have hdigit : hexDigit? '+' = none := rfl
    rw [hplus, hexByte?_plus_iff, hempty, hdigit]
  · rw [hexByte?_unsigned_iff hplus, digits?_one]

theorem hexByte?_pair_iff {a b : Char} {n : UInt8} : hexByte? [a, b] = some n ↔
    (a = '+' ∧ hexDigit? b = some n.toNat) ∨
      ∃ high low, hexDigit? a = some high ∧ hexDigit? b = some low ∧ n.toNat = high * 16 + low := by
  by_cases hplus : a = '+'
  · have hdigit : hexDigit? '+' = none := rfl
    rw [hplus, hexByte?_plus_iff, digits?_one, hdigit]
    simp
  · rw [hexByte?_unsigned_iff hplus, digits?_two, or_iff_right fun h => hplus h.1]
    simp only [Option.bind_eq_some_iff, Option.map_eq_some_iff]
    constructor
    · rintro ⟨high, ha, low, hb, hvalue⟩
      exact ⟨high, low, ha, hb, hvalue.symm⟩
    · rintro ⟨high, low, ha, hb, hvalue⟩
      exact ⟨high, ha, low, hb, hvalue.symm⟩

theorem hexByte?_pair {a b : Char} {high low : Nat} (ha : hexDigit? a = some high)
    (hb : hexDigit? b = some low) : hexByte? [a, b] = some (UInt8.ofNat (high * 16 + low)) := by
  have hhigh := hexDigit?_lt ha
  have hlow := hexDigit?_lt hb
  refine hexByte?_pair_iff.mpr (.inr ⟨high, low, ha, hb, ?_⟩)
  rw [UInt8.toNat_ofNat', Nat.mod_eq_of_lt (by omega)]

-- The digits of hexadecimal numbers, in either case.
def IsHexDigit (c : Char) : Prop := (hexDigit? c).isSome

instance : DecidablePred IsHexDigit := fun c =>
  inferInstanceAs (Decidable ((hexDigit? c).isSome = true))

theorem not_isHexDigit_plus : ¬IsHexDigit '+' := by decide

theorem isSome_hexByte?_single_iff {a : Char} : (hexByte? [a]).isSome ↔ IsHexDigit a := by
  rw [Option.isSome_iff_exists, IsHexDigit, Option.isSome_iff_exists]
  constructor
  · rintro ⟨n, hn⟩
    exact ⟨n.toNat, hexByte?_single_iff.mp hn⟩
  · rintro ⟨value, ha⟩
    have hlt := hexDigit?_lt ha
    refine ⟨UInt8.ofNat value, hexByte?_single_iff.mpr ?_⟩
    rw [ha, UInt8.toNat_ofNat', Nat.mod_eq_of_lt (by omega)]

theorem isSome_hexByte?_pair_iff {a b : Char} :
    (hexByte? [a, b]).isSome ↔ (a = '+' ∨ IsHexDigit a) ∧ IsHexDigit b := by
  rw [Option.isSome_iff_exists]
  constructor
  · rintro ⟨n, hn⟩
    rcases hexByte?_pair_iff.mp hn with ⟨ha, hb⟩ | ⟨high, low, ha, hb, -⟩
    · exact ⟨.inl ha, Option.isSome_of_eq_some hb⟩
    · exact ⟨.inr (Option.isSome_of_eq_some ha), Option.isSome_of_eq_some hb⟩
  · rintro ⟨ha, hdigit⟩
    obtain ⟨low, hb⟩ := Option.isSome_iff_exists.mp hdigit
    rcases ha with ha | hdigit'
    · have hlow := hexDigit?_lt hb
      refine ⟨UInt8.ofNat low, hexByte?_pair_iff.mpr (.inl ⟨ha, ?_⟩)⟩
      rw [hb, UInt8.toNat_ofNat', Nat.mod_eq_of_lt (by omega)]
    · obtain ⟨high, ha⟩ := Option.isSome_iff_exists.mp hdigit'
      exact ⟨UInt8.ofNat (high * 16 + low), hexByte?_pair ha hb⟩

end ShellTranscript.Text.Numeral
