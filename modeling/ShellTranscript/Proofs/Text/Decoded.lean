import Mathlib.Tactic.Common
import ShellTranscript.Text.Utf8

-- The decoder reads a text back from its bytes. Every encoded character is decoded by its own bytes,
-- which bring the decoder back to where it was.
namespace ShellTranscript.Text.Utf8

theorem lead?_two {b : Nat} (h : 0xC2 ≤ b ∧ b ≤ 0xDF) : lead? b = some (b - 0xC0, 0x80, 0xBF, 0) := by
  rw [lead?, if_pos h]

-- The second byte tells overlong forms and surrogates apart.
theorem lead?_three {b : Nat} (h : 0xE0 ≤ b ∧ b ≤ 0xEF) : lead? b = some (b - 0xE0,
    if b = 0xE0 then 0xA0 else 0x80, if b = 0xED then 0x9F else 0xBF, 1) := by
  rw [lead?, if_neg (by omega)]
  split_ifs <;> first | omega | simp_all

-- It tells overlong forms and values beyond all characters apart.
theorem lead?_four {b : Nat} (h : 0xF0 ≤ b ∧ b ≤ 0xF4) : lead? b = some (b - 0xF0,
    if b = 0xF0 then 0x90 else 0x80, if b = 0xF4 then 0x8F else 0xBF, 2) := by
  rw [lead?, if_neg (by omega), if_neg (by omega), if_neg (by omega), if_neg (by omega)]
  split_ifs <;> first | omega | simp_all

theorem toNat_ofNat {n : Nat} (h : n < 0x100) : (UInt8.ofNat n).toNat = n := by
  rw [UInt8.toNat_ofNat', Nat.mod_eq_of_lt h]

theorem step_lead {n value low high owed : Nat} (hn : 0x80 ≤ n ∧ n < 0x100)
    (hlead : lead? n = some (value, low, high, owed)) :
    step .start (UInt8.ofNat n) = (.inside [UInt8.ofNat n] value low high owed, []) := by
  rw [step, first, toNat_ofNat hn.2, if_neg (by omega), hlead]

theorem step_next {seen : List UInt8} {value low high owed n : Nat} (hn : n < 0x40)
    (hrange : low ≤ n + 0x80 ∧ n + 0x80 ≤ high) :
    step (.inside seen value low high (owed + 1)) (UInt8.ofNat (n + 0x80)) =
      (.inside (seen ++ [UInt8.ofNat (n + 0x80)]) (value * 0x40 + n) 0x80 0xBF owed, []) := by
  rw [step, toNat_ofNat (by omega), if_pos hrange, Nat.add_sub_cancel]

theorem step_last {seen : List UInt8} {value low high n : Nat} (hn : n < 0x40)
    (hrange : low ≤ n + 0x80 ∧ n + 0x80 ≤ high) :
    step (.inside seen value low high 0) (UInt8.ofNat (n + 0x80)) =
      (.start, [.char (Char.ofNat (value * 0x40 + n))]) := by
  rw [step, toNat_ofNat (by omega), if_pos hrange, Nat.add_sub_cancel]

section Characters

variable {v : Nat}

theorem run_one (h : v ≤ 0x7F) : run .start [UInt8.ofNat v] = (.start, [.char (Char.ofNat v)]) := by
  rw [run, step, first, toNat_ofNat (by omega), if_pos (by omega)]
  rfl

theorem run_two (h : 0x7F < v) (hle : v ≤ 0x7FF) :
    run .start [UInt8.ofNat (v / 0x40 % 0x20 + 0xC0), UInt8.ofNat (v % 0x40 + 0x80)] =
      (.start, [.char (Char.ofNat v)]) := by
  have hvalue : (v / 0x40 % 0x20 + 0xC0 - 0xC0) * 0x40 + v % 0x40 = v := by omega
  rw [run, step_lead (by omega) (lead?_two (by omega))]
  simp only [run, List.nil_append, List.append_nil, step_last (show v % 0x40 < 0x40 by omega)
    (show 0x80 ≤ v % 0x40 + 0x80 ∧ v % 0x40 + 0x80 ≤ 0xBF by omega), hvalue]

theorem run_three (h : 0x7FF < v) (hle : v ≤ 0xFFFF) (hvalid : v < 0xD800 ∨ 0xDFFF < v) :
    run .start [UInt8.ofNat (v / 0x1000 % 0x10 + 0xE0), UInt8.ofNat (v / 0x40 % 0x40 + 0x80),
      UInt8.ofNat (v % 0x40 + 0x80)] = (.start, [.char (Char.ofNat v)]) := by
  have hvalue : ((v / 0x1000 % 0x10 + 0xE0 - 0xE0) * 0x40 + v / 0x40 % 0x40) * 0x40 +
      v % 0x40 = v := by
    omega
  have hsecond : (if v / 0x1000 % 0x10 + 0xE0 = 0xE0 then 0xA0 else 0x80) ≤ v / 0x40 % 0x40 + 0x80 ∧
      v / 0x40 % 0x40 + 0x80 ≤ if v / 0x1000 % 0x10 + 0xE0 = 0xED then 0x9F else 0xBF := by
    split_ifs <;> omega
  rw [run, step_lead (by omega) (lead?_three (by omega))]
  simp only [run, List.nil_append, List.append_nil,
    step_next (show v / 0x40 % 0x40 < 0x40 by omega) hsecond,
    step_last (show v % 0x40 < 0x40 by omega)
      (show 0x80 ≤ v % 0x40 + 0x80 ∧ v % 0x40 + 0x80 ≤ 0xBF by omega), hvalue]

theorem run_four (h : 0xFFFF < v) (hle : v < 0x110000) :
    run .start [UInt8.ofNat (v / 0x40000 % 8 + 0xF0), UInt8.ofNat (v / 0x1000 % 0x40 + 0x80),
      UInt8.ofNat (v / 0x40 % 0x40 + 0x80), UInt8.ofNat (v % 0x40 + 0x80)] =
        (.start, [.char (Char.ofNat v)]) := by
  have hvalue : (((v / 0x40000 % 8 + 0xF0 - 0xF0) * 0x40 + v / 0x1000 % 0x40) * 0x40 +
      v / 0x40 % 0x40) * 0x40 + v % 0x40 = v := by
    omega
  have hsecond : (if v / 0x40000 % 8 + 0xF0 = 0xF0 then 0x90 else 0x80) ≤ v / 0x1000 % 0x40 + 0x80 ∧
      v / 0x1000 % 0x40 + 0x80 ≤ if v / 0x40000 % 8 + 0xF0 = 0xF4 then 0x8F else 0xBF := by
    split_ifs <;> omega
  rw [run, step_lead (by omega) (lead?_four (by omega))]
  simp only [run, List.nil_append, List.append_nil,
    step_next (show v / 0x1000 % 0x40 < 0x40 by omega) hsecond,
    step_next (show v / 0x40 % 0x40 < 0x40 by omega)
      (show 0x80 ≤ v / 0x40 % 0x40 + 0x80 ∧ v / 0x40 % 0x40 + 0x80 ≤ 0xBF by omega),
    step_last (show v % 0x40 < 0x40 by omega)
      (show 0x80 ≤ v % 0x40 + 0x80 ∧ v % 0x40 + 0x80 ≤ 0xBF by omega), hvalue]

end Characters

theorem run_encodeChar (c : Char) : run .start (String.utf8EncodeChar c) = (.start, [.char c]) := by
  have hvalid : c.val.toNat < 0xD800 ∨ 0xDFFF < c.val.toNat ∧ c.val.toNat < 0x110000 := c.valid
  have hrun : run .start (String.utf8EncodeChar c) =
      (.start, [.char (Char.ofNat c.val.toNat)]) := by
    rw [String.utf8EncodeChar]
    split_ifs with hone htwo hthree
    · exact run_one hone
    · exact run_two (by omega) htwo
    · exact run_three (by omega) hthree (by omega)
    · exact run_four (Nat.lt_of_not_le hthree) (by omega)
  rwa [Char.toNat_val, Char.ofNat_toNat] at hrun

theorem run_encode (t : Text) : run .start (encode t) = (.start, t.map .char) := by
  induction t with
  | nil => rfl
  | cons c t ih =>
    have hsplit : encode (c :: t) = String.utf8EncodeChar c ++ encode t := rfl
    rw [hsplit, run_append, run_encodeChar, ih]
    rfl

theorem decodeLossy_encode (t : Text) : decodeLossy (encode t) = t := by
  have hchars : (t.map Decoded.char).map Decoded.toChar = t := by
    rw [List.map_map]
    exact List.map_id t
  simp only [decodeLossy, run_encode, finish, List.append_nil, hchars]

-- A byte of ASCII stands for itself and is no part of another character.
theorem mem_encode_ascii {t : Text} {b : UInt8} (hb : b ∈ encode t) (hascii : b.toNat < 0x80) :
    ∃ c ∈ t, c.toNat = b.toNat := by
  obtain ⟨c, hc, hbyte⟩ := List.mem_flatMap.mp hb
  refine ⟨c, hc, ?_⟩
  have hvalid : c.val.toNat < 0xD800 ∨ 0xDFFF < c.val.toNat ∧ c.val.toNat < 0x110000 := c.valid
  have hlarge : ∀ n, 0x80 ≤ n → n < 0x100 → b ≠ UInt8.ofNat n := by
    rintro n hlow hhigh rfl
    rw [toNat_ofNat hhigh] at hascii
    omega
  rw [String.utf8EncodeChar] at hbyte
  split_ifs at hbyte with hone htwo hthree
  · obtain rfl := List.mem_singleton.mp hbyte
    exact (toNat_ofNat (Nat.lt_of_le_of_lt hone (by decide))).symm
  · simp only [List.mem_cons, List.not_mem_nil, or_false] at hbyte
    rcases hbyte with h | h <;> exact absurd h (hlarge _ (by omega) (by omega))
  · simp only [List.mem_cons, List.not_mem_nil, or_false] at hbyte
    rcases hbyte with h | h | h <;> exact absurd h (hlarge _ (by omega) (by omega))
  · simp only [List.mem_cons, List.not_mem_nil, or_false] at hbyte
    rcases hbyte with h | h | h | h <;> exact absurd h (hlarge _ (by omega) (by omega))

-- Inside of a character no byte of ASCII is expected.
def Expects : State → Prop
  | .start => True
  | .inside _ _ low _ _ => 0x80 ≤ low

theorem expects_first (b : UInt8) : Expects (first b).1 := by
  rw [first]
  split_ifs with hascii
  · exact trivial
  · cases hlead : lead? b.toNat with
    | none => exact trivial
    | some lead =>
      obtain ⟨value, low, high, owed⟩ := lead
      show 0x80 ≤ low
      unfold lead? at hlead
      split_ifs at hlead <;> simp only [Option.some.injEq, Prod.mk.injEq] at hlead <;> omega

theorem expects_step {s : State} (h : Expects s) (b : UInt8) : Expects (step s b).1 := by
  cases s with
  | start => exact expects_first b
  | inside seen value low high owed =>
    rw [step]
    split
    · cases owed with
      | zero => exact trivial
      | succ owed => exact Nat.le_refl _
    · exact expects_first b

theorem expects_run {s : State} (h : Expects s) (bytes : List UInt8) : Expects (run s bytes).1 := by
  induction bytes generalizing s with
  | nil => exact h
  | cons b bytes ih => exact ih (expects_step h b)

-- A byte of ASCII ends what is unfinished.
theorem step_ascii {s : State} (h : Expects s) {b : UInt8} (hb : b.toNat < 0x80) :
    step s b = (.start, finish s ++ [.char (Char.ofNat b.toNat)]) := by
  cases s with
  | start => exact if_pos hb
  | inside seen value low high owed =>
    have hlow : 0x80 ≤ low := h
    rw [step, if_neg (by omega), first, if_pos hb]
    rfl

theorem decodeLossy_append_cons {b : UInt8} (hb : b.toNat < 0x80) (front back : List UInt8) :
    decodeLossy (front ++ b :: back) =
      decodeLossy front ++ Char.ofNat b.toNat :: decodeLossy back := by
  have hstep := step_ascii (expects_run (s := .start) trivial front) hb
  simp only [decodeLossy, run_append, run, hstep, List.map_append, List.append_assoc, List.map_cons,
    List.cons_append, List.nil_append]
  rfl

end ShellTranscript.Text.Utf8
