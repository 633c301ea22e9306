import Mathlib.Tactic.Common
import ShellTranscript.Text.Blank
import ShellTranscript.Text.Numeral
import ShellTranscript.Text.Utf8

-- Printable ASCII: a character is one byte, and a number is written in digits from which it is read
-- again.
namespace ShellTranscript.Text

-- The characters from the space to the tilde.
def Printable (c : Char) : Prop := 0x20 ≤ c.toNat ∧ c.toNat < 0x7F

instance : DecidablePred Printable := fun c =>
  inferInstanceAs (Decidable (0x20 ≤ c.toNat ∧ c.toNat < 0x7F))

-- Asks the characters of the text only, not all that there are.
instance (t : Text) : Decidable (∀ c ∈ t, Printable c) :=
  List.decidableBAll Printable t

def byteOf (c : Char) : UInt8 := UInt8.ofNat c.toNat

theorem Printable.toNat_byteOf {c : Char} (h : Printable c) : (byteOf c).toNat = c.toNat := by
  have hc := h.2
  rw [byteOf, UInt8.toNat_ofNat']
  omega

theorem Printable.ofNat_byteOf {c : Char} (h : Printable c) : Char.ofNat (byteOf c).toNat = c := by
  rw [h.toNat_byteOf, Char.ofNat_toNat]

theorem byteOf_ofNat (b : UInt8) : byteOf (Char.ofNat b.toNat) = b := by
  have hb := b.toNat_lt
  rw [Char.ofNat, dif_pos (.inl (by omega))]
  exact UInt8.ofNat_toNat

theorem Printable.utf8Size {c : Char} (h : Printable c) : c.utf8Size = 1 := by
  have hle : c.val ≤ 0x7F := by
    rw [UInt32.le_iff_toNat_le]
    exact Nat.le_of_lt h.2
  rw [Char.utf8Size]
  exact if_pos hle

theorem Printable.encode_cons {c : Char} (h : Printable c) (t : Text) :
    Utf8.encode (c :: t) = byteOf c :: Utf8.encode t := by
  have hbyte : c.val.toUInt8 = byteOf c := by
    apply UInt8.toNat.inj
    rw [h.toNat_byteOf, UInt32.toNat_toUInt8]
    exact Nat.mod_eq_of_lt (Nat.lt_trans h.2 (by decide))
  rw [Utf8.encode, List.flatMap_cons, String.utf8EncodeChar_eq_singleton h.utf8Size, hbyte]
  rfl

-- The printable characters but the space.
def Graphic (c : Char) : Prop := 0x20 < c.toNat ∧ c.toNat < 0x7F

instance : DecidablePred Graphic := fun c =>
  inferInstanceAs (Decidable (0x20 < c.toNat ∧ c.toNat < 0x7F))

instance (t : Text) : Decidable (∀ c ∈ t, Graphic c) :=
  List.decidableBAll Graphic t

theorem Graphic.printable {c : Char} (h : Graphic c) : Printable c := ⟨Nat.le_of_lt h.1, h.2⟩

theorem Graphic.isBlank {c : Char} (h : Graphic c) : isBlank c = false := by
  obtain ⟨hlow, hhigh⟩ := h
  simp [Text.isBlank]
  omega

theorem graphic_of_range {c : Char} (low high : Char) (hlow : 0x20 < low.toNat)
    (hhigh : high.toNat < 0x7F) (h : low.val ≤ c.val ∧ c.val ≤ high.val) : Graphic c :=
  ⟨Nat.lt_of_lt_of_le hlow h.1, Nat.lt_of_le_of_lt h.2 hhigh⟩

theorem graphic_of_isAlphanum {c : Char} (h : c.isAlphanum = true) : Graphic c := by
  have hclasses : (c.isUpper = true ∨ c.isLower = true) ∨ c.isDigit = true := by
    rw [← Bool.or_eq_true, ← Bool.or_eq_true]
    exact h
  rcases hclasses with (hupper | hlower) | hdigit
  · exact graphic_of_range 'A' 'Z' (by decide) (by decide) (of_decide_eq_true hupper)
  · have hrange := Bool.and_eq_true_iff.mp hlower
    exact graphic_of_range 'a' 'z' (by decide) (by decide)
      ⟨of_decide_eq_true hrange.1, of_decide_eq_true hrange.2⟩
  · have hrange := Bool.and_eq_true_iff.mp hdigit
    exact graphic_of_range '0' '9' (by decide) (by decide)
      ⟨of_decide_eq_true hrange.1, of_decide_eq_true hrange.2⟩

theorem byteLength_printable {t : Text} (h : ∀ c ∈ t, Printable c) : byteLength t = t.length := by
  induction t with
  | nil => rfl
  | cons c t ih =>
    rw [byteLength_cons, (h c List.mem_cons_self).utf8Size, List.length_cons,
      ih fun d hd => h d (List.mem_cons_of_mem _ hd), Nat.add_comm]

theorem take_encode {t : Text} (h : ∀ c ∈ t, Printable c) (n : Nat) :
    (Utf8.encode t).take n = Utf8.encode (t.take n) := by
  induction t generalizing n with
  | nil => rw [List.take_nil]; exact List.take_nil
  | cons c t ih =>
    cases n with
    | zero => rfl
    | succ n =>
      have hc := h c List.mem_cons_self
      rw [hc.encode_cons, List.take_succ_cons, List.take_succ_cons, hc.encode_cons,
        ih fun d hd => h d (List.mem_cons_of_mem _ hd)]

-- The bytes of printable text are neither control characters nor beyond ASCII.
theorem mem_encode {t : Text} (h : ∀ c ∈ t, Printable c) {b : UInt8} (hb : b ∈ Utf8.encode t) :
    0x20 ≤ b.toNat ∧ b.toNat < 0x7F := by
  induction t with
  | nil => cases hb
  | cons c t ih =>
    have hc := h c List.mem_cons_self
    rw [hc.encode_cons] at hb
    cases List.mem_cons.mp hb with
    | inl hb =>
      rw [hb, hc.toNat_byteOf]
      exact hc
    | inr hb => exact ih (fun d hd => h d (List.mem_cons_of_mem _ hd)) hb

-- The decimal digits of a number, with a sign if it is negative.
def decimal (n : Int) : Text := (toString n).toList

theorem decimal_ofNat (n : Nat) : decimal (Int.ofNat n) = Nat.toDigits 10 n := by
  show (Int.repr (Int.ofNat n)).toList = _
  rw [Int.repr, Nat.toList_repr]

theorem decimal_negSucc (n : Nat) : decimal (Int.negSucc n) = '-' :: Nat.toDigits 10 (n + 1) := by
  show (Int.repr (Int.negSucc n)).toList = _
  rw [Int.repr]
  simp

theorem decimalDigit?_of_isDigit {c : Char} (h : c.isDigit = true) :
    Numeral.decimalDigit? c = some (c.toNat - '0'.toNat) := by
  rw [Char.isDigit, Bool.and_eq_true, decide_eq_true_eq, decide_eq_true_eq] at h
  exact if_pos h

theorem continueDigits_eq {t : Text} (h : ∀ c ∈ t, c.isDigit = true) (value : Nat) :
    Numeral.continueDigits Numeral.decimalDigit? 10 value t = some (Nat.ofDigitChars 10 t value) := by
  induction t generalizing value with
  | nil => simp [Numeral.continueDigits]
  | cons c t ih =>
    simp only [Numeral.continueDigits, decimalDigit?_of_isDigit (h c List.mem_cons_self)]
    rw [ih fun d hd => h d (List.mem_cons_of_mem _ hd), Nat.ofDigitChars_cons, Nat.mul_comm]

theorem digits?_toDigits (n : Nat) :
    Numeral.digits? Numeral.decimalDigit? 10 (Nat.toDigits 10 n) = some n := by
  have hdigits : ∀ c ∈ Nat.toDigits 10 n, c.isDigit = true := fun c hc =>
    Nat.isDigit_of_mem_toDigits (by decide) (by decide) hc
  have hvalue := continueDigits_eq hdigits 0
  rw [Nat.ofDigitChars_ten_toDigits] at hvalue
  cases hn : Nat.toDigits 10 n with
  | nil => exact absurd hn Nat.toDigits_ne_nil
  | cons c t =>
    rw [hn] at hvalue
    exact hvalue

theorem integer?_decimal {low high n : Int} (hlow : low ≤ n) (hhigh : n ≤ high) :
    Numeral.integer? low high (decimal n) = some n := by
  cases n with
  | ofNat n =>
    have hvalue := digits?_toDigits n
    rw [decimal_ofNat]
    cases hn : Nat.toDigits 10 n with
    | nil => exact absurd hn Nat.toDigits_ne_nil
    | cons c t =>
      have hdigit : c.isDigit = true :=
        Nat.isDigit_of_mem_toDigits (n := n) (by decide) (by decide) (hn ▸ List.mem_cons_self)
      have hsign : c ≠ '-' ∧ c ≠ '+' := by
        constructor <;> rintro rfl <;> cases hdigit
      rw [hn] at hvalue
      unfold Numeral.integer?
      split
      · rename_i heq
        exact absurd (List.cons.inj heq).1 hsign.1
      · rename_i heq
        exact absurd (List.cons.inj heq).1 hsign.2
      · rw [hvalue]
        exact if_pos ⟨hlow, hhigh⟩
  | negSucc n =>
    have hvalue := digits?_toDigits (n + 1)
    have hneg : -((n + 1 : Nat) : Int) = Int.negSucc n := rfl
    rw [decimal_negSucc]
    simp only [Numeral.integer?, hvalue, Option.bind_eq_bind, Option.bind_some, Option.pure_def,
      Option.map_some]
    rw [hneg, if_pos ⟨hlow, hhigh⟩]

-- An exit code is read as it was written.
theorem exitCode?_decimal {n : Int} (hlow : -0x80000000 ≤ n) (hhigh : n ≤ 0x7FFFFFFF) :
    Numeral.exitCode? (decimal n) = some n := integer?_decimal hlow hhigh

-- A written number takes no more characters than the payload of a marker has room for.
theorem length_decimal_le {n : Int} (hlow : -0x80000000 ≤ n) (hhigh : n ≤ 0x7FFFFFFF) :
    (decimal n).length ≤ 11 := by
  have hdigits : ∀ m : Nat, m ≤ 0x80000000 → (Nat.toDigits 10 m).length ≤ 10 := fun m hm =>
    (Nat.length_toDigits_le_iff (by decide) (by decide)).mpr (Nat.lt_of_le_of_lt hm (by decide))
  cases n with
  | ofNat n =>
    have hle : (n : Int) ≤ 0x7FFFFFFF := hhigh
    rw [decimal_ofNat]
    exact Nat.le_succ_of_le (hdigits n (by omega))
  | negSucc n =>
    rw [decimal_negSucc, List.length_cons]
    exact Nat.succ_le_succ (hdigits (n + 1) (by omega))

theorem printable_of_isDigit {c : Char} (h : c.isDigit = true) :
    Printable c ∧ isBlank c = false ∧ c ≠ ';' := by
  have hgraphic : Graphic c := graphic_of_isAlphanum (Bool.or_eq_true_iff.mpr (.inr h))
  refine ⟨hgraphic.printable, hgraphic.isBlank, ?_⟩
  rintro rfl
  cases h

-- Digits and signs are printable and no blanks.
theorem mem_decimal {n : Int} {c : Char} (h : c ∈ decimal n) :
    Printable c ∧ isBlank c = false ∧ c ≠ ';' := by
  cases n with
  | ofNat n =>
    rw [decimal_ofNat] at h
    exact printable_of_isDigit (Nat.isDigit_of_mem_toDigits (by decide) (by decide) h)
  | negSucc n =>
    rw [decimal_negSucc] at h
    cases List.mem_cons.mp h with
    | inl h =>
      rw [h]
      decide
    | inr h => exact printable_of_isDigit (Nat.isDigit_of_mem_toDigits (by decide) (by decide) h)

end ShellTranscript.Text
