import Mathlib.Tactic.Common
import ShellTranscript.Proofs.Json.Spelling

-- Tokens are found wherever they stand: behind blanks, with any escapes, and before whatever may
-- follow a value. So every JSON value is passed over, and nothing behind it is touched.
namespace ShellTranscript

open Text Spelling

namespace JsonReader

variable {α β : Type}

-- What may follow a value.
def Stops (rest : Text) : Prop :=
  ∀ c ∈ rest.head?, isJsonBlank c = true ∨ c = ',' ∨ c = ']' ∨ c = '}'

-- Every spelling of a value is read as it, wherever it stands.
def Reads (read : JsonReader α) (value : Spelling) (a : α) : Prop :=
  ∀ w v rest, Blanks w → value v → Stops rest → read.run (w ++ (v ++ rest)) = .ok (a, rest)

section Steps

variable {read : JsonReader α} {a : α} {w t rest : Text} {c : Char}

theorem run_bind (h : read.run t = .ok (a, rest)) (next : α → JsonReader β) :
    (read >>= next).run t = (next a).run rest := by
  rw [StateT.run_bind, h]
  rfl

theorem run_get (next : Text → JsonReader β) (t : Text) : (get >>= next).run t = (next t).run t := rfl

theorem run_skipChar (c : Char) (t : Text) : skipChar.run (c :: t) = .ok ((), t) := rfl

theorem dropWhile_blanks (hw : Blanks w) (hc : isJsonBlank c = false) (t : Text) :
    (w ++ c :: t).dropWhile isJsonBlank = c :: t := by
  rw [List.dropWhile_append_of_pos hw, List.dropWhile_cons_of_neg (by simp [hc])]

theorem run_peek (hw : Blanks w) (hc : isJsonBlank c = false) (t : Text) :
    peek.run (w ++ c :: t) = .ok (c, c :: t) := by
  have hskip : skipBlanks.run (w ++ c :: t) = .ok ((), c :: t) :=
    congrArg (fun t => Except.ok ((), t)) (dropWhile_blanks hw hc t)
  rw [peek, run_bind hskip]
  rfl

theorem peek_bind (hw : Blanks w) (hc : isJsonBlank c = false) (t : Text) (next : Char → JsonReader β) :
    (peek >>= next).run (w ++ c :: t) = (next c).run (c :: t) := run_bind (run_peek hw hc t) next

theorem run_expect (hw : Blanks w) (hc : isJsonBlank c = false) (t : Text) :
    (expect c).run (w ++ c :: t) = .ok ((), t) := by
  rw [expect, run_bind (run_peek hw hc t), if_pos rfl]
  rfl

theorem run_literal (word t : Text) : (literal word).run (word ++ t) = .ok ((), t) := by
  induction word with
  | nil => rfl
  | cons c word ih =>
    rw [literal, run_get]
    simp only [List.cons_append, if_pos]
    exact ih

theorem blanks_nil : Blanks [] := fun _ hc => (List.not_mem_nil hc).elim

theorem stops_cons (h : c = ',' ∨ c = ']' ∨ c = '}') (t : Text) : Stops (c :: t) :=
  fun _ hd => by
    obtain rfl := Option.some.inj hd
    exact .inr h

theorem Stops.blanks (h : Stops rest) (hw : Blanks w) : Stops (w ++ rest) := by
  cases w with
  | nil => exact h
  | cons c w =>
    intro d hd
    obtain rfl := Option.some.inj hd
    exact .inl (hw c List.mem_cons_self)

end Steps

section Texts

variable {keep : Bool} {c : Char} {symbol q t rest : Text} {n : Nat}

theorem hexQuad_append (h : IsQuad q n) (rest : Text) : hexQuad (q ++ rest) = .ok (n, rest) := by
  obtain ⟨hlength, hdigits⟩ := h
  match q, hlength with
  | [a, b, c, d], _ => simp only [List.cons_append, List.nil_append, hexQuad, hdigits]

theorem escaped_short {letter : Char} (h : (letter, c) ∈ shortEscapes) (keep : Bool) (t : Text) :
    escaped keep (letter :: t) = .ok (c, t) := by
  simp only [shortEscapes, List.mem_cons, Prod.mk.injEq, List.not_mem_nil, or_false] at h
  rcases h with ⟨rfl, rfl⟩ | ⟨rfl, rfl⟩ | ⟨rfl, rfl⟩ | ⟨rfl, rfl⟩ | ⟨rfl, rfl⟩ | ⟨rfl, rfl⟩ |
    ⟨rfl, rfl⟩ | ⟨rfl, rfl⟩ <;> rfl

theorem escaped_code (hquad : IsQuad q n)
    (hwhole : keep = true → isHighSurrogate n = false ∧ isLowSurrogate n = false) (t : Text) :
    escaped keep ('u' :: (q ++ t)) = .ok (Char.ofNat n, t) := by
  cases keep with
  | false => simp [escaped, hexQuad_append hquad, bind, Except.bind]
  | true =>
    obtain ⟨hhigh, hlow⟩ := hwhole rfl
    simp [escaped, hexQuad_append hquad, bind, Except.bind, hhigh, hlow]

theorem escaped_pair {quad quad' : Text} {high low : Nat} (hquad : IsQuad quad high)
    (hquad' : IsQuad quad' low) (hhigh : isHighSurrogate high = true)
    (hlow : isLowSurrogate low = true) (t : Text) :
    escaped true ('u' :: (quad ++ '\\' :: 'u' :: (quad' ++ t))) =
      .ok (Char.ofNat (0x10000 + (high - 0xD800) * 0x400 + (low - 0xDC00)), t) := by
  have hnot : isLowSurrogate high = false := by
    simp only [isHighSurrogate, isLowSurrogate, Bool.and_eq_true, decide_eq_true_eq,
      Bool.and_eq_false_iff, decide_eq_false_iff_not] at hhigh ⊢
    omega
  simp [escaped, hexQuad_append hquad, hexQuad_append hquad', lowHalf, bind, Except.bind, hhigh,
    hlow, hnot]

theorem characters_escaped (h : escaped keep t = .ok (c, rest)) (fuel : Nat) :
    characters keep (fuel + 1) ('\\' :: t) =
      (characters keep fuel rest).map fun (t, rest) => (c :: t, rest) := by
  simp only [characters, h, bind, Except.bind]
  cases characters keep fuel rest <;> rfl

theorem characters_append (h : Symbol keep c symbol) (fuel : Nat) (rest : Text) :
    characters keep (fuel + 1) (symbol ++ rest) =
      (characters keep fuel rest).map fun (t, rest) => (c :: t, rest) := by
  cases h with
  | plain hcontrol hquote hslash =>
    have hprintable : ¬c.toNat < 0x20 := Nat.not_lt.mpr hcontrol
    simp only [List.cons_append, List.nil_append, characters, if_neg hprintable]
    cases characters keep fuel rest <;> rfl
  | short h => exact characters_escaped (escaped_short h keep rest) fuel
  | code hquad hwhole => exact characters_escaped (escaped_code hquad hwhole rest) fuel
  | pair hkeep hquad hquad' hhigh hlow =>
    subst hkeep
    rw [List.append_assoc]
    exact characters_escaped (escaped_pair hquad hquad' hhigh hlow rest) fuel

theorem symbol_length_pos (h : Symbol keep c symbol) : 0 < symbol.length := by
  cases h <;> exact Nat.succ_pos _

theorem characters_closed (h : Symbols keep t q) {fuel : Nat} (hfuel : q.length < fuel)
    (rest : Text) : characters keep fuel (q ++ '"' :: rest) = .ok (t, rest) := by
  induction h generalizing fuel with
  | nil =>
    obtain ⟨fuel, rfl⟩ := Nat.exists_eq_succ_of_ne_zero (Nat.ne_of_gt hfuel)
    rfl
  | @cons c symbol t q hsymbol _ ih =>
    have hpos := symbol_length_pos hsymbol
    rw [List.length_append] at hfuel
    obtain ⟨fuel, rfl⟩ := Nat.exists_eq_succ_of_ne_zero (Nat.ne_of_gt (Nat.zero_lt_of_lt hfuel))
    rw [List.append_assoc, characters_append hsymbol, ih (by omega)]
    rfl

theorem run_quotedText (h : Symbols keep t q) (rest : Text) :
    (quotedText keep).run ('"' :: (q ++ '"' :: rest)) = .ok (t, rest) := by
  refine characters_closed h ?_ rest
  simp only [List.length_cons, List.length_append]
  omega

end Texts

section Numbers

variable {digits whole t rest : Text} {form : NumberForm} {c : Char}

-- What may follow a number.
def EndsNumber (rest : Text) : Prop :=
  ∀ c ∈ rest.head?, isDigit c = false ∧ c ≠ '.' ∧ c ≠ 'e' ∧ c ≠ 'E'

theorem Stops.endsNumber (h : Stops rest) : EndsNumber rest := by
  intro c hc
  have hcases := h c hc
  simp only [isJsonBlank, Bool.or_eq_true, beq_iff_eq] at hcases
  rcases hcases with ((((rfl | rfl) | rfl) | rfl) | rfl | rfl | rfl) <;> decide

theorem someDigits_append (early : JsonFault) (h : IsDigits digits)
    (hrest : ∀ c ∈ rest.head?, isDigit c = false) :
    someDigits early (digits ++ rest) = .ok (digits, rest) := by
  obtain ⟨hne, hdigits⟩ := h
  have htake : (digits ++ rest).takeWhile isDigit = digits := by
    rw [List.takeWhile_append_of_pos hdigits]
    cases rest with
    | nil => simp
    | cons c rest => simp [hrest c rfl]
  have hdrop : (digits ++ rest).dropWhile isDigit = rest := by
    rw [List.dropWhile_append_of_pos hdigits]
    cases rest with
    | nil => rfl
    | cons c rest => simp [hrest c rfl]
  rw [someDigits, htake, hdrop]
  cases digits with
  | nil => exact absurd rfl hne
  | cons c digits => rfl

theorem wholeDigits_append (early : JsonFault) (h : IsDigits whole)
    (hzero : whole.head? = some '0' → whole = ['0']) (hrest : ∀ c ∈ rest.head?, isDigit c = false) :
    wholeDigits early (whole ++ rest) = .ok (whole, rest) := by
  rw [wholeDigits, someDigits_append early h hrest]
  simp only [bind, Except.bind]
  split
  · cases hzero rfl
  · rfl

theorem exponentSign_append {sign : Text} (hsign : sign = [] ∨ sign = ['+'] ∨ sign = ['-'])
    (h : IsDigits digits) (rest : Text) :
    ∃ negative, exponentSign (sign ++ (digits ++ rest)) = (negative, digits ++ rest) := by
  obtain ⟨hne, hdigits⟩ := h
  rcases hsign with rfl | rfl | rfl
  · cases digits with
    | nil => exact absurd rfl hne
    | cons c digits =>
      have hdigit := hdigits c List.mem_cons_self
      rw [List.nil_append, List.cons_append]
      unfold exponentSign
      split
      · rename_i heq
        cases heq
        cases hdigit
      · rename_i heq
        cases heq
        cases hdigit
      · exact ⟨false, rfl⟩
  · exact ⟨false, rfl⟩
  · exact ⟨true, rfl⟩

theorem scanExponent_none (early : JsonFault) (hrest : EndsNumber rest) (form : NumberForm) :
    scanExponent early form rest = .ok (form, rest) := by
  cases rest with
  | nil => rfl
  | cons c rest =>
    obtain ⟨-, -, hlower, hupper⟩ := hrest c rfl
    rw [scanExponent, if_neg (not_or.mpr ⟨hlower, hupper⟩)]

theorem scanExponent_append (early : JsonFault) {exponent : Text} (h : IsExponent exponent)
    (hrest : EndsNumber rest) (form : NumberForm) :
    ∃ form', scanExponent early form (exponent ++ rest) = .ok (form', rest) := by
  rcases h with rfl | ⟨e, sign, digits, he, hsign, hdigits, rfl⟩
  · exact ⟨form, scanExponent_none early hrest form⟩
  · obtain ⟨negative, hnegative⟩ := exponentSign_append hsign hdigits rest
    have hscan := someDigits_append early hdigits fun c hc => (hrest c hc).1
    simp only [List.cons_append, List.append_assoc, scanExponent, if_pos he, hnegative, hscan, bind,
      Except.bind]
    exact ⟨_, rfl⟩

theorem exponent_ends {exponent : Text} (h : IsExponent exponent) (hrest : EndsNumber rest) :
    ∀ c ∈ (exponent ++ rest).head?, isDigit c = false ∧ c ≠ '.' := by
  intro c hc
  rcases h with rfl | ⟨e, sign, digits, he, -, -, rfl⟩
  · exact ⟨(hrest c hc).1, (hrest c hc).2.1⟩
  · obtain rfl := Option.some.inj hc
    rcases he with rfl | rfl <;> decide

theorem scanFraction_none (early : JsonFault) (hrest : ∀ c ∈ rest.head?, c ≠ '.') (form : NumberForm) :
    scanFraction early form rest = .ok (form, rest) := by
  unfold scanFraction
  split
  · exact absurd rfl (hrest '.' rfl)
  · rfl

theorem scanFraction_append (early : JsonFault) {fraction : Text} (h : IsFraction fraction)
    (hrest : ∀ c ∈ rest.head?, isDigit c = false ∧ c ≠ '.') (form : NumberForm) :
    ∃ form', scanFraction early form (fraction ++ rest) = .ok (form', rest) := by
  rcases h with rfl | ⟨digits, hdigits, rfl⟩
  · exact ⟨form, scanFraction_none early (fun c hc => (hrest c hc).2) form⟩
  · have hscan := someDigits_append early hdigits fun c hc => (hrest c hc).1
    simp only [List.cons_append, scanFraction, hscan, bind, Except.bind]
    exact ⟨_, rfl⟩

theorem scanNumber_signed (early : JsonFault) {sign : Text} (hsign : sign = [] ∨ sign = ['-'])
    (hwhole : IsDigits whole) (hzero : whole.head? = some '0' → whole = ['0'])
    (hrest : ∀ c ∈ rest.head?, isDigit c = false) :
    scanNumber early (sign ++ (whole ++ rest)) =
      (scanFraction early { negative := sign = ['-'], whole } rest >>= fun (form, t) =>
        scanExponent early form t) := by
  have hscan := wholeDigits_append early hwhole hzero hrest
  rcases hsign with rfl | rfl
  · obtain ⟨hne, hdigits⟩ := hwhole
    cases whole with
    | nil => exact absurd rfl hne
    | cons c whole =>
      have hdigit := hdigits c List.mem_cons_self
      rw [List.nil_append, scanNumber, hscan]
      · rfl
      · intro t heq
        cases heq
        cases hdigit
  · simp only [List.cons_append, List.nil_append, scanNumber, hscan]
    rfl

theorem scanNumber_append (early : JsonFault) {v : Text} (h : IsNumber v) (hrest : EndsNumber rest) :
    ∃ form, scanNumber early (v ++ rest) = .ok (form, rest) := by
  obtain @⟨sign, whole, fraction, exponent, hsign, hwhole, hzero, hfraction, hexponent⟩ := h
  have hends := exponent_ends hexponent hrest
  have hnext : ∀ c ∈ (fraction ++ (exponent ++ rest)).head?, isDigit c = false := by
    intro c hc
    rcases hfraction with rfl | ⟨digits, -, rfl⟩
    · exact (hends c hc).1
    · obtain rfl := Option.some.inj hc
      rfl
  simp only [List.append_assoc]
  rw [scanNumber_signed early hsign hwhole hzero hnext]
  obtain ⟨form, hform⟩ := scanFraction_append early hfraction hends
    { negative := sign = ['-'], whole }
  rw [hform]
  exact scanExponent_append early hexponent hrest form

theorem isDigit_of_mem_toDigits {n : Nat} (hc : c ∈ Nat.toDigits 10 n) : isDigit c = true := by
  have hdigit := Nat.isDigit_of_mem_toDigits (by decide) (by decide) hc
  rw [Char.isDigit, Bool.and_eq_true, decide_eq_true_eq, decide_eq_true_eq] at hdigit
  rw [isDigit, Bool.and_eq_true, decide_eq_true_eq, decide_eq_true_eq]
  exact hdigit

theorem isDigits_toDigits (n : Nat) : IsDigits (Nat.toDigits 10 n) :=
  ⟨Nat.toDigits_ne_nil, fun _ => isDigit_of_mem_toDigits⟩

theorem toDigits_head {n : Nat} (h : (Nat.toDigits 10 n).head? = some '0') :
    Nat.toDigits 10 n = ['0'] := by
  induction n using Nat.strongRecOn with
  | ind n ih =>
    rcases Nat.lt_or_ge n 10 with hlt | hge
    · rw [Nat.toDigits_of_lt_base hlt] at h ⊢
      rw [Option.some.inj h]
    · have hhead := List.head?_eq_some_head (Nat.toDigits_ne_nil (n := n / 10) (b := 10))
      rw [Nat.toDigits_of_base_le (by decide) hge, List.head?_append, hhead, Option.some_or] at h
      have hzero := ih (n / 10) (by omega) (hhead.trans h)
      have hvalue := Nat.ofDigitChars_ten_toDigits (n := n / 10)
      rw [hzero] at hvalue
      have : n / 10 = 0 := hvalue.symm
      omega

theorem natOf_toDigits (n : Nat) : NumberForm.natOf (Nat.toDigits 10 n) = n := by
  have hvalue := Nat.ofDigitChars_ten_toDigits (n := n)
  rw [Nat.ofDigitChars_eq_foldl] at hvalue
  simpa only [NumberForm.natOf, Nat.mul_comm] using hvalue

theorem scanNumber_written (early : JsonFault) (n : Int) (hrest : EndsNumber rest) :
    scanNumber early (JsonValue.writeNumber n ++ rest) =
      .ok ({ negative := n < 0, whole := Nat.toDigits 10 n.natAbs }, rest) := by
  have hscan : ∀ (sign : Text) (m : Nat), sign = [] ∨ sign = ['-'] →
      scanNumber early (sign ++ (Nat.toDigits 10 m ++ rest)) =
        .ok ({ negative := sign = ['-'], whole := Nat.toDigits 10 m }, rest) := by
    intro sign m hsign
    rw [scanNumber_signed early hsign (isDigits_toDigits m) toDigits_head fun c hc => (hrest c hc).1,
      scanFraction_none early fun c hc => (hrest c hc).2.1]
    exact scanExponent_none early hrest _
  cases n with
  | ofNat n => exact hscan [] n (.inl rfl)
  | negSucc n =>
    rw [decide_eq_true (Int.negSucc_lt_zero n)]
    exact hscan ['-'] (n + 1) (.inr rfl)

-- An integer that fits a machine word has its own value.
theorem integer?_written {n : Int} (hlow : -0x8000000000000000 ≤ n) (hhigh : n ≤ maxOffset) :
    NumberForm.integer? { negative := n < 0, whole := Nat.toDigits 10 n.natAbs } = some n := by
  rw [NumberForm.integer?, natOf_toDigits]
  cases n with
  | ofNat n =>
    have hbound : n ≤ maxOffset := Int.ofNat_le.mp hhigh
    exact if_pos hbound
  | negSucc n =>
    have hbounds : 0 < n + 1 ∧ n + 1 ≤ 0x8000000000000000 := by omega
    rw [decide_eq_true (Int.negSucc_lt_zero n)]
    exact if_pos hbounds

theorem run_number {n : Int} (hlow : -0x8000000000000000 ≤ n) (hhigh : n ≤ maxOffset)
    (hrest : EndsNumber rest) :
    number.run (JsonValue.writeNumber n ++ rest) = .ok (some n, rest) := by
  show number (JsonValue.writeNumber n ++ rest) = _
  rw [number, scanNumber_written .truncated n hrest]
  simp only [bind, Except.bind, integer?_written hlow hhigh]

end Numbers

section Skipping

variable {part : JsonPart} {t w rest : Text}

theorem isJsonBlank_of_isDigit {c : Char} (h : isDigit c = true) : isJsonBlank c = false := by
  rw [isJsonBlank, Bool.eq_false_iff]
  intro hblank
  simp only [Bool.or_eq_true, beq_iff_eq] at hblank
  rcases hblank with ((rfl | rfl) | rfl) | rfl <;> cases h

theorem number_head {v : Text} (h : IsNumber v) :
    ∃ c t, v = c :: t ∧ (c = '-' ∨ isDigit c = true) := by
  obtain @⟨sign, whole, -, -, hsign, ⟨hne, hdigits⟩, -, -, -⟩ := h
  rcases hsign with rfl | rfl
  · cases whole with
    | nil => exact absurd rfl hne
    | cons c whole => exact ⟨c, _, rfl, .inr (hdigits c List.mem_cons_self)⟩
  · exact ⟨'-', _, rfl, .inl rfl⟩

theorem isJsonBlank_of_number {c : Char} (h : c = '-' ∨ isDigit c = true) : isJsonBlank c = false := by
  rcases h with rfl | h
  · rfl
  · exact isJsonBlank_of_isDigit h

theorem number_ne {c d : Char} (h : c = '-' ∨ isDigit c = true) (hminus : d ≠ '-')
    (hdigit : isDigit d = false) : c ≠ d := by
  rintro rfl
  rcases h with rfl | h
  · exact hminus rfl
  · cases hdigit.symm.trans h

theorem isJson_head (h : IsJson part t) :
    ∃ c t', t = c :: t' ∧ isJsonBlank c = false ∧ c ≠ ']' ∧ c ≠ '}' := by
  induction h with
  | number h =>
    obtain ⟨c, t', rfl, hc⟩ := number_head h
    exact ⟨c, t', rfl, isJsonBlank_of_number hc, number_ne hc (by decide) rfl,
      number_ne hc (by decide) rfl⟩
  | null => exact ⟨'n', _, rfl, by decide⟩
  | true => exact ⟨'t', _, rfl, by decide⟩
  | false => exact ⟨'f', _, rfl, by decide⟩
  | text | lastMember | member => exact ⟨'"', _, rfl, by decide⟩
  | emptyArray | array => exact ⟨'[', _, rfl, by decide⟩
  | emptyObject | object => exact ⟨'{', _, rfl, by decide⟩
  | lastItem _ _ ih | item _ _ _ _ ih =>
    obtain ⟨c, t', rfl, hc⟩ := ih
    exact ⟨c, _, rfl, hc⟩

-- All of them are passed over with the blanks before them, items and members with the end behind them,
-- too. The fuel is what `skipValue` takes for a text of this length.
def Skips : JsonPart → Text → Prop
  | .value, v => ∀ fuel w rest, 2 * v.length ≤ fuel → Blanks w → Stops rest →
      (skipValueFor (fuel + 1)).run (w ++ (v ++ rest)) = .ok ((), rest)
  | .items, t => ∀ fuel w rest, 2 * t.length < fuel → Blanks w →
      (skipItemsFor (fuel + 1)).run (w ++ (t ++ ']' :: rest)) = .ok ((), rest)
  | .members, t => ∀ fuel w rest, 2 * t.length < fuel → Blanks w →
      (skipFieldsFor (fuel + 1)).run (w ++ (t ++ '}' :: rest)) = .ok ((), rest)

theorem skips_number (h : IsNumber t) : Skips .value t := by
  intro fuel w rest _ hw hrest
  obtain ⟨form, hscan⟩ := scanNumber_append .malformed h hrest.endsNumber
  obtain ⟨c, t, rfl, hc⟩ := number_head h
  have hne : ∀ d, d ≠ '-' → isDigit d = false → c ≠ d := fun d => number_ne hc
  refine (peek_bind hw (isJsonBlank_of_number hc) _ _).trans ?_
  rw [if_neg (hne 'n' (by decide) rfl), if_neg (hne 't' (by decide) rfl),
    if_neg (hne 'f' (by decide) rfl), if_neg (hne '"' (by decide) rfl), if_pos hc]
  show skipNumber (c :: t ++ rest) = _
  rw [skipNumber, hscan]
  rfl

theorem skips_text {q : Text} (h : Symbols false t q) : Skips .value ('"' :: q ++ ['"']) := by
  intro fuel w rest _ hw _
  simp only [List.cons_append, List.append_assoc, List.nil_append]
  refine (peek_bind hw (c := '"') rfl _ _).trans ?_
  rw [if_neg (by decide), if_neg (by decide), if_neg (by decide), if_pos rfl]
  exact run_bind (run_quotedText h rest) _

theorem skips_array (hw : Blanks w) (h : t = [] ∨ Skips .items t ∧ IsJson .items t) :
    Skips .value ('[' :: w ++ t ++ [']']) := by
  intro fuel u rest hfuel hu _
  simp only [List.length_cons, List.length_append] at hfuel
  simp only [List.cons_append, List.append_assoc, List.nil_append]
  refine (peek_bind hu (c := '[') rfl _ _).trans ?_
  rw [if_neg (by decide), if_neg (by decide), if_neg (by decide), if_neg (by decide),
    if_neg (by decide), if_pos rfl, run_bind (run_skipChar _ _)]
  rcases h with rfl | ⟨hskips, hitems⟩
  · refine (peek_bind hw (c := ']') rfl _ _).trans ?_
    rw [if_pos rfl]
    rfl
  · obtain ⟨c, t, rfl, hblank, hclose, -⟩ := isJson_head hitems
    refine (peek_bind hw hblank _ _).trans ?_
    obtain ⟨fuel, rfl⟩ := Nat.exists_eq_succ_of_ne_zero (n := fuel) (by omega)
    rw [if_neg hclose]
    exact hskips fuel [] rest (by omega) blanks_nil

theorem skips_object (hw : Blanks w) (h : t = [] ∨ Skips .members t ∧ IsJson .members t) :
    Skips .value ('{' :: w ++ t ++ ['}']) := by
  intro fuel u rest hfuel hu _
  simp only [List.length_cons, List.length_append] at hfuel
  simp only [List.cons_append, List.append_assoc, List.nil_append]
  refine (peek_bind hu (c := '{') rfl _ _).trans ?_
  rw [if_neg (by decide), if_neg (by decide), if_neg (by decide), if_neg (by decide),
    if_neg (by decide), if_neg (by decide), if_pos rfl, run_bind (run_skipChar _ _)]
  rcases h with rfl | ⟨hskips, hmembers⟩
  · refine (peek_bind hw (c := '}') rfl _ _).trans ?_
    rw [if_pos rfl]
    rfl
  · obtain ⟨c, t, rfl, hblank, -, hclose⟩ := isJson_head hmembers
    refine (peek_bind hw hblank _ _).trans ?_
    obtain ⟨fuel, rfl⟩ := Nat.exists_eq_succ_of_ne_zero (n := fuel) (by omega)
    rw [if_neg hclose]
    exact hskips fuel [] rest (by omega) blanks_nil

theorem skipFieldsFor_member {name q u w w' v : Text} {fuel : Nat} (hname : Symbols false name q)
    (hu : Blanks u) (hw : Blanks w) (hw' : Blanks w') (h : Skips .value v) (hfuel : 2 * v.length ≤ fuel)
    (hrest : Stops rest) :
    (skipFieldsFor (fuel + 2)).run (u ++ '"' :: (q ++ '"' :: (w ++ ':' :: (w' ++ (v ++ rest))))) =
      (peek >>= fun c =>
        if c = ',' then skipChar >>= fun _ => skipFieldsFor (fuel + 1)
        else if c = '}' then skipChar
        else throw .malformed).run rest := by
  have hskip : ∀ t, skipText.run ('"' :: (q ++ '"' :: t)) = .ok ((), t) := fun t =>
    run_bind (run_quotedText hname t) _
  rw [skipFieldsFor]
  refine (peek_bind hu (c := '"') rfl _ _).trans ?_
  rw [if_pos rfl, run_bind (hskip _), run_bind (run_expect hw (c := ':') rfl _),
    run_bind (h fuel w' rest hfuel hw' hrest)]

theorem skips (h : IsJson part t) : Skips part t := by
  induction h with
  | null =>
    intro fuel w rest _ hw _
    refine (peek_bind hw (c := 'n') rfl (['u', 'l', 'l'] ++ rest) _).trans ?_
    rw [if_pos rfl]
    exact run_literal "null".toList rest
  | true =>
    intro fuel w rest _ hw _
    refine (peek_bind hw (c := 't') rfl (['r', 'u', 'e'] ++ rest) _).trans ?_
    rw [if_neg (by decide), if_pos rfl]
    exact run_literal "true".toList rest
  | false =>
    intro fuel w rest _ hw _
    refine (peek_bind hw (c := 'f') rfl (['a', 'l', 's', 'e'] ++ rest) _).trans ?_
    rw [if_neg (by decide), if_neg (by decide), if_pos rfl]
    exact run_literal "false".toList rest
  | number h => exact skips_number h
  | text h => exact skips_text h
  | emptyArray hw => simpa using skips_array hw (.inl rfl)
  | array hw h ih => exact skips_array hw (.inr ⟨ih, h⟩)
  | emptyObject hw => simpa using skips_object hw (.inl rfl)
  | object hw h ih => exact skips_object hw (.inr ⟨ih, h⟩)
  | @lastItem v w h hw ih =>
    intro fuel u rest hfuel hu
    rw [List.length_append] at hfuel
    obtain ⟨fuel, rfl⟩ := Nat.exists_eq_succ_of_ne_zero (n := fuel) (by omega)
    have hvalue := ih fuel u (w ++ ']' :: rest) (by omega) hu
      ((stops_cons (.inr (.inl rfl)) rest).blanks hw)
    rw [skipItemsFor, List.append_assoc, run_bind hvalue]
    refine (peek_bind hw (c := ']') rfl _ _).trans ?_
    rw [if_neg (by decide), if_pos rfl]
    rfl
  | @item v w w' t h hw hw' hitems ih ihitems =>
    intro fuel u rest hfuel hu
    simp only [List.length_append, List.length_cons] at hfuel
    obtain ⟨fuel, rfl⟩ := Nat.exists_eq_succ_of_ne_zero (n := fuel) (by omega)
    have hvalue := ih fuel u (w ++ ',' :: (w' ++ (t ++ ']' :: rest))) (by omega) hu
      ((stops_cons (.inl rfl) _).blanks hw)
    simp only [List.append_assoc, List.cons_append]
    rw [skipItemsFor, run_bind hvalue]
    refine (peek_bind hw (c := ',') rfl _ _).trans ?_
    rw [if_pos rfl, run_bind (run_skipChar _ _)]
    exact ihitems fuel w' rest (by omega) hw'
  | @lastMember name q w w' v w'' hname hw hw' h hw'' ih =>
    intro fuel u rest hfuel hu
    simp only [List.length_append, List.length_cons] at hfuel
    obtain ⟨fuel, rfl⟩ := Nat.exists_eq_succ_of_ne_zero (n := fuel) (by omega)
    simp only [List.append_assoc, List.cons_append]
    rw [skipFieldsFor_member hname hu hw hw' ih (by omega)
      ((stops_cons (.inr (.inr rfl)) rest).blanks hw'')]
    refine (peek_bind hw'' (c := '}') rfl _ _).trans ?_
    rw [if_neg (by decide), if_pos rfl]
    rfl
  | @member name q w w' v w'' x t hname hw hw' h hw'' hx hmembers ih ihmembers =>
    intro fuel u rest hfuel hu
    simp only [List.length_append, List.length_cons] at hfuel
    obtain ⟨fuel, rfl⟩ := Nat.exists_eq_succ_of_ne_zero (n := fuel) (by omega)
    simp only [List.append_assoc, List.cons_append]
    rw [skipFieldsFor_member hname hu hw hw' ih (by omega) ((stops_cons (.inl rfl) _).blanks hw'')]
    refine (peek_bind hw'' (c := ',') rfl _ _).trans ?_
    rw [if_pos rfl, run_bind (run_skipChar _ _)]
    exact ihmembers fuel x rest (by omega) hx

-- Every JSON value is passed over, and nothing behind it.
theorem reads_skipValue : Reads skipValue any () := by
  intro w v rest hw hv hrest
  rw [skipValue, run_get]
  refine skips hv _ w rest ?_ hw hrest
  simp only [List.length_append]
  omega

end Skipping

end JsonReader

end ShellTranscript
