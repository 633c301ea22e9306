import Mathlib.Tactic.Common
import ShellTranscript.Proofs.Stored.Calendar
import ShellTranscript.Proofs.Text.Printable
import ShellTranscript.Stored.Instant

-- An instant is read as it was written. Numbers of a fixed width end where the separator starts, the
-- fraction with the offset.
namespace ShellTranscript.Instant

open Text

variable {α β : Type} {width limit n : Nat} {t rest : Text} {c : Char}

theorem isDigit_eq_false (h : c.isDigit = false) : isDigit c = false := by
  rw [isDigit, Numeral.decimalDigit?, if_neg, Option.isSome_none]
  intro hrange
  rw [Char.isDigit, Bool.and_eq_false_iff, decide_eq_false_iff_not, decide_eq_false_iff_not] at h
  exact h.elim (absurd hrange.1) (absurd hrange.2)

theorem mem_padded (hc : c ∈ padded width n) : c.isDigit = true := by
  rcases List.mem_append.mp hc with hc | hc
  · rw [List.eq_of_mem_replicate hc]
    rfl
  · exact Nat.isDigit_of_mem_toDigits (by decide) (by decide) hc

theorem isDigit_of_mem_padded (hc : c ∈ padded width n) : isDigit c = true :=
  Option.isSome_of_eq_some (decimalDigit?_of_isDigit (mem_padded hc))

theorem padded_ne_nil : padded width n ≠ [] :=
  List.append_ne_nil_of_right_ne_nil _ Nat.toDigits_ne_nil

theorem length_padded (hwidth : 0 < width) (h : n < Nat.pow 10 width) :
    (padded width n).length = width := by
  have hle := (Nat.length_toDigits_le_iff (by decide) hwidth).mpr h
  rw [padded, List.length_append, List.length_replicate, Nat.sub_add_cancel hle]

theorem natOf_padded : natOf (padded width n) = n := by
  have hdigits : ∀ c ∈ padded width n, c.isDigit = true := fun c => mem_padded
  have hvalue := continueDigits_eq hdigits 0
  rw [padded, Nat.ofDigitChars_append, Nat.ofDigitChars_replicate_zero, Nat.mul_zero,
    Nat.ofDigitChars_ten_toDigits, ← padded] at hvalue
  rw [natOf]
  cases hn : padded width n with
  | nil => exact absurd hn padded_ne_nil
  | cons c t =>
    rw [hn] at hvalue
    rw [Numeral.digits?, hvalue]
    rfl

theorem run_bind {read : Reader α} {a : α} (h : read.run t = some (a, rest)) (next : α → Reader β) :
    (read >>= next).run t = (next a).run rest := by
  rw [StateT.run_bind, h]
  rfl

theorem run_get (next : Text → Reader β) (t : Text) : (get >>= next).run t = (next t).run t := rfl

theorem run_set (t t' : Text) : StateT.run (set t : Reader PUnit) t' = some (⟨⟩, t) := rfl

theorem run_skipBlanks (hc : isBlank c = false) (t : Text) :
    skipBlanks.run (c :: t) = some ((), c :: t) :=
  congrArg (fun t => some ((), t)) (List.dropWhile_cons_of_neg (by simp [hc]))

-- What follows a number.
def Ends (rest : Text) : Prop := ∀ c ∈ rest.head?, c.isDigit = false

theorem run_digits (hwidth : 0 < width) (hlimit : width ≤ limit) (h : n < Nat.pow 10 width)
    (hrest : Ends rest) : (digits limit).run (padded width n ++ rest) =
      some (padded width n, rest) := by
  have hlength := length_padded hwidth h
  have hfound : ((padded width n ++ rest).take limit).takeWhile isDigit = padded width n := by
    rw [List.take_append, List.take_of_length_le (by omega),
      List.takeWhile_append_of_pos fun c => isDigit_of_mem_padded]
    have hnone : (rest.take (limit - (padded width n).length)).takeWhile isDigit = [] := by
      cases rest with
      | nil => simp
      | cons c rest =>
        cases limit - (padded width n).length with
        | zero => rfl
        | succ k => exact List.takeWhile_cons_of_neg (by simp [isDigit_eq_false (hrest c rfl)])
    rw [hnone, List.append_nil]
  have hempty : (padded width n).isEmpty = false := List.isEmpty_eq_false_iff.mpr padded_ne_nil
  have hdrop : (padded width n ++ rest).drop (padded width n).length = rest := List.drop_left
  rw [digits, run_get]
  simp only [hfound, hempty]
  exact congrArg (fun t => some (padded width n, t)) hdrop

theorem ends_cons (h : c.isDigit = false) (t : Text) : Ends (c :: t) := fun d hd => by
  obtain rfl := Option.some.inj hd
  exact h

theorem padded_head (width n : Nat) : ∃ c t, padded width n = c :: t ∧ c.isDigit = true := by
  cases hn : padded width n with
  | nil => exact absurd hn padded_ne_nil
  | cons c t =>
    have hc : c ∈ padded width n := by
      rw [hn]
      exact List.mem_cons_self
    exact ⟨c, t, rfl, mem_padded hc⟩

theorem run_skipBlanks_padded (width n : Nat) (rest : Text) :
    skipBlanks.run (padded width n ++ rest) = some ((), padded width n ++ rest) := by
  obtain ⟨c, t, hcons, hc⟩ := padded_head width n
  have halphanum : c.isAlphanum = true := by rw [Char.isAlphanum, hc, Bool.or_true]
  rw [hcons]
  exact run_skipBlanks (graphic_of_isAlphanum halphanum).isBlank _

theorem run_twoDigits {low high : Nat} (hlow : low ≤ n) (hhigh : n ≤ high) (h : n < 100)
    (hrest : Ends rest) : (twoDigits low high).run (padded 2 n ++ rest) = some (n, rest) := by
  rw [twoDigits, run_bind (run_skipBlanks_padded 2 n rest),
    run_bind (run_digits (by decide) (by decide) h hrest), natOf_padded, if_pos ⟨hlow, hhigh⟩]
  rfl

theorem run_separator (hc : isBlank c = false) (t : Text) :
    (separator c).run (c :: t) = some ((), t) := by
  rw [separator, run_bind (run_skipBlanks hc t), literal, run_get]
  exact congrFun (if_pos rfl) _

theorem run_year (h : n < 10000) (hrest : Ends rest) :
    year.run (padded 4 n ++ rest) = some ((n : Int), rest) := by
  have hdigits : (digits 4).run (padded 4 n ++ rest) = some (padded 4 n, rest) :=
    run_digits (by decide) (by decide) h hrest
  obtain ⟨c, t, hcons, hc⟩ := padded_head 4 n
  rw [year, run_bind (run_skipBlanks_padded 4 n rest), run_get]
  split
  · rename_i heq
    rw [hcons] at heq
    cases heq
    cases hc
  · rename_i heq
    rw [hcons] at heq
    cases heq
    cases hc
  · rw [run_bind hdigits, natOf_padded]
    rfl

theorem run_fractionDigits (hwidth : 0 < width) (hlimit : width ≤ 9) (h : n < Nat.pow 10 width)
    (hrest : Ends rest) :
    fraction.run ('.' :: (padded width n ++ rest)) = some (n * Nat.pow 10 (9 - width), rest) := by
  have hdrop : rest.dropWhile isDigit = rest := by
    cases rest with
    | nil => rfl
    | cons c t => exact List.dropWhile_cons_of_neg (by simp [isDigit_eq_false (hrest c rfl)])
  rw [fraction, run_get]
  refine (run_bind (run_set _ _) _).trans ?_
  rw [run_bind (run_digits hwidth hlimit h hrest), length_padded hwidth h, natOf_padded]
  exact congrArg (fun t => some (n * Nat.pow 10 (9 - width), t)) hdrop

theorem run_fraction (h : n < nanosPerSecond) (t : Text) :
    fraction.run (writeFraction n ++ 'Z' :: t) = some (n, 'Z' :: t) := by
  have hends : Ends ('Z' :: t) := ends_cons rfl t
  unfold nanosPerSecond at h
  unfold writeFraction
  split_ifs with hzero hmillis hmicros
  · rw [hzero]
    rfl
  · have hvalue : n / 1000000 * Nat.pow 10 (9 - 3) = n :=
      Nat.div_mul_cancel (Nat.dvd_of_mod_eq_zero hmillis)
    have hlt : n / 1000000 < Nat.pow 10 3 := Nat.div_lt_of_lt_mul h
    rw [List.cons_append, run_fractionDigits (by decide) (by decide) hlt hends, hvalue]
  · have hvalue : n / 1000 * Nat.pow 10 (9 - 6) = n :=
      Nat.div_mul_cancel (Nat.dvd_of_mod_eq_zero hmicros)
    have hlt : n / 1000 < Nat.pow 10 6 := Nat.div_lt_of_lt_mul h
    rw [List.cons_append, run_fractionDigits (by decide) (by decide) hlt hends, hvalue]
  · have hvalue : n * Nat.pow 10 (9 - 9) = n := Nat.mul_one n
    have hlt : n < Nat.pow 10 9 := h
    rw [List.cons_append, run_fractionDigits (by decide) (by decide) hlt hends, hvalue]

theorem isValid_bounds {d : Date} (h : d.isValid = true) :
    (1 ≤ d.month ∧ d.month ≤ 12) ∧ 1 ≤ d.day ∧ d.day ≤ 31 := by
  simp only [Date.isValid, Bool.and_eq_true, decide_eq_true_eq] at h
  obtain ⟨⟨hmonth, hday⟩, hdays⟩ := h
  have hle : Date.daysInMonth d.year d.month ≤ 31 := by
    unfold Date.daysInMonth
    split_ifs <;> decide
  exact ⟨hmonth, hday, Nat.le_trans hdays hle⟩

theorem dayInRange_dayNumber {d : Date} (h : d.isValid = true) (hyear : 0 ≤ d.year ∧ d.year ≤ 9999) :
    dayInRange d.dayNumber = true := by
  obtain ⟨-, -, hday⟩ := isValid_bounds h
  have hfirst : Date.dayNumber ⟨firstYear, 1, 1⟩ ≤ -1000000 := by decide
  have hlast : 4000000 ≤ Date.dayNumber ⟨lastYear, 12, 31⟩ := by decide
  have hbounds : -1000000 ≤ d.dayNumber ∧ d.dayNumber ≤ 4000000 := by
    unfold Date.dayNumber Date.daysInCycle Date.epochOffset
    dsimp only
    split <;> omega
  rw [dayInRange, Bool.and_eq_true, decide_eq_true_eq, decide_eq_true_eq]
  omega

theorem run_date {d : Date} (hvalid : d.isValid = true) (hyear : 0 ≤ d.year ∧ d.year ≤ 9999)
    (hrest : Ends rest) : date.run (writeYear d.year ++ '-' :: (padded 2 d.month ++ '-' ::
      (padded 2 d.day ++ rest))) = some (d, rest) := by
  obtain ⟨⟨hmonth, hmonth'⟩, hday, hday'⟩ := isValid_bounds hvalid
  have hends : ∀ t, Ends ('-' :: t) := ends_cons rfl
  have hdash : isBlank '-' = false := by decide
  rw [writeYear, if_pos hyear, date, run_bind (run_year (by omega) (hends _)),
    run_bind (run_separator hdash _), run_bind (run_twoDigits hmonth hmonth' (by omega) (hends _)),
    run_bind (run_separator hdash _), run_bind (run_twoDigits hday hday' (by omega) hrest)]
  have hwhole : ((d.year.toNat : Nat) : Int) = d.year := Int.toNat_of_nonneg hyear.1
  simp only [hwhole]
  rw [if_pos ⟨hvalid, dayInRange_dayNumber hvalid hyear⟩]
  rfl

-- The seconds and nanoseconds that are written; those of a leap second are not carried over.
def clock (t : Instant) : Nat × Nat :=
  if nanosPerSecond ≤ t.nano then (t.second % 60 + 1, t.nano - nanosPerSecond)
  else (t.second % 60, t.nano)

-- A leap second comes at the end of a minute.
structure Fits (t : Instant) : Prop where
  year : 0 ≤ (Date.ofDayNumber t.day).year ∧ (Date.ofDayNumber t.day).year ≤ 9999
  second : t.second < secondsPerDay
  nano : t.nano < nanosPerSecond ∨ t.second % 60 = 59 ∧ t.nano < 2 * nanosPerSecond

theorem clock_eq {t : Instant} (h : t.Fits) :
    t.clock = (t.second % 60, t.nano) ∧ t.nano < nanosPerSecond ∨
    t.clock = (60, t.nano - nanosPerSecond) ∧ t.second % 60 = 59 ∧ nanosPerSecond ≤ t.nano ∧
      t.nano < 2 * nanosPerSecond := by
  unfold clock
  rcases h.nano with hnano | ⟨hsecond, hnano⟩
  · exact .inl ⟨if_neg (Nat.not_le_of_lt hnano), hnano⟩
  · split_ifs with hleap
    · exact .inr ⟨by rw [hsecond], hsecond, hleap, hnano⟩
    · exact .inl ⟨rfl, Nat.lt_of_not_le hleap⟩

theorem clock_bounds {t : Instant} (h : t.Fits) : t.clock.1 ≤ 60 ∧ t.clock.2 < nanosPerSecond := by
  rcases clock_eq h with ⟨heq, hnano⟩ | ⟨heq, -, hlow, hhigh⟩ <;> rw [heq]
  · exact ⟨by omega, hnano⟩
  · exact ⟨Nat.le_refl _, by omega⟩

theorem ends_fraction (n : Nat) (t : Text) : Ends (writeFraction n ++ 'Z' :: t) := by
  unfold writeFraction
  split_ifs <;> exact ends_cons rfl _

theorem run_time {i : Instant} (h : i.Fits) (t : Text) :
    time.run (padded 2 (i.second / 3600) ++ ':' :: (padded 2 (i.second / 60 % 60) ++ ':' ::
      (padded 2 i.clock.1 ++ (writeFraction i.clock.2 ++ 'Z' :: t)))) =
        some ((i.second, i.nano), 'Z' :: t) := by
  have hday := h.second
  unfold secondsPerDay at hday
  have hcolon : isBlank ':' = false := by decide
  have hends : ∀ t, Ends (':' :: t) := ends_cons rfl
  obtain ⟨hsecond, hnano⟩ := clock_bounds h
  rw [time, run_bind (run_twoDigits (Nat.zero_le _) (by omega) (by omega) (hends _)),
    run_bind (run_separator hcolon _),
    run_bind (run_twoDigits (Nat.zero_le _) (by omega) (by omega) (hends _)),
    run_bind (run_separator hcolon _),
    run_bind (run_twoDigits (Nat.zero_le _) hsecond (by omega) (ends_fraction _ _)),
    run_bind (run_fraction hnano t)]
  rcases clock_eq h with ⟨heq, -⟩ | ⟨heq, hlast, hleap, -⟩
  · have hstart : i.second / 3600 * 3600 + i.second / 60 % 60 * 60 + i.second % 60 = i.second := by
      omega
    have hcommon : i.second % 60 ≠ 60 := by omega
    simp only [heq, hstart, if_neg hcommon]
    rfl
  · have hstart : i.second / 3600 * 3600 + i.second / 60 % 60 * 60 + 59 = i.second := by omega
    simp only [heq, hstart, if_true, Nat.sub_add_cancel hleap]
    rfl

theorem ofLocal?_utc {d : Date} {second : Nat} (hday : dayInRange d.dayNumber = true)
    (hsecond : second < secondsPerDay) (nano : Nat) :
    ofLocal? d second nano 0 = some ⟨d.dayNumber, second, nano⟩ := by
  have hpos : (second : Int) / secondsPerDay = 0 := by
    unfold secondsPerDay at hsecond ⊢
    omega
  have hrest : ((second : Int) % secondsPerDay).toNat = second := by
    unfold secondsPerDay at hsecond ⊢
    omega
  simp only [ofLocal?, Int.sub_zero, hpos, hrest, Int.add_zero]
  exact if_pos ⟨by decide, hday⟩

-- An instant is read as it was written.
theorem parse?_write {t : Instant} (h : t.Fits) : parse? t.write = some t := by
  have hwrite : t.write = writeYear (Date.ofDayNumber t.day).year ++ '-' ::
      (padded 2 (Date.ofDayNumber t.day).month ++ '-' :: (padded 2 (Date.ofDayNumber t.day).day ++
      'T' :: (padded 2 (t.second / 3600) ++ ':' :: (padded 2 (t.second / 60 % 60) ++ ':' ::
      (padded 2 t.clock.1 ++ (writeFraction t.clock.2 ++ 'Z' :: [])))))) := by
    rw [write, clock]
    split_ifs <;> simp
  have hvalid := Date.ofDayNumber_isValid t.day
  have hnumber := Date.dayNumber_ofDayNumber t.day
  have hdate := run_date hvalid h.year (ends_cons (c := 'T') rfl (padded 2 (t.second / 3600) ++ ':' ::
    (padded 2 (t.second / 60 % 60) ++ ':' :: (padded 2 t.clock.1 ++
      (writeFraction t.clock.2 ++ 'Z' :: [])))))
  have hinrange : dayInRange (Date.ofDayNumber t.day).dayNumber = true :=
    dayInRange_dayNumber hvalid h.year
  have hseparator : ∀ t, dateTimeSeparator.run ('T' :: t) = some ((), t) := fun _ => rfl
  have hoffset : offset.run ['Z'] = some (0, []) := rfl
  have hzulu : isBlank 'Z' = false := by decide
  have hend : skipBlanks.run [] = some ((), []) := rfl
  have hrun : instant.run t.write = some (t, []) := by
    rw [hwrite, instant, run_bind hdate, run_bind (hseparator _), run_bind (run_time h []),
      run_bind (run_skipBlanks hzulu []), run_bind hoffset, run_bind hend,
      ofLocal?_utc hinrange h.second, hnumber]
    rfl
  rw [parse?, hrun]
  rfl

end ShellTranscript.Instant
