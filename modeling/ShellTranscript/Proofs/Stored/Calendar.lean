import Mathlib.Tactic.Common
import ShellTranscript.Stored.Calendar

-- Every day has a date, and the date tells the day. Within a cycle the year of a day grows with the
-- day, so it is known from the first and the last day of each year.
namespace ShellTranscript.Date

-- The days of a cycle that come before one of its years.
def daysBefore (year : Nat) : Nat := 365 * year + year / 4 - year / 100

def yearOf (day : Nat) : Nat := (day - day / 1460 + day / 36524 - day / 146096) / 365

-- A year ends with the February of the next.
def yearLength (year : Nat) : Nat := if isLeapYear (year + 1) then 366 else 365

theorem yearOf_mono {m n : Nat} (h : m ≤ n) (hn : n < daysInCycle) : yearOf m ≤ yearOf n := by
  unfold yearOf daysInCycle at *
  apply Nat.div_le_div_right
  omega

theorem yearOf_first : ∀ year < 400, yearOf (daysBefore year) = year := by
  decide +kernel

theorem yearOf_last : ∀ year < 400, yearOf (daysBefore year + yearLength year - 1) = year := by
  decide +kernel

theorem daysBefore_succ : ∀ year < 399, daysBefore (year + 1) = daysBefore year + yearLength year := by
  decide +kernel

theorem daysBefore_lt : ∀ year < 400, daysBefore year < daysInCycle := by
  decide +kernel

theorem yearOf_bounds {day : Nat} (h : day < daysInCycle) :
    yearOf day < 400 ∧ daysBefore (yearOf day) ≤ day ∧
      day < daysBefore (yearOf day) + yearLength (yearOf day) := by
  have hyear : yearOf day < 400 :=
    Nat.lt_succ_of_le (yearOf_mono (Nat.le_sub_one_of_lt h) (by decide))
  refine ⟨hyear, Nat.le_of_not_lt fun hbefore => ?_, Nat.lt_of_not_le fun hafter => ?_⟩
  -- Then the day is not behind the last one of the year before.
  · generalize hy : yearOf day = year at hyear hbefore
    cases year with
    | zero => exact Nat.not_lt_zero _ hbefore
    | succ year =>
      have hcycle := daysBefore_lt (year + 1) hyear
      rw [daysBefore_succ year (by omega)] at hbefore hcycle
      have hle := yearOf_mono (Nat.le_sub_one_of_lt hbefore) (by omega)
      rw [yearOf_last year (by omega)] at hle
      omega
  -- Then the day is not before the first one of the year after.
  · by_cases hlast : yearOf day < 399
    · rw [← daysBefore_succ _ hlast] at hafter
      have hle := yearOf_mono hafter h
      rw [yearOf_first _ (by omega)] at hle
      omega
    · obtain hlast : yearOf day = 399 := by omega
      rw [hlast] at hafter
      exact absurd h (Nat.not_lt.mpr hafter)

def monthOfDay (day : Nat) : Nat := (5 * day + 2) / 153

def dayOfMonth (day : Nat) : Nat := day - (153 * monthOfDay day + 2) / 5 + 1

def monthFromMarch (month : Nat) : Nat := if month < 10 then month + 3 else month - 9

-- The date of a day of a year from March.
def ofMarch (year : Int) (day : Nat) : Date :=
  let month := monthFromMarch (monthOfDay day)
  { year := if month ≤ 2 then year + 1 else year, month, day := dayOfMonth day }

theorem monthOfDay_bounds : ∀ day < 366, monthOfDay day < 12 ∧
    (153 * monthOfDay day + 2) / 5 ≤ day ∧
    dayOfMonth day ≤ daysInMonth 0 (monthFromMarch (monthOfDay day)) ∧
    (day < 365 → dayOfMonth day ≤ daysInMonth 1 (monthFromMarch (monthOfDay day))) := by
  decide +kernel

theorem monthFromMarch_bounds : ∀ month < 12, 1 ≤ monthFromMarch month ∧ monthFromMarch month ≤ 12 ∧
    (monthFromMarch month + 9) % 12 = month := by
  decide

theorem daysInMonth_of_leap {year : Int} {month : Nat} (h : month = 2 → isLeapYear year = true) :
    daysInMonth year month = daysInMonth 0 month := by
  unfold daysInMonth
  split
  · rw [h ‹_›]
    rfl
  · rfl

theorem daysInMonth_ge (year : Int) (month : Nat) : daysInMonth 1 month ≤ daysInMonth year month := by
  unfold daysInMonth
  split
  · cases isLeapYear year <;> decide
  · exact Nat.le_refl _

theorem isLeapYear_cycle (cycle year : Int) :
    isLeapYear (cycle * 400 + year) = isLeapYear year := by
  have h : ∀ k, k ∣ 400 → (cycle * 400 + year) % k = year % k := by
    rintro k ⟨m, hm⟩
    rw [hm, Int.mul_left_comm, Int.add_comm, Int.add_mul_emod_self_left]
  rw [isLeapYear, isLeapYear, h 4 (by decide), h 100 (by decide), h 400 (by decide)]

theorem ofMarch_isValid {year : Int} {day : Nat} (h : day < 366)
    (hleap : 365 ≤ day → isLeapYear (year + 1) = true) : (ofMarch year day).isValid = true := by
  obtain ⟨hmonth, -, hdays, hdays'⟩ := monthOfDay_bounds day h
  have hle : dayOfMonth day ≤ daysInMonth (ofMarch year day).year (ofMarch year day).month := by
    rcases Nat.lt_or_ge day 365 with hlt | hge
    · exact Nat.le_trans (hdays' hlt) (daysInMonth_ge _ _)
    · refine Nat.le_trans hdays (Nat.le_of_eq (daysInMonth_of_leap fun hfebruary => ?_).symm)
      have hle : monthFromMarch (monthOfDay day) ≤ 2 := Nat.le_of_eq hfebruary
      rw [ofMarch]
      simp only [if_pos hle]
      exact hleap hge
  obtain ⟨hfirst, hlast, -⟩ := monthFromMarch_bounds _ hmonth
  simp only [isValid, Bool.and_eq_true, decide_eq_true_eq]
  exact ⟨⟨⟨hfirst, hlast⟩, Nat.le_add_left 1 _⟩, hle⟩

theorem dayNumber_ofMarch {cycle : Int} {year day : Nat} (h : day < 366) (hyear : year < 400) :
    (ofMarch (cycle * 400 + year) day).dayNumber =
      cycle * daysInCycle + (daysBefore year + day : Nat) - epochOffset := by
  obtain ⟨hmonth, hfirst, -, -⟩ := monthOfDay_bounds day h
  obtain ⟨-, -, hshift⟩ := monthFromMarch_bounds _ hmonth
  have hback : ∀ y, (if (ofMarch y day).month ≤ 2 then (ofMarch y day).year - 1
      else (ofMarch y day).year) = y := by
    intro y
    unfold ofMarch
    dsimp only
    split <;> omega
  have hcycle : (cycle * 400 + (year : Int)) / 400 = cycle := by omega
  have hrest : ((cycle * 400 + (year : Int)) % 400).toNat = year := by omega
  have hday : (153 * monthOfDay day + 2) / 5 + dayOfMonth day - 1 = day := by
    unfold dayOfMonth
    omega
  rw [dayNumber]
  simp only [hback, hcycle, hrest]
  rw [ofMarch, hshift, hday, daysBefore, Nat.mul_comm year]

theorem ofDayNumber_eq (n : Int) : ∃ cycle : Int, ∃ year day : Nat, year < 400 ∧
    day < yearLength year ∧ ofDayNumber n = ofMarch (cycle * 400 + year) day ∧
      cycle * daysInCycle + (daysBefore year + day : Nat) - epochOffset = n := by
  have hcycle : (0 : Int) < daysInCycle := by decide
  have hlow := Int.emod_nonneg (n + epochOffset) (Int.ne_of_gt hcycle)
  have hhigh := Int.emod_lt_of_pos (n + epochOffset) hcycle
  have hsum := Int.ediv_mul_add_emod (n + epochOffset) daysInCycle
  obtain ⟨dayOfCycle, hday⟩ := Int.eq_ofNat_of_zero_le hlow
  rw [hday] at hhigh hsum
  obtain ⟨hyear, hbefore, hafter⟩ := yearOf_bounds (Int.ofNat_lt.mp hhigh)
  refine ⟨(n + epochOffset) / daysInCycle, yearOf dayOfCycle,
    dayOfCycle - daysBefore (yearOf dayOfCycle), hyear, by omega, ?_, by omega⟩
  have hnat : ((n + epochOffset) % daysInCycle).toNat = dayOfCycle := by rw [hday, Int.toNat_natCast]
  rw [ofDayNumber, hnat]
  rfl

theorem yearLength_le (year : Nat) : yearLength year ≤ 366 := by
  unfold yearLength
  split <;> decide

theorem ofDayNumber_isValid (n : Int) : (ofDayNumber n).isValid = true := by
  obtain ⟨cycle, year, day, -, hday, heq, -⟩ := ofDayNumber_eq n
  rw [heq]
  refine ofMarch_isValid (Nat.lt_of_lt_of_le hday (yearLength_le year)) fun hlast => ?_
  rw [Int.add_assoc, isLeapYear_cycle]
  unfold yearLength at hday
  split at hday
  · assumption
  · omega

theorem dayNumber_ofDayNumber (n : Int) : (ofDayNumber n).dayNumber = n := by
  obtain ⟨cycle, year, day, hyear, hday, heq, hn⟩ := ofDayNumber_eq n
  rw [heq, dayNumber_ofMarch (Nat.lt_of_lt_of_le hday (yearLength_le year)) hyear, hn]

end ShellTranscript.Date
