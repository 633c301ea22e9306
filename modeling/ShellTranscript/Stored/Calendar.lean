import ShellTranscript.Text.Basic

-- Dates of the Gregorian calendar and their numbers, counted in days from 1970-01-01. Years are
-- counted from March, so that the leap day is a year's last, and in cycles of four hundred years.
namespace ShellTranscript

structure Date where
  year : Int
  month : Nat
  day : Nat
deriving DecidableEq, Repr

namespace Date

def isLeapYear (year : Int) : Bool := year % 4 = 0 && (year % 100 ≠ 0 || year % 400 = 0)

def daysInMonth (year : Int) (month : Nat) : Nat :=
  if month = 2 then (if isLeapYear year then 29 else 28)
  else if month = 4 ∨ month = 6 ∨ month = 9 ∨ month = 11 then 30
  else 31

def isValid (d : Date) : Bool :=
  1 ≤ d.month && d.month ≤ 12 && 1 ≤ d.day && d.day ≤ daysInMonth d.year d.month

-- The days of a cycle of four hundred years.
def daysInCycle : Nat := 146097

-- The days from the first of March of the year zero to 1970-01-01.
def epochOffset : Int := 719468

def dayNumber (d : Date) : Int :=
  let year := if d.month ≤ 2 then d.year - 1 else d.year
  let yearOfCycle := (year % 400).toNat
  let monthFromMarch := (d.month + 9) % 12
  let dayOfYear := (153 * monthFromMarch + 2) / 5 + d.day - 1
  let dayOfCycle := yearOfCycle * 365 + yearOfCycle / 4 - yearOfCycle / 100 + dayOfYear
  year / 400 * daysInCycle + dayOfCycle - epochOffset

def ofDayNumber (n : Int) : Date :=
  let shifted := n + epochOffset
  let dayOfCycle := (shifted % daysInCycle).toNat
  let yearOfCycle :=
    (dayOfCycle - dayOfCycle / 1460 + dayOfCycle / 36524 - dayOfCycle / 146096) / 365
  let dayOfYear := dayOfCycle - (365 * yearOfCycle + yearOfCycle / 4 - yearOfCycle / 100)
  let monthFromMarch := (5 * dayOfYear + 2) / 153
  let day := dayOfYear - (153 * monthFromMarch + 2) / 5 + 1
  let month := if monthFromMarch < 10 then monthFromMarch + 3 else monthFromMarch - 9
  let year := shifted / daysInCycle * 400 + yearOfCycle
  { year := if month ≤ 2 then year + 1 else year, month, day }

end Date

end ShellTranscript
