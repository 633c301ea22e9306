import ShellTranscript.Stored.Calendar
import ShellTranscript.Text.Blank
import ShellTranscript.Text.Numeral

-- Points in time with nanoseconds, and how they are written: RFC 3339 in UTC. When one is read,
-- blanks may stand before the numbers and around the separators, and the offset may be given in other
-- forms.
namespace ShellTranscript

-- The day is counted from 1970-01-01. Nanoseconds beyond a second belong to a leap second.
structure Instant where
  day : Int
  second : Nat
  nano : Nat := 0
deriving DecidableEq, Repr

namespace Instant

def nanosPerSecond : Nat := 1000000000

def secondsPerDay : Nat := 86400

-- The nanoseconds from one instant to another. A leap second that lies between them is counted.
def nanosUntil (start stop : Instant) : Int :=
  let seconds : Int := (stop.second : Int) - start.second
  let leap : Int :=
    if start.second < stop.second ∧ nanosPerSecond ≤ start.nano then 1
    else if stop.second < start.second ∧ nanosPerSecond ≤ stop.nano then -1
    else 0
  ((stop.day - start.day) * secondsPerDay + seconds + leap) * nanosPerSecond +
    ((stop.nano : Int) - start.nano)

-- Whole milliseconds, toward zero.
def millisUntil (start stop : Instant) : Int := (start.nanosUntil stop).tdiv 1000000

-- A number with at least so many digits.
def padded (width n : Nat) : Text :=
  let digits := Nat.toDigits 10 n
  List.replicate (width - digits.length) '0' ++ digits

-- Years beyond four digits and those before year zero have a sign.
def writeYear (year : Int) : Text :=
  if 0 ≤ year ∧ year ≤ 9999 then padded 4 year.toNat
  else (if year < 0 then '-' else '+') :: padded 4 year.natAbs

-- No digits for a whole second, else as many groups of three as are needed.
def writeFraction (nano : Nat) : Text :=
  if nano = 0 then []
  else if nano % 1000000 = 0 then '.' :: padded 3 (nano / 1000000)
  else if nano % 1000 = 0 then '.' :: padded 6 (nano / 1000)
  else '.' :: padded 9 nano

def write (t : Instant) : Text :=
  let date := Date.ofDayNumber t.day
  let (second, nano) :=
    if nanosPerSecond ≤ t.nano then (t.second % 60 + 1, t.nano - nanosPerSecond)
    else (t.second % 60, t.nano)
  writeYear date.year ++ ['-'] ++ padded 2 date.month ++ ['-'] ++ padded 2 date.day ++ ['T'] ++
    padded 2 (t.second / 3600) ++ [':'] ++ padded 2 (t.second / 60 % 60) ++ [':'] ++
    padded 2 second ++ writeFraction nano ++ ['Z']

abbrev Reader := StateT Text Option

def isDigit (c : Char) : Bool := (Text.Numeral.decimalDigit? c).isSome

def skipBlanks : Reader Unit := modify Text.trimStart

-- At least one digit, and at most so many.
def digits (limit : Nat) : Reader Text := do
  let found := ((← get).take limit).takeWhile isDigit
  if found.isEmpty then failure
  modify fun t => t.drop found.length
  pure found

def natOf (digits : Text) : Nat := (Text.Numeral.digits? Text.Numeral.decimalDigit? 10 digits).getD 0

-- A number of one or two digits in a range, after blanks.
def twoDigits (low high : Nat) : Reader Nat := do
  skipBlanks
  let n := natOf (← digits 2)
  if low ≤ n ∧ n ≤ high then pure n else failure

def literal (c : Char) : Reader Unit := do
  match ← get with
  | d :: t => if d = c then set t else failure
  | [] => failure

-- A separator with blanks before it.
def separator (c : Char) : Reader Unit := do
  skipBlanks
  literal c

-- A year without a sign has at most four digits.
def year : Reader Int := do
  skipBlanks
  match ← get with
  | '-' :: t =>
    set t
    pure (-(natOf (← digits t.length) : Int))
  | '+' :: t =>
    set t
    pure (natOf (← digits t.length))
  | _ => pure (natOf (← digits 4))

-- The digits after the point in nanoseconds; what is smaller than that is dropped.
def fraction : Reader Nat := do
  match ← get with
  | '.' :: t =>
    set t
    let found ← digits 9
    modify fun t => t.dropWhile isDigit
    pure (natOf found * Nat.pow 10 (9 - found.length))
  | _ => pure 0

-- The two digits that come next, the first of them below a bound.
def pair (bound : Nat) : Reader Nat := do
  match ← get with
  | a :: b :: t =>
    match Text.Numeral.decimalDigit? a, Text.Numeral.decimalDigit? b with
    | some a, some b =>
      set t
      if a < bound then pure (a * 10 + b) else failure
    | _, _ => failure
  | _ => failure

-- Hours and minutes with colons or blanks between them, as seconds.
def hoursAndMinutes : Reader Int := do
  let hours ← pair 10
  modify fun t => t.dropWhile fun c => c == ':' || Text.isBlank c
  let minutes ← pair 6
  pure ((hours * 3600 + minutes * 60 : Nat) : Int)

-- The offset from UTC in seconds. The minus sign may be the typographic one.
def offset : Reader Int := do
  match ← get with
  | 'Z' :: t => set t; pure 0
  | 'z' :: t => set t; pure 0
  | '+' :: t => set t; hoursAndMinutes
  | '-' :: t => set t; return -(← hoursAndMinutes)
  | '\u2212' :: t => set t; return -(← hoursAndMinutes)
  | u :: t :: c :: rest =>
    if [u.toUpper, t.toUpper, c.toUpper] = ['U', 'T', 'C'] then
      set rest
      pure 0
    else failure
  | _ => failure

def firstYear : Int := -262143

def lastYear : Int := 262142

-- The first and the last day that there are.
def dayInRange (day : Int) : Bool :=
  Date.dayNumber ⟨firstYear, 1, 1⟩ ≤ day && day ≤ Date.dayNumber ⟨lastYear, 12, 31⟩

def date : Reader Date := do
  let year ← year
  separator '-'
  let month ← twoDigits 1 12
  separator '-'
  let day ← twoDigits 1 31
  let d : Date := ⟨year, month, day⟩
  if d.isValid ∧ dayInRange d.dayNumber then pure d else failure

-- Seconds of the day and nanoseconds; a second sixty is a leap second.
def time : Reader (Nat × Nat) := do
  let hour ← twoDigits 0 23
  separator ':'
  let minute ← twoDigits 0 59
  separator ':'
  let second ← twoDigits 0 60
  let nano ← fraction
  let start := hour * 3600 + minute * 60
  if second = 60 then pure (start + 59, nano + nanosPerSecond) else pure (start + second, nano)

def dateTimeSeparator : Reader Unit := do
  match ← get with
  | c :: t => if c = 'T' ∨ c = 't' ∨ c = ' ' then set t else failure
  | [] => failure

-- The instant that a date and a time of day at an offset are.
def ofLocal? (d : Date) (second nano : Nat) (offset : Int) : Option Instant :=
  let shifted := (second : Int) - offset
  let day := d.dayNumber + shifted / secondsPerDay
  if offset.natAbs < secondsPerDay ∧ dayInRange day then
    some ⟨day, (shifted % secondsPerDay).toNat, nano⟩
  else none

def instant : Reader Instant := do
  let d ← date
  dateTimeSeparator
  let (second, nano) ← time
  skipBlanks
  let offset ← offset
  skipBlanks
  match ofLocal? d second nano offset with
  | some t => pure t
  | none => failure

def parse? (t : Text) : Option Instant := do
  let (result, rest) ← instant.run t
  if rest.isEmpty then some result else none

end Instant

end ShellTranscript
