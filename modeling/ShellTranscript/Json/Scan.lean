import ShellTranscript.Text.Numeral

-- Reading JSON from left to right. A reader takes what it needs from the start of a text and leaves
-- the rest; what it stumbles over is one of three faults, and the first one met is the one reported.
namespace ShellTranscript

-- Not JSON; JSON that is not what was asked for; or a text that stops too early.
inductive JsonFault where
  | malformed
  | unexpected
  | truncated
deriving DecidableEq, Repr

abbrev JsonReader := StateT Text (Except JsonFault)

namespace JsonReader

variable {α : Type}

-- Blanks may stand around every token.
def isJsonBlank (c : Char) : Bool := c == ' ' || c == '\n' || c == '\t' || c == '\r'

def skipBlanks : JsonReader Unit := modify fun t => t.dropWhile isJsonBlank

def skipChar : JsonReader Unit := modify List.tail

-- The character that stands first after blanks, which is not yet taken.
def peek : JsonReader Char := do
  skipBlanks
  match ← get with
  | [] => throw .truncated
  | c :: _ => pure c

-- Takes a given text.
def literal : Text → JsonReader Unit
  | [] => pure ()
  | c :: rest => do
    match ← get with
    | [] => throw .truncated
    | d :: t =>
      if c = d then
        set t
        literal rest
      else
        throw .malformed

-- Takes a given character after blanks.
def expect (c : Char) : JsonReader Unit := do
  if (← peek) = c then skipChar else throw .malformed

-- Four hexadecimal digits.
def hexQuad (t : Text) : Except JsonFault (Nat × Text) :=
  match t with
  | a :: b :: c :: d :: rest =>
    match Text.Numeral.digits? Text.Numeral.hexDigit? 16 [a, b, c, d] with
    | some n => .ok (n, rest)
    | none => .error .malformed
  | t => if Text.byteLength t < 4 then .error .truncated else .error .malformed

def isHighSurrogate (n : Nat) : Bool := 0xD800 ≤ n && n ≤ 0xDBFF

def isLowSurrogate (n : Nat) : Bool := 0xDC00 ≤ n && n ≤ 0xDFFF

-- The second half of a pair of surrogates, which must follow the first at once.
def lowHalf (high : Nat) (t : Text) : Except JsonFault (Char × Text) :=
  match t with
  | [] => .error .truncated
  | '\\' :: [] => .error .truncated
  | '\\' :: 'u' :: t => do
    let (low, rest) ← hexQuad t
    if isLowSurrogate low then
      .ok (Char.ofNat (0x10000 + (high - 0xD800) * 0x400 + (low - 0xDC00)), rest)
    else
      .error .malformed
  | _ => .error .malformed

-- What follows a backslash. In a text that nobody keeps, half a pair of surrogates is let pass.
def escaped (keep : Bool) (t : Text) : Except JsonFault (Char × Text) :=
  match t with
  | [] => .error .truncated
  | '"' :: t => .ok ('"', t)
  | '\\' :: t => .ok ('\\', t)
  | '/' :: t => .ok ('/', t)
  | 'b' :: t => .ok ('\x08', t)
  | 'f' :: t => .ok ('\x0c', t)
  | 'n' :: t => .ok ('\n', t)
  | 'r' :: t => .ok ('\r', t)
  | 't' :: t => .ok ('\t', t)
  | 'u' :: t => do
    let (n, t) ← hexQuad t
    if keep && isLowSurrogate n then .error .malformed
    else if keep && isHighSurrogate n then lowHalf n t
    else .ok (Char.ofNat n, t)
  | _ => .error .malformed

-- The characters up to the closing quote. The fuel bounds their number.
def characters (keep : Bool) : Nat → Text → Except JsonFault (Text × Text)
  | 0, _ => .error .truncated
  | _ + 1, [] => .error .truncated
  | _ + 1, '"' :: t => .ok ([], t)
  | fuel + 1, '\\' :: t => do
    let (c, t) ← escaped keep t
    let (rest, t) ← characters keep fuel t
    .ok (c :: rest, t)
  | fuel + 1, c :: t =>
    if c.toNat < 0x20 then .error .malformed
    else do
      let (rest, t) ← characters keep fuel t
      .ok (c :: rest, t)

-- A text whose opening quote comes next.
def quotedText (keep : Bool) : JsonReader Text := fun t =>
  characters keep t.length t.tail

-- A number as it is written: the digits before and after the point, and the exponent with its sign.
structure NumberForm where
  negative : Bool
  whole : Text
  fraction : Text := []
  exponent : Option (Bool × Text) := none
  isWhole : Bool := true
deriving DecidableEq, Repr

def isDigit (c : Char) : Bool := '0' ≤ c && c ≤ '9'

-- At least one digit. A text that stops where a digit must stand has the fault `early`.
def someDigits (early : JsonFault) (t : Text) : Except JsonFault (Text × Text) :=
  match t.takeWhile isDigit, t.dropWhile isDigit with
  | [], [] => .error early
  | [], _ :: _ => .error .malformed
  | digits, rest => .ok (digits, rest)

-- The digits before the point, with no needless zero in front.
def wholeDigits (early : JsonFault) (t : Text) : Except JsonFault (Text × Text) := do
  let (digits, rest) ← someDigits early t
  match digits with
  | '0' :: _ :: _ => .error .malformed
  | digits => .ok (digits, rest)

def exponentSign : Text → Bool × Text
  | '-' :: t => (true, t)
  | '+' :: t => (false, t)
  | t => (false, t)

def scanFraction (early : JsonFault) (form : NumberForm) :
    Text → Except JsonFault (NumberForm × Text)
  | '.' :: t => do
    let (fraction, t) ← someDigits early t
    .ok ({ form with fraction, isWhole := false }, t)
  | t => .ok (form, t)

def scanExponent (early : JsonFault) (form : NumberForm) (t : Text) :
    Except JsonFault (NumberForm × Text) :=
  match t with
  | c :: t =>
    if c = 'e' ∨ c = 'E' then do
      let (negative, t) := exponentSign t
      let (digits, t) ← someDigits early t
      .ok ({ form with exponent := some (negative, digits), isWhole := false }, t)
    else .ok (form, c :: t)
  | [] => .ok (form, [])

-- A number that comes next.
def scanNumber (early : JsonFault) (t : Text) : Except JsonFault (NumberForm × Text) := do
  let (negative, t) := match t with
    | '-' :: t => (true, t)
    | t => (false, t)
  let (whole, t) ← wholeDigits early t
  let (form, t) ← scanFraction early { negative, whole } t
  scanExponent early form t

namespace NumberForm

def natOf (digits : Text) : Nat := digits.foldl (fun n c => n * 10 + (c.toNat - '0'.toNat)) 0

-- The value of an integer that fits a machine word; a negative zero is none.
def integer? (form : NumberForm) : Option Int :=
  let n := natOf form.whole
  if !form.isWhole then none
  else if form.negative then (if 0 < n ∧ n ≤ 0x8000000000000000 then some (-(n : Int)) else none)
  else if n ≤ maxOffset then some n else none

-- A natural number rounded to the precision of a float, ties to even.
def roundToFloat (n : Nat) : Nat :=
  let unit := Nat.pow 2 (Nat.log2 n + 1 - 53)
  let quotient := n / unit
  let twice := 2 * (n % unit)
  if twice > unit ∨ (twice = unit ∧ quotient % 2 = 1) then (quotient + 1) * unit else quotient * unit

-- The digits that fit a machine word, and the number of those that do not.
def leadingDigits (digits : Text) : Nat × Nat :=
  digits.foldl
    (fun (n, dropped) c =>
      let next := n * 10 + (c.toNat - '0'.toNat)
      if dropped = 0 ∧ next ≤ maxOffset then (next, 0) else (n, dropped + 1))
    (0, 0)

-- The exponent of the power of ten that multiplies the digits before and after the point.
def scale (form : NumberForm) : Int :=
  match form.exponent with
  | none => -(form.fraction.length : Int)
  | some (negative, digits) =>
    (if negative then -(natOf digits : Int) else natOf digits) - form.fraction.length

-- Whether the number is beyond all floats. Powers of ten beyond the largest are not even tried.
def isInfinite (form : NumberForm) : Bool :=
  let (n, dropped) := leadingDigits (form.whole ++ form.fraction)
  let power := form.scale + dropped
  n ≠ 0 && 0 ≤ power &&
    (308 < power ||
      Nat.pow 2 1024 ≤ roundToFloat (roundToFloat n * roundToFloat (Nat.pow 10 power.toNat)))

end NumberForm

-- A number that comes next: its value if it is an integer that fits a machine word.
def number : JsonReader (Option Int) := fun t => do
  let (form, t) ← scanNumber .truncated t
  match form.integer? with
  | some n => .ok (some n, t)
  | none => if form.isInfinite then .error .malformed else .ok (none, t)

end JsonReader

end ShellTranscript
