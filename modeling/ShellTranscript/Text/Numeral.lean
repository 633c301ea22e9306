import ShellTranscript.Text.Basic

-- Numbers written in a text: digits with an optional sign, and nothing around them.
namespace ShellTranscript.Text.Numeral

def decimalDigit? (c : Char) : Option Nat :=
  if '0' ≤ c ∧ c ≤ '9' then some (c.toNat - '0'.toNat) else none

def hexDigit? (c : Char) : Option Nat :=
  if '0' ≤ c ∧ c ≤ '9' then some (c.toNat - '0'.toNat)
  else if 'a' ≤ c ∧ c ≤ 'f' then some (c.toNat - 'a'.toNat + 10)
  else if 'A' ≤ c ∧ c ≤ 'F' then some (c.toNat - 'A'.toNat + 10)
  else none

-- The value of a run of digits that continues a number already read.
def continueDigits (digit? : Char → Option Nat) (base : Nat) : Nat → Text → Option Nat
  | value, [] => some value
  | value, c :: t =>
    match digit? c with
    | some d => continueDigits digit? base (value * base + d) t
    | none => none

-- A run of at least one digit.
def digits? (digit? : Char → Option Nat) (base : Nat) : Text → Option Nat
  | [] => none
  | c :: t => continueDigits digit? base 0 (c :: t)

-- An integer with an optional sign that lies in the given range.
def integer? (low high : Int) (t : Text) : Option Int := do
  let value ← match t with
    | '-' :: rest => (digits? decimalDigit? 10 rest).map fun n => -(n : Int)
    | '+' :: rest => (digits? decimalDigit? 10 rest).map fun n => (n : Int)
    | rest => (digits? decimalDigit? 10 rest).map fun n => (n : Int)
  if low ≤ value ∧ value ≤ high then some value else none

-- The integers of thirty-two bits, which exit codes are.
def exitCode? (t : Text) : Option Int := integer? (-0x80000000) 0x7FFFFFFF t

-- A byte in hexadecimal; a plus sign may stand before it.
def hexByte? (t : Text) : Option UInt8 := do
  let value ← match t with
    | '+' :: rest => digits? hexDigit? 16 rest
    | rest => digits? hexDigit? 16 rest
  if value < 256 then some (UInt8.ofNat value) else none

end ShellTranscript.Text.Numeral
