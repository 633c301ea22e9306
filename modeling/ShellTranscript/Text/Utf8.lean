import ShellTranscript.Text.Basic

-- UTF-8, one byte at a time. The decoder turns a byte stream into characters and malformed runs; a
-- malformed run is a longest start of a character that its next byte breaks off, or a single byte
-- that starts no character. Decoding a stream in pieces is decoding it whole.
namespace ShellTranscript.Text.Utf8

def encode (t : Text) : List UInt8 := t.flatMap String.utf8EncodeChar

inductive Decoded where
  | char (c : Char)
  | malformed (bytes : List UInt8)
deriving DecidableEq, Repr

-- Between two characters, or inside one: the bytes seen of it, the value they stand for, the range
-- its next byte must lie in, and the number of bytes that must follow that one.
inductive State where
  | start
  | inside (seen : List UInt8) (value low high owed : Nat)
deriving DecidableEq, Repr

-- The value bits, the range of the second byte and the number of bytes after the second, for a byte
-- that starts a character of several bytes.
def lead? (b : Nat) : Option (Nat × Nat × Nat × Nat) :=
  if 0xC2 ≤ b ∧ b ≤ 0xDF then some (b - 0xC0, 0x80, 0xBF, 0)
  else if b = 0xE0 then some (0, 0xA0, 0xBF, 1)
  else if b = 0xED then some (0xD, 0x80, 0x9F, 1)
  else if 0xE1 ≤ b ∧ b ≤ 0xEF then some (b - 0xE0, 0x80, 0xBF, 1)
  else if b = 0xF0 then some (0, 0x90, 0xBF, 2)
  else if 0xF1 ≤ b ∧ b ≤ 0xF3 then some (b - 0xF0, 0x80, 0xBF, 2)
  else if b = 0xF4 then some (4, 0x80, 0x8F, 2)
  else none

-- A byte read between two characters.
def first (b : UInt8) : State × List Decoded :=
  if b.toNat < 0x80 then
    (.start, [.char (Char.ofNat b.toNat)])
  else
    match lead? b.toNat with
    | some (value, low, high, owed) => (.inside [b] value low high owed, [])
    | none => (.start, [.malformed [b]])

-- A byte that cannot continue a character ends it as malformed and is read afresh.
def step : State → UInt8 → State × List Decoded
  | .start, b => first b
  | .inside seen value low high owed, b =>
    if low ≤ b.toNat ∧ b.toNat ≤ high then
      let value := value * 0x40 + (b.toNat - 0x80)
      match owed with
      | 0 => (.start, [.char (Char.ofNat value)])
      | owed + 1 => (.inside (seen ++ [b]) value 0x80 0xBF owed, [])
    else
      let (next, decoded) := first b
      (next, .malformed seen :: decoded)

-- What is left inside a character when the stream ends.
def finish : State → List Decoded
  | .start => []
  | .inside seen _ _ _ _ => [.malformed seen]

def run (s : State) : List UInt8 → State × List Decoded
  | [] => (s, [])
  | b :: bytes =>
    let (next, decoded) := step s b
    let (last, rest) := run next bytes
    (last, decoded ++ rest)

theorem run_append (s : State) (front back : List UInt8) :
    run s (front ++ back) =
      ((run (run s front).1 back).1, (run s front).2 ++ (run (run s front).1 back).2) := by
  induction front generalizing s with
  | nil => simp [run]
  | cons b front ih => simp [run, ih, List.append_assoc]

def replacement : Char := Char.ofNat 0xFFFD

def Decoded.toChar : Decoded → Char
  | .char c => c
  | .malformed _ => replacement

-- The text of a byte string, with one replacement character for every malformed run.
def decodeLossy (bytes : List UInt8) : Text :=
  let (last, decoded) := run .start bytes
  (decoded ++ finish last).map Decoded.toChar

def Decoded.char? : Decoded → Option Char
  | .char c => some c
  | .malformed _ => none

-- The text of a byte string that holds no malformed run.
def decode? (bytes : List UInt8) : Option Text :=
  let (last, decoded) := run .start bytes
  (decoded ++ finish last).mapM Decoded.char?

end ShellTranscript.Text.Utf8
