import ShellTranscript.Signal.Scan

-- The private modes and erasures that matter to a transcript: switches between the main and the
-- alternate buffer, and the request to drop the scrollback. Only a real switch is told: setting the
-- alternate buffer twice is one event.
namespace ShellTranscript.Signal

inductive ModeChange where
  | alternateBuffer (enabled : Bool)
  | clearScrollback
deriving DecidableEq, Repr

-- Where the decoder stands in a control sequence: its marker, the number being read and the numbers
-- already read.
inductive ModePhase where
  | ground
  | escape
  | sequence (marker : Option UInt8) (current : Option Nat) (numbers : List Nat)
deriving DecidableEq, Repr

structure ModeDecoder where
  phase : ModePhase := .ground
  alternate : Bool := false
deriving DecidableEq, Repr

namespace ModeDecoder

-- A decimal digit appended to a number of sixteen bits, which stays at the largest.
def appendDigit (n : Nat) (b : UInt8) : Nat := min (min (n * 10) 0xFFFF + (b.toNat - 0x30)) 0xFFFF

def isMarker (b : UInt8) : Bool := b == 0x3F || b == 0x3E || b == 0x3C || b == 0x3D

def isAlternateMode (n : Nat) : Bool := n == 47 || n == 1047 || n == 1049

-- What a complete control sequence does.
def dispatch (alternate : Bool) (marker : Option UInt8) (numbers : List Nat) (final : UInt8) :
    Bool × List ModeChange :=
  if marker = some 0x3F ∧ (final = 0x68 ∨ final = 0x6C) then
    let enabled := final == 0x68
    if numbers.any isAlternateMode && alternate != enabled then
      (enabled, [.alternateBuffer enabled])
    else
      (alternate, [])
  else if marker = none ∧ final = 0x4A ∧ numbers = [3] then
    (alternate, [.clearScrollback])
  else
    (alternate, [])

def step (t : ModeDecoder) (b : UInt8) : ModeDecoder × List ModeChange :=
  match t.phase with
  | .ground => (if b = 0x1B then { t with phase := .escape } else t, [])
  | .escape =>
    if b = 0x5B then ({ t with phase := .sequence none none [] }, [])
    else if b = 0x1B then (t, [])
    else ({ t with phase := .ground }, [])
  | .sequence marker current numbers =>
    if numbers.isEmpty && current.isNone && marker.isNone && isMarker b then
      ({ t with phase := .sequence (some b) none [] }, [])
    else if 0x30 ≤ b ∧ b ≤ 0x39 then
      ({ t with phase := .sequence marker (some (appendDigit (current.getD 0) b)) numbers }, [])
    else if b = 0x3B ∨ b = 0x3A then
      ({ t with phase := .sequence marker none (numbers ++ [current.getD 0]) }, [])
    else if 0x20 ≤ b ∧ b ≤ 0x2F then
      (t, [])
    else
      let (alternate, events) := dispatch t.alternate marker (numbers ++ current.toList) b
      ({ phase := .ground, alternate }, events)

def feed (t : ModeDecoder) (bytes : List UInt8) : ModeDecoder × List (Located ModeChange) :=
  scan step t bytes

end ModeDecoder

end ShellTranscript.Signal
