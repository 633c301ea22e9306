import ShellTranscript.Screen.Dispatch

-- The emulator reads bytes into a screen. Between the private mode 2026 being set and being reset
-- exactly by `CSI ? 2026 l`, bytes are held back; they take effect together.
namespace ShellTranscript

-- Held bytes are kept newest first, with their number.
structure Emulator where
  control : ControlState := .start
  screen : Screen
  held : Option (Nat × List UInt8) := none
deriving Repr

namespace Emulator

def new (columns lines limit : Nat) : Emulator := { screen := .new columns lines limit }

-- More bytes than this are not held.
def capacity : Nat := 0x1FFFFF

-- The bytes of `CSI ? 2026 l`, last byte first.
def releaseReversed : List UInt8 := [0x6C, 0x36, 0x32, 0x30, 0x32, 0x3F, 0x5B, 0x1B]

def startsHold : ControlItem → Bool
  | .sequence parameters intermediates final =>
    intermediates == [0x3F] && final == 0x68 && (Screen.firstNumbers parameters).contains 2026
  | _ => false

-- One byte that is not held back.
def read (e : Emulator) (b : UInt8) : Emulator × List ControlItem :=
  let (control, items) := e.control.step b
  ({ e with control, screen := items.foldl Screen.apply e.screen }, items)

-- Reads the held bytes; a hold that they ask for has ended with them.
def release (e : Emulator) (reversed : List UInt8) : Emulator :=
  reversed.reverse.foldl (fun e b => (e.read b).1) { e with held := none }

def step (e : Emulator) (b : UInt8) : Emulator :=
  match e.held with
  | none =>
    let (e, items) := e.read b
    if items.any startsHold then { e with held := some (0, []) } else e
  | some (count, reversed) =>
    let reversed := b :: reversed
    if releaseReversed.isPrefixOf reversed || count + 1 ≥ capacity then
      e.release reversed
    else
      { e with held := some (count + 1, reversed) }

def feed (e : Emulator) (bytes : List UInt8) : Emulator := bytes.foldl step e

theorem feed_append (e : Emulator) (front back : List UInt8) :
    e.feed (front ++ back) = (e.feed front).feed back := by
  simp [feed]

end Emulator

end ShellTranscript
