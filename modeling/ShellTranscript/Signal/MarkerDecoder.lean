import ShellTranscript.Signal.Marker
import ShellTranscript.Signal.Scan

-- Finding the markers in a byte stream. An operating system command starts with ESC and a closing
-- bracket and ends with BEL or with ESC and a backslash; bytes of its payload beyond a limit are not
-- kept. ESC with anything else gives the command up.
namespace ShellTranscript.Signal

-- Where the decoder stands. A payload is kept newest byte first.
inductive MarkerDecoder where
  | ground
  | escape
  | payload (held : List UInt8)
  | payloadEscape (held : List UInt8)
deriving DecidableEq, Repr

namespace MarkerDecoder

-- The greatest number of payload bytes that is kept.
def capacity : Nat := 4096

def hold (held : List UInt8) (b : UInt8) : List UInt8 :=
  if held.length < capacity then b :: held else held

-- The marker of a payload that has ended.
def complete (held : List UInt8) : List Marker := (Marker.ofBytes? held.reverse).toList

def step : MarkerDecoder → UInt8 → MarkerDecoder × List Marker
  | .ground, b => (if b = 0x1B then .escape else .ground, [])
  | .escape, b => (if b = 0x5D then .payload [] else if b = 0x1B then .escape else .ground, [])
  | .payload held, b =>
    if b = 0x07 then (.ground, complete held)
    else if b = 0x1B then (.payloadEscape held, [])
    else (.payload (hold held b), [])
  | .payloadEscape held, b =>
    if b = 0x5C then (.ground, complete held)
    else if b = 0x5D then (.payload [], [])
    else (.ground, [])

def feed (d : MarkerDecoder) (bytes : List UInt8) : MarkerDecoder × List (Located Marker) :=
  scan step d bytes

end MarkerDecoder

end ShellTranscript.Signal
