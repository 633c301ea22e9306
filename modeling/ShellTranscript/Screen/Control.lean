import ShellTranscript.Text.Utf8

-- The grammar of what a terminal reads: characters in UTF-8, control characters, escape sequences and
-- control sequences, one byte at a time. Strings for the operating system and the like are read and
-- dropped. An ESC breaks off whatever is unfinished.
namespace ShellTranscript

-- A control sequence's parameters are numbers, each with the numbers that colons attach to it.
inductive ControlItem where
  | print (c : Char)
  | execute (code : Nat)
  | escape (intermediates : List UInt8) (final : UInt8)
  | sequence (parameters : List (List Nat)) (intermediates : List UInt8) (final : UInt8)
deriving DecidableEq, Repr

-- A control sequence while it is read: the parameters that are complete, the numbers that are
-- complete of the next one, the number being read, and whether something did not fit.
structure PartialSequence where
  complete : List (List Nat) := []
  attached : List Nat := []
  number : Nat := 0
  intermediates : List UInt8 := []
  overflow : Bool := false
deriving DecidableEq, Repr

namespace PartialSequence

-- A sequence has room for this many numbers.
def capacity : Nat := 32

def count (p : PartialSequence) : Nat := p.complete.flatten.length + p.attached.length

def isFull (p : PartialSequence) : Bool := p.count == capacity

-- Numbers have sixteen bits and stay at the largest.
def digit (p : PartialSequence) (b : UInt8) : PartialSequence :=
  if p.isFull then { p with overflow := true }
  else { p with number := min (min (p.number * 10) 0xFFFF + (b.toNat - 0x30)) 0xFFFF }

def attach (p : PartialSequence) : PartialSequence :=
  if p.isFull then { p with overflow := true }
  else { p with attached := p.attached ++ [p.number], number := 0 }

def endParameter (p : PartialSequence) : PartialSequence :=
  if p.isFull then { p with overflow := true }
  else { p with complete := p.complete ++ [p.attached ++ [p.number]], attached := [], number := 0 }

def collect (p : PartialSequence) (b : UInt8) : PartialSequence :=
  if p.intermediates.length = 2 then { p with overflow := true }
  else { p with intermediates := p.intermediates ++ [b] }

-- The sequence that a final byte completes; one that did not fit does nothing.
def finish (p : PartialSequence) (final : UInt8) : List ControlItem :=
  let p := p.endParameter
  if p.overflow then [] else [.sequence p.complete p.intermediates final]

end PartialSequence

inductive ControlState where
  | ground (pending : Text.Utf8.State)
  | escape
  | escapeIntermediate (intermediates : List UInt8)
  | sequenceEntry
  | sequenceNumbers (p : PartialSequence)
  | sequenceIntermediate (p : PartialSequence)
  | sequenceIgnored
  | deviceEntry
  | deviceNumbers
  | deviceIntermediate
  | deviceString
  | systemString
  | string
deriving DecidableEq, Repr

namespace ControlState

def between (low high : UInt8) (b : UInt8) : Bool := low ≤ b && b ≤ high

-- Control characters that act even inside a sequence.
def isActing (b : UInt8) : Bool := b ≤ 0x17 || b == 0x19 || between 0x1C 0x1F b

def start : ControlState := .ground .start

-- A decoded character prints unless it is a control character; a byte of the second control range
-- that stands alone does nothing.
def itemOfDecoded : Text.Utf8.Decoded → ControlItem
  | .char c => if c.toNat < 0x20 ∨ (0x80 ≤ c.toNat ∧ c.toNat ≤ 0x9F) then .execute c.toNat else .print c
  | .malformed [b] => if b ≤ 0x9F then .execute b.toNat else .print Text.Utf8.replacement
  | .malformed _ => .print Text.Utf8.replacement

-- What CAN, SUB and ESC do wherever they stand.
def interrupt (s : ControlState) (b : UInt8) : ControlState × List ControlItem :=
  if b = 0x18 ∨ b = 0x1A then (start, [.execute b.toNat])
  else if b = 0x1B then (.escape, [])
  else (s, [])

def stepGround (pending : Text.Utf8.State) (b : UInt8) : ControlState × List ControlItem :=
  if b = 0x1B then
    (.escape, (Text.Utf8.finish pending).map itemOfDecoded)
  else
    let (pending, decoded) := Text.Utf8.step pending b
    (.ground pending, decoded.map itemOfDecoded)

def stepEscape (b : UInt8) : ControlState × List ControlItem :=
  if isActing b then (.escape, [.execute b.toNat])
  else if between 0x20 0x2F b then (.escapeIntermediate [b], [])
  else if b = 0x50 then (.deviceEntry, [])
  else if b = 0x58 ∨ b = 0x5E ∨ b = 0x5F then (.string, [])
  else if b = 0x5B then (.sequenceEntry, [])
  else if b = 0x5D then (.systemString, [])
  else if between 0x30 0x7E b then (start, [.escape [] b])
  else interrupt .escape b

def stepEscapeIntermediate (intermediates : List UInt8) (b : UInt8) :
    ControlState × List ControlItem :=
  if isActing b then (.escapeIntermediate intermediates, [.execute b.toNat])
  else if between 0x20 0x2F b then
    (.escapeIntermediate ((intermediates ++ [b]).take 2), [])
  else if between 0x30 0x7E b then (start, [.escape intermediates b])
  else interrupt (.escapeIntermediate intermediates) b

def stepEntry (b : UInt8) : ControlState × List ControlItem :=
  let p : PartialSequence := {}
  if isActing b then (.sequenceEntry, [.execute b.toNat])
  else if between 0x20 0x2F b then (.sequenceIntermediate (p.collect b), [])
  else if between 0x30 0x39 b then (.sequenceNumbers (p.digit b), [])
  else if b = 0x3A then (.sequenceNumbers p.attach, [])
  else if b = 0x3B then (.sequenceNumbers p.endParameter, [])
  else if between 0x3C 0x3F b then (.sequenceNumbers (p.collect b), [])
  else if between 0x40 0x7E b then (start, p.finish b)
  else interrupt .sequenceEntry b

def stepNumbers (p : PartialSequence) (b : UInt8) : ControlState × List ControlItem :=
  if isActing b then (.sequenceNumbers p, [.execute b.toNat])
  else if between 0x20 0x2F b then (.sequenceIntermediate (p.collect b), [])
  else if between 0x30 0x39 b then (.sequenceNumbers (p.digit b), [])
  else if b = 0x3A then (.sequenceNumbers p.attach, [])
  else if b = 0x3B then (.sequenceNumbers p.endParameter, [])
  else if between 0x3C 0x3F b then (.sequenceIgnored, [])
  else if between 0x40 0x7E b then (start, p.finish b)
  else interrupt (.sequenceNumbers p) b

def stepIntermediate (p : PartialSequence) (b : UInt8) : ControlState × List ControlItem :=
  if isActing b then (.sequenceIntermediate p, [.execute b.toNat])
  else if between 0x20 0x2F b then (.sequenceIntermediate (p.collect b), [])
  else if between 0x30 0x3F b then (.sequenceIgnored, [])
  else if between 0x40 0x7E b then (start, p.finish b)
  else interrupt (.sequenceIntermediate p) b

def stepIgnored (b : UInt8) : ControlState × List ControlItem :=
  if isActing b then (.sequenceIgnored, [.execute b.toNat])
  else if between 0x40 0x7E b then (start, [])
  else interrupt .sequenceIgnored b

-- The header of a device control string leads to its body, which is dropped.
def stepDevice (s : ControlState) (afterNumber afterMarker : ControlState) (b : UInt8) :
    ControlState × List ControlItem :=
  if between 0x20 0x2F b then (.deviceIntermediate, [])
  else if between 0x30 0x3B b then (afterNumber, [])
  else if between 0x3C 0x3F b then (afterMarker, [])
  else if between 0x40 0x7E b then (.deviceString, [])
  else interrupt s b

def step : ControlState → UInt8 → ControlState × List ControlItem
  | .ground pending, b => stepGround pending b
  | .escape, b => stepEscape b
  | .escapeIntermediate intermediates, b => stepEscapeIntermediate intermediates b
  | .sequenceEntry, b => stepEntry b
  | .sequenceNumbers p, b => stepNumbers p b
  | .sequenceIntermediate p, b => stepIntermediate p b
  | .sequenceIgnored, b => stepIgnored b
  | .deviceEntry, b => stepDevice .deviceEntry .deviceNumbers .deviceNumbers b
  | .deviceNumbers, b => stepDevice .deviceNumbers .deviceNumbers .deviceString b
  | .deviceIntermediate, b => stepDevice .deviceIntermediate .deviceString .deviceString b
  | .deviceString, b => if b = 0x9C then (start, []) else interrupt .deviceString b
  | .systemString, b => if b = 0x07 then (start, []) else interrupt .systemString b
  | .string, b => interrupt .string b

end ControlState

end ShellTranscript
