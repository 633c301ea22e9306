import ShellTranscript.Terminal

-- The connection to a shell. It takes what is written and the sizes it is told, until it is closed; it
-- is closed once. Each kind of call may fail, and of the writes any one.
namespace ShellTranscript

-- The calls that fail. The first writes are answered one by one, as `answers` says; the later ones all
-- fail or all succeed.
structure ConnectorFaults where
  takeReader : Bool := false
  write : Bool := false
  resize : Bool := false
  close : Bool := false
  answers : List Bool := []
deriving DecidableEq, Repr

-- A write that reached the connection: the request that made it, or none for a reply of the terminal,
-- the payload, and the answer.
structure WriteCall where
  sender : Option Nat
  payload : Text
  accepted : Bool
deriving DecidableEq, Repr

-- The writes that were called for, whatever their answers, and the sizes that were accepted, oldest
-- first.
structure Connector where
  faults : ConnectorFaults := {}
  isClosed : Bool := false
  closes : Nat := 0
  writes : List WriteCall := []
  resized : List ScreenSize := []
deriving DecidableEq, Repr

namespace Connector

-- Whether the next write is accepted.
def acceptsNext (c : Connector) : Bool := c.faults.answers.getD c.writes.length (!c.faults.write)

-- Also tells whether the payload was accepted. The closed connection is not called any more. Whether it
-- is closed and the call itself are one step here: a close that comes between the two lets one call
-- through, which is then as good as one just before the close.
def write (c : Connector) (sender : Option Nat) (payload : Text) : Connector × Bool :=
  if c.isClosed then (c, false)
  else ({ c with writes := c.writes ++ [⟨sender, payload, c.acceptsNext⟩] }, c.acceptsNext)

-- The payloads that were accepted.
def written (c : Connector) : List Text :=
  (c.writes.filter WriteCall.accepted).map WriteCall.payload

def resize (c : Connector) (size : ScreenSize) : Connector × Bool :=
  if c.isClosed || c.faults.resize then (c, false)
  else ({ c with resized := c.resized ++ [size] }, true)

-- A close that fails is a close all the same.
def close (c : Connector) : Connector :=
  if c.isClosed then c else { c with isClosed := true, closes := c.closes + 1 }

-- A second close does nothing.
theorem close_close (c : Connector) : c.close.close = c.close := by
  by_cases h : c.isClosed <;> simp [close, h]

-- A closed connection takes nothing any more.
theorem write_close (c : Connector) (sender : Option Nat) (payload : Text) :
    c.close.write sender payload = (c.close, false) := by
  by_cases h : c.isClosed <;> simp [close, write, h]

theorem resize_close (c : Connector) (size : ScreenSize) :
    c.close.resize size = (c.close, false) := by
  by_cases h : c.isClosed <;> simp [close, resize, h]

end Connector

end ShellTranscript
