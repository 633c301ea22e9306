import ShellTranscript.Registry
import ShellTranscript.Text.Basic

-- The document that blocks are written into. Every edit replaces a part of the text, and the
-- listeners registered at that time are told its offset, what it removed and what it put there.
namespace ShellTranscript

structure Edit where
  offset : Nat
  removed : Text
  inserted : Text
deriving DecidableEq, Repr

-- Listeners are known by their names. The notices are what they were told, oldest first.
structure Document where
  text : Text := []
  listeners : Registry Text := {}
  notices : List (Text × Edit) := []
deriving Repr

namespace Document

def length (d : Document) : Nat := Text.byteLength d.text

def tell (d : Document) (edit : Edit) : Document :=
  { d with notices := d.notices ++ d.listeners.members.map fun name => (name, edit) }

-- Replaces the bytes `[start, stop)`. An empty part replaced by nothing is no edit, wherever it is;
-- a part that is not in the text, or starts or ends inside a character, cannot be replaced.
def replace? (d : Document) (start stop : Nat) (inserted : Text) : Option Document :=
  if stop ≤ start ∧ inserted = [] then some d
  else
    (Text.splice? d.text start stop inserted).map fun (removed, text) =>
      { d with text }.tell ⟨start, removed, inserted⟩

def insert? (d : Document) (offset : Nat) (inserted : Text) : Option Document :=
  d.replace? offset offset inserted

def delete? (d : Document) (start stop : Nat) : Option Document := d.replace? start stop []

def append (d : Document) (inserted : Text) : Document :=
  if inserted = [] then d
  else { d with text := d.text ++ inserted }.tell ⟨d.length, [], inserted⟩

def clear (d : Document) : Document :=
  if d.text = [] then d else { d with text := [] }.tell ⟨0, d.text, []⟩

def slice? (d : Document) (start stop : Nat) : Option Text := Text.slice? d.text start stop

-- The number of the line that holds an offset, from zero.
def lineNumber? (d : Document) (offset : Nat) : Option Nat :=
  if offset ≤ d.length then some (Text.lineFeedsBefore d.text offset) else none

def lineStart? (d : Document) (offset : Nat) : Option Nat := Text.lineStart? d.text offset

def lineCount (d : Document) : Nat := Text.lineFeedsBefore d.text d.length + 1

def addListener (d : Document) (name : Text) : Document × Nat :=
  let (listeners, id) := d.listeners.add name
  ({ d with listeners }, id)

def removeListener (d : Document) (id : Nat) : Document × Bool :=
  let (listeners, found) := d.listeners.remove id
  ({ d with listeners }, found)

-- The notices since they were last taken.
def takeNotices (d : Document) : List (Text × Edit) × Document :=
  (d.notices, { d with notices := [] })

end Document

end ShellTranscript
