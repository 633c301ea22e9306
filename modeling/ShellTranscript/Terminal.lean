import ShellTranscript.Screen.Emulator
import ShellTranscript.Screen.Rendering

-- The terminal that a shell's output is decoded into. Every change counts up the generation, which is
-- published to those who watch the terminal until it is disposed; every full reset counts up the
-- epoch.
namespace ShellTranscript

structure ScreenSize where
  columns : Nat
  rows : Nat
deriving DecidableEq, Repr

-- A size has at least one column and one row.
def ScreenSize.new (columns rows : Nat) : ScreenSize := ⟨max columns 1, max rows 1⟩

-- `published` is the last generation that watchers were told.
structure Terminal where
  emulator : Emulator
  size : ScreenSize
  generation : Nat := 0
  epoch : Nat := 0
  published : Nat := 0
  disposed : Bool := false
deriving Repr

namespace Terminal

def new (size : ScreenSize) (scrollback : Nat) : Terminal where
  emulator := .new size.columns size.rows scrollback
  size

def screen (t : Terminal) : Screen := t.emulator.screen

-- Counts a change and tells the watchers.
def changed (t : Terminal) : Terminal :=
  let generation := t.generation + 1
  { t with generation, published := if t.disposed then t.published else generation }

-- Decodes bytes into the screen; no bytes are no change.
def write (t : Terminal) (bytes : List UInt8) : Terminal :=
  if bytes.isEmpty then t else { t with emulator := t.emulator.feed bytes }.changed

-- Home the cursor, erase the screen, drop the scrollback.
def resetSequence : List UInt8 :=
  [0x1B, 0x5B, 0x48, 0x1B, 0x5B, 0x32, 0x4A, 0x1B, 0x5B, 0x33, 0x4A]

-- Wipes screen and scrollback and starts a new epoch.
def clearAll (t : Terminal) : Terminal :=
  { t with emulator := t.emulator.feed resetSequence, epoch := t.epoch + 1 }.changed

def resize (t : Terminal) (size : ScreenSize) : Terminal :=
  { t with
    emulator := { t.emulator with screen := t.screen.resize size.columns size.rows }
    size }.changed

def isAlternate (t : Terminal) : Bool := t.screen.isAlternate

def plainText (t : Terminal) : Text := t.screen.plainText

def textToCursor (t : Terminal) : Text := t.screen.textToCursor

def cursorLine (t : Terminal) : Text × Nat := t.screen.cursorLine

-- What a new watcher has seen so far; a disposed terminal has no new watchers.
def subscribe (t : Terminal) : Option Nat := if t.disposed then none else some t.published

-- The replies for the shell, which are then no longer there.
def takeReplies (t : Terminal) : List Text × Terminal :=
  (t.screen.replies,
    { t with emulator := { t.emulator with screen := { t.screen with replies := [] } } })

-- Ends every watch. The screen stays readable.
def dispose (t : Terminal) : Terminal := { t with disposed := true }

end Terminal

end ShellTranscript
