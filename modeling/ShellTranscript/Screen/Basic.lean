import ShellTranscript.Screen.Reflow
import ShellTranscript.Screen.Modes
import ShellTranscript.Text.Width

-- The screen of a terminal: the grid in use, the other one of the main and the alternate grid, and
-- what governs writing to it. Here are the moves of the cursor, the writing of a character, erasing
-- and scrolling.
namespace ShellTranscript

-- The scrolling region is `[top, bottom)`. Replies are what the terminal sends back, oldest first.
structure Screen where
  grid : Grid
  other : Grid
  modes : Modes := {}
  top : Nat := 0
  bottom : Nat
  tabs : List Bool
  slot : CharsetSlot := .g0
  lastPrinted : Option Char := none
  replies : List Text := []
deriving DecidableEq, Repr

namespace Screen

-- A tab stop stands at every eighth column.
def tabStops (first columns : Nat) : List Bool :=
  (List.range columns).drop first |>.map fun column => column % 8 == 0

def new (columns lines limit : Nat) : Screen where
  grid := .new columns lines limit
  other := .new columns lines 0
  bottom := lines
  tabs := tabStops 0 columns

def columns (s : Screen) : Nat := s.grid.columns

def lines (s : Screen) : Nat := s.grid.lines

def isAlternate (s : Screen) : Bool := s.modes.alternateScreen

def modifyGrid (s : Screen) (f : Grid → Grid) : Screen := { s with grid := f s.grid }

def modifyCursor (s : Screen) (f : Cursor → Cursor) : Screen :=
  { s with grid := { s.grid with cursor := f s.grid.cursor } }

def reply (s : Screen) (t : Text) : Screen := { s with replies := s.replies ++ [t] }

-- Moves within the screen, or within the scrolling region when lines count from it.
def moveTo (s : Screen) (line column : Nat) : Screen :=
  let first := if s.modes.origin then s.top else 0
  let last := if s.modes.origin then s.bottom - 1 else s.lines - 1
  s.modifyCursor fun c => { c with
    line := min (line + first) last, column := min column (s.columns - 1), needsWrap := false }

def moveToLine (s : Screen) (line : Nat) : Screen := s.moveTo line s.grid.cursor.column

def moveToColumn (s : Screen) (column : Nat) : Screen := s.moveTo s.grid.cursor.line column

-- A move up ends at the top of the screen; lines that count from the region are counted from it.
def moveUp (s : Screen) (count : Nat) (column : Nat) : Screen :=
  let first := if s.modes.origin then s.top else 0
  let last := if s.modes.origin then s.bottom - 1 else s.lines - 1
  s.modifyCursor fun c => { c with
    line := min (c.line + first - count) last, column := min column (s.columns - 1)
    needsWrap := false }

def moveDown (s : Screen) (count : Nat) (column : Nat) : Screen :=
  s.moveTo (s.grid.cursor.line + count) column

def moveForward (s : Screen) (count : Nat) : Screen :=
  s.modifyCursor fun c => { c with column := min (c.column + count) (s.columns - 1), needsWrap := false }

def moveBackward (s : Screen) (count : Nat) : Screen :=
  s.modifyCursor fun c => { c with column := c.column - count, needsWrap := false }

def carriageReturn (s : Screen) : Screen :=
  s.modifyCursor fun c => { c with column := 0, needsWrap := false }

def backspace (s : Screen) : Screen :=
  if s.grid.cursor.column > 0 then s.moveBackward 1 else s

def scrollUpFrom (s : Screen) (top count : Nat) : Screen :=
  s.modifyGrid fun g => g.scrollUp top s.bottom (min count (s.bottom - s.top))

def scrollDownFrom (s : Screen) (top count : Nat) : Screen :=
  s.modifyGrid fun g => g.scrollDown top s.bottom (min count (s.bottom - top))

def scrollUp (s : Screen) (count : Nat) : Screen := s.scrollUpFrom s.top count

def scrollDown (s : Screen) (count : Nat) : Screen := s.scrollDownFrom s.top count

-- Down one line; at the end of the region the region scrolls.
def lineFeed (s : Screen) : Screen :=
  let next := s.grid.cursor.line + 1
  if next = s.bottom then s.scrollUp 1
  else if next < s.lines then s.modifyCursor fun c => { c with line := next }
  else s

-- Up one line; at the start of the region the region scrolls down.
def reverseLineFeed (s : Screen) : Screen :=
  if s.grid.cursor.line = s.top then s.scrollDown 1
  else s.modifyCursor fun c => { c with line := c.line - 1 }

-- Whether the cursor is inside the scrolling region.
def inRegion (s : Screen) : Bool := s.top ≤ s.grid.cursor.line && s.grid.cursor.line < s.bottom

def insertLines (s : Screen) (count : Nat) : Screen :=
  if s.inRegion then s.scrollDownFrom s.grid.cursor.line count else s

def deleteLines (s : Screen) (count : Nat) : Screen :=
  let count := min (s.lines - s.grid.cursor.line) count
  if count > 0 && s.inRegion then s.scrollUpFrom s.grid.cursor.line count else s

-- Lines are counted from one. A region of no line is refused.
def setRegion (s : Screen) (top : Nat) (bottom : Option Nat) : Screen :=
  let bottom := bottom.getD s.lines
  if top ≥ bottom then s
  else moveTo { s with top := min (top - 1) s.lines, bottom := min bottom s.lines } 0 0

-- Goes on at the start of the next row, which then continues this one.
def wrapLine (s : Screen) : Screen :=
  if s.modes.lineWrap then
    let s := s.modifyGrid fun g => g.modifyCursorCell fun c => { c with wrapped := true }
    let s := if s.grid.cursor.line + 1 ≥ s.bottom then s.lineFeed
      else s.modifyCursor fun c => { c with line := c.line + 1 }
    s.carriageReturn
  else
    s

-- The row above the screen is the newest of the history.
def modifyRowAbove (g : Grid) (f : Row → Row) : Grid :=
  match g.cursor.line with
  | 0 => { g with history := g.history.modify 0 f }
  | line + 1 => g.modifyRow line f

-- Overwriting one half of a wide character blanks the other, and takes away the spacer it may have
-- left at the end of the row above.
def freeHalves (g : Grid) : Grid :=
  let kind := g.cursorCell.kind
  if kind = .wide ∨ kind = .spacer then
    let line := g.cursor.line
    let column := g.cursor.column
    let g :=
      if kind = .wide ∧ column < g.columns - 1 then
        g.modifyCell line (column + 1) (Cell.withoutKind .spacer)
      else if column > 0 then
        g.modifyCell line (column - 1) Cell.withoutWide
      else
        g
    if column ≤ 1 then
      modifyRowAbove g fun row => row.modify (g.columns - 1) (Cell.withoutKind .leadingSpacer)
    else
      g
  else
    g

-- Writes a character with the cursor's pen, without moving.
def put (s : Screen) (c : Char) (kind : CellKind) : Screen :=
  let cursor := s.grid.cursor
  let cell : Cell := { char := (cursor.charsets.get s.slot).map c, pen := cursor.pen, kind }
  s.modifyGrid fun g => (freeHalves g).modifyCursorCell fun _ => cell

-- A character without width goes onto the one before the cursor.
def attach (s : Screen) (mark : Char) : Screen :=
  let cursor := s.grid.cursor
  let column := if cursor.needsWrap then cursor.column else cursor.column - 1
  let column := if (s.grid.cursorRow.cell column).kind = .spacer then column - 1 else column
  s.modifyGrid fun g => g.modifyCell cursor.line column fun c => { c with marks := c.marks ++ [mark] }

-- Makes room at the cursor by moving cells to the right. The cells that fall off at the end change
-- places with those in the room, pair by pair, so an odd number of cells turns two of them round.
def openRoom (s : Screen) (width : Nat) : Screen :=
  let column := s.grid.cursor.column
  if s.modes.insert ∧ column + width < s.columns then
    s.modifyGrid fun g => g.modifyCursorRow fun row =>
      let kept := (row.drop column).take (g.columns - width - column)
      let last := row.drop (g.columns - width)
      row.take column ++ (if (g.columns - column) % width = 0 then last else last.reverse) ++ kept
  else
    s

-- One column on, or a pending wrap in the last one.
def advance (s : Screen) : Screen :=
  s.modifyCursor fun c =>
    if c.column + 1 < s.columns then { c with column := c.column + 1 }
    else { c with needsWrap := true }

def printWide (s : Screen) (c : Char) : Screen :=
  let finish := fun s : Screen =>
    let s := s.put c .wide
    let s := s.modifyCursor fun cursor => { cursor with column := cursor.column + 1 }
    (s.put ' ' .spacer).advance
  if s.grid.cursor.column + 1 ≥ s.columns then
    if s.modes.lineWrap then
      finish (s.put ' ' .leadingSpacer).wrapLine
    else
      s.modifyCursor fun cursor => { cursor with needsWrap := true }
  else
    finish s

def print (s : Screen) (c : Char) : Screen :=
  match Text.cellWidth? c with
  | none => s
  | some 0 => s.attach c
  | some width =>
    let s := if s.grid.cursor.needsWrap then s.wrapLine else s
    let s := s.openRoom width
    if width = 1 then (s.put c .narrow).advance else s.printWide c

-- The column of the next tab stop, or the last column.
def nextTab (s : Screen) (column : Nat) : Nat :=
  let rest := s.tabs.drop (column + 1)
  min (column + 1 + (rest.takeWhile (!·)).length) (s.columns - 1)

-- The column of the tab stop before, or the same column.
def previousTab (s : Screen) (column : Nat) : Nat :=
  let before := (s.tabs.take column).reverse.dropWhile (!·)
  if before.isEmpty then column else before.length - 1

-- A tab marks the blank it starts on. With a pending wrap it only wraps.
def tab (s : Screen) : Screen :=
  if s.grid.cursor.needsWrap then s.wrapLine
  else
    let mark := (s.grid.cursor.charsets.get s.slot).map '\t'
    let s := s.modifyGrid fun g =>
      g.modifyCursorCell fun c => if c.char = ' ' then { c with char := mark } else c
    s.modifyCursor fun c => { c with column := s.nextTab c.column }

def moveTabs (s : Screen) (move : Screen → Nat → Nat) (count : Nat) : Screen :=
  s.modifyCursor fun c =>
    { c with column := (List.range count).foldl (fun column _ => move s column) c.column }

def setTab (s : Screen) : Screen := { s with tabs := s.tabs.set s.grid.cursor.column true }

def clearTab (s : Screen) : Screen := { s with tabs := s.tabs.set s.grid.cursor.column false }

def clearTabs (s : Screen) : Screen := { s with tabs := s.tabs.map fun _ => false }

def resetTabs (s : Screen) : Screen := { s with tabs := tabStops 0 s.columns }

def eraseCells (s : Screen) (start stop : Nat) : Screen :=
  s.modifyGrid fun g => g.modifyCursorRow fun row => row.erase start stop g.cursor.pen.bg

def eraseCharacters (s : Screen) (count : Nat) : Screen :=
  let column := s.grid.cursor.column
  s.eraseCells column (min (column + count) s.columns)

def insertBlanks (s : Screen) (count : Nat) : Screen :=
  s.modifyGrid fun g => g.modifyCursorRow fun row =>
    let column := g.cursor.column
    let count := min count (g.columns - column)
    row.take column ++ List.replicate count (Cell.blank g.cursor.pen.bg) ++
      (row.drop column).take (g.columns - column - count)

-- Blanks come in at the end of the row, as many as are deleted, even where fewer cells follow.
def deleteCharacters (s : Screen) (count : Nat) : Screen :=
  s.modifyGrid fun g => g.modifyCursorRow fun row =>
    let column := g.cursor.column
    let count := min count g.columns
    (row.take column ++ row.drop (column + count)).take (g.columns - count) ++
      List.replicate count (Cell.blank g.cursor.pen.bg)

inductive LinePart where
  | toEnd
  | toStart
  | whole

-- With a pending wrap nothing lies to the right of the cursor.
def eraseLine (s : Screen) : LinePart → Screen
  | .toEnd => if s.grid.cursor.needsWrap then s else s.eraseCells s.grid.cursor.column s.columns
  | .toStart => s.eraseCells 0 (s.grid.cursor.column + 1)
  | .whole => s.eraseCells 0 s.columns

inductive ScreenPart where
  | below
  | above
  | whole
  | history

-- The row above the cursor stays when it is the only one. The main screen is not erased whole but
-- scrolled off.
def eraseScreen (s : Screen) : ScreenPart → Screen
  | .below =>
    let s := s.eraseCells s.grid.cursor.column s.columns
    s.modifyGrid fun g => g.resetRows (g.cursor.line + 1) g.lines
  | .above =>
    let s := if s.grid.cursor.line > 1 then s.modifyGrid fun g => g.resetRows 0 g.cursor.line else s
    s.eraseCells 0 (min (s.grid.cursor.column + 1) s.columns)
  | .whole => s.modifyGrid fun g => if s.isAlternate then g.resetAll else g.clearViewport
  | .history => s.modifyGrid Grid.clearHistory

-- Fills the screen with a letter to check its alignment.
def fillWithLetters (s : Screen) : Screen :=
  s.modifyGrid fun g =>
    { g with rows := List.replicate g.lines (List.replicate g.columns { char := 'E' }) }

def saveCursor (s : Screen) : Screen := s.modifyGrid fun g => { g with saved := g.cursor }

def restoreCursor (s : Screen) : Screen := s.modifyGrid fun g => { g with cursor := g.saved }

-- The alternate grid is blank when it comes in and takes the cursor of the main one; going back
-- brings the main grid's own cursor back.
def swapGrids (s : Screen) : Screen :=
  let modes := { s.modes with alternateScreen := !s.modes.alternateScreen }
  if s.isAlternate then
    { s with grid := s.other, other := s.grid, modes }
  else
    { s with
      grid := { s.other with cursor := s.grid.cursor }.resetAll
      other := { s.grid with saved := s.grid.cursor }
      modes }

def setAlternate (s : Screen) (on : Bool) : Screen :=
  if s.modes.alternateScreen = on then s else s.swapGrids

-- Back to the state of a new terminal of this size; replies not yet taken stay.
def reset (s : Screen) : Screen :=
  let main := if s.isAlternate then s.other else s.grid
  { new main.columns main.lines main.limit with
    lastPrinted := s.lastPrinted, replies := s.replies }

-- The alternate grid is cut or filled up; the main one reflows.
def resize (s : Screen) (columns lines : Nat) : Screen :=
  if s.columns = columns ∧ s.lines = lines then s
  else
    { s with
      grid := s.grid.resize (!s.isAlternate) columns lines
      other := s.other.resize s.isAlternate columns lines
      tabs := s.tabs.take columns ++ tabStops s.tabs.length columns
      top := 0
      bottom := lines }

end Screen

end ShellTranscript
