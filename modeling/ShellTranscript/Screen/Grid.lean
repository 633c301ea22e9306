import ShellTranscript.Screen.Cell
import ShellTranscript.Screen.Charset

-- A grid: the rows on the screen, the rows that scrolled off above it, and a cursor. Rows that leave
-- the screen at its top go into the history, which keeps the newest ones up to a limit.
namespace ShellTranscript

-- `needsWrap` tells that the last column was just written and the next character starts a new row.
structure Cursor where
  line : Nat := 0
  column : Nat := 0
  pen : Pen := {}
  charsets : Charsets := {}
  needsWrap : Bool := false
deriving DecidableEq, Repr

-- The history has its newest row first.
structure Grid where
  columns : Nat
  lines : Nat
  limit : Nat
  history : List Row := []
  rows : List Row
  cursor : Cursor := {}
  saved : Cursor := {}
deriving DecidableEq, Repr

namespace Grid

def new (columns lines limit : Nat) : Grid where
  columns
  lines
  limit
  rows := List.replicate lines (Row.blank columns (.named .background))

-- A row as an erasure leaves it: blanks on the pen's background.
def blankRow (g : Grid) : Row := Row.blank g.columns g.cursor.pen.bg

def row (g : Grid) (line : Nat) : Row := g.rows.getD line []

def cursorRow (g : Grid) : Row := g.row g.cursor.line

def cursorCell (g : Grid) : Cell := g.cursorRow.cell g.cursor.column

def modifyRow (g : Grid) (line : Nat) (f : Row → Row) : Grid :=
  { g with rows := g.rows.modify line f }

def modifyCursorRow (g : Grid) (f : Row → Row) : Grid := g.modifyRow g.cursor.line f

def modifyCell (g : Grid) (line column : Nat) (f : Cell → Cell) : Grid :=
  g.modifyRow line fun row => row.modify column f

def modifyCursorCell (g : Grid) (f : Cell → Cell) : Grid :=
  g.modifyCell g.cursor.line g.cursor.column f

-- Blank rows in place of the rows `[start, stop)`.
def resetRows (g : Grid) (start stop : Nat) : Grid :=
  { g with rows :=
      g.rows.take start ++ List.replicate (min stop g.rows.length - start) g.blankRow ++
        g.rows.drop (max start stop) }

def resetAll (g : Grid) : Grid := g.resetRows 0 g.lines

def clearHistory (g : Grid) : Grid := { g with history := [] }

-- The rows of a region with its first rows gone and as many blank ones below them.
def shiftUp (g : Grid) (top bottom count : Nat) : List Row :=
  g.rows.take top ++ (g.rows.take bottom).drop (top + count) ++
    List.replicate count g.blankRow ++ g.rows.drop bottom

-- The rows of a region below blank ones, without as many at its end.
def shiftDown (g : Grid) (top bottom count : Nat) : List Row :=
  g.rows.take top ++ List.replicate count g.blankRow ++
    (g.rows.take (bottom - count)).drop top ++ g.rows.drop bottom

-- Scrolls the region `[top, bottom)`. What leaves a region at the top of the screen is kept in the
-- history; from any other region it is lost.
def scrollUp (g : Grid) (top bottom count : Nat) : Grid :=
  if top = 0 then
    { g with
      history := ((g.rows.take count).reverse ++ g.history).take g.limit
      rows := g.shiftUp 0 bottom count }
  else if bottom - top ≤ count then
    g.resetRows top bottom
  else
    { g with rows := g.shiftUp top bottom count }

def scrollDown (g : Grid) (top bottom count : Nat) : Grid :=
  if bottom - top ≤ count then
    g.resetRows top bottom
  else
    { g with rows := g.shiftDown top bottom count }

-- The number of rows down to the last one that is not clear. A clear screen without any history
-- counts one row.
def usedRows (g : Grid) : Nat :=
  let used := (g.rows.reverse.dropWhile Row.isClear).length
  if used = 0 ∧ g.history = [] then 1 else used

-- Scrolls the used rows off the screen, which is blank afterwards.
def clearViewport (g : Grid) : Grid :=
  let used := g.usedRows
  (g.scrollUp 0 g.lines used).resetRows 0 (g.lines - used)

-- Every row from the oldest of the history to the last of the screen.
def allRows (g : Grid) : List Row := g.history.reverse ++ g.rows

end Grid

end ShellTranscript
