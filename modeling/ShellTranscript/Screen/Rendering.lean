import ShellTranscript.Screen.Basic

-- What a screen shows, as text. Rows run from the oldest of the history down to the cursor's or the
-- last one that shows something; rows that continue one another are joined, and others end in a line
-- feed and lose their trailing blanks.
namespace ShellTranscript

-- The characters of a cell: its own and the combining ones on it.
def Cell.text (c : Cell) : Text := c.char :: c.marks

def Row.pieces (row : Row) : List (Text × Appearance) :=
  (row.textCells.filter fun c => !c.isSpacer).map fun c => (c.text, c.style)

namespace Screen

-- The rows of the screen that are shown.
def shownRows (s : Screen) : List Row :=
  let below := s.grid.rows.drop (s.grid.cursor.line + 1)
  let used := (below.reverse.dropWhile fun row => row.visible.isEmpty).length
  s.grid.history.reverse ++ s.grid.rows.take (s.grid.cursor.line + 1 + used)

-- The pieces of rows, with a line feed after each row that ends its line; not after the last row.
def piecesOfRows : List Row → List (Text × Appearance)
  | [] => []
  | [row] => row.pieces
  | row :: rest =>
    row.pieces ++ (if row.isWrapped then [] else [(['\n'], {})]) ++ piecesOfRows rest

-- The shown text with its styles.
def render (s : Screen) : Text × List StyledSpan :=
  let pieces := piecesOfRows s.shownRows
  (pieces.flatMap Prod.fst, StyledSpan.ofPieces pieces)

def plainText (s : Screen) : Text := s.render.1

-- The characters of cells, without the combining ones.
def charsOf (row : Row) : Text := (row.filter fun c => !c.isSpacer).map Cell.char

-- The text from the oldest row up to the cursor. Blanks before the cursor on its row are kept.
def textToCursor (s : Screen) : Text :=
  let above := s.grid.history.reverse ++ s.grid.rows.take s.grid.cursor.line
  let lines := above.flatMap fun row => charsOf row.textCells ++ (if row.isWrapped then [] else ['\n'])
  lines ++ charsOf (s.grid.cursorRow.take s.grid.cursor.column)

-- The cursor's row, one character for every cell, and the cursor's column.
def cursorLine (s : Screen) : Text × Nat :=
  (s.grid.cursorRow.map Cell.char, s.grid.cursor.column)

end Screen

end ShellTranscript
