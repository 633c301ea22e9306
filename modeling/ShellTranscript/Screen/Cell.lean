import ShellTranscript.Appearance

-- The cells of a terminal grid. A cell holds a character, the combining characters on it and the pen
-- it was written with; a wide character is a cell followed by a spacer, and a spacer at the end of a
-- row stands where a wide character did not fit.
namespace ShellTranscript

inductive ColorName where
  | plain (hue : Hue)
  | bright (hue : Hue)
  | dim (hue : Hue)
  | foreground
  | background
  | cursor
  | brightForeground
  | dimForeground
deriving DecidableEq, Repr

inductive CellColor where
  | named (name : ColorName)
  | indexed (index : UInt8)
  | rgb (red green blue : UInt8)
deriving DecidableEq, Repr

-- A dim colour is its plain one, and the colours of the palette's own roles are the default.
def TextColor.ofCellColor : CellColor → TextColor
  | .named (.plain hue) => .plain hue
  | .named (.dim hue) => .plain hue
  | .named (.bright hue) => .bright hue
  | .named _ => .default
  | .indexed index => .indexed index
  | .rgb red green blue => .rgb red green blue

-- What newly written cells look like.
structure Pen where
  fg : CellColor := .named .foreground
  bg : CellColor := .named .background
  bold : Bool := false
  dim : Bool := false
  italic : Bool := false
  underline : Bool := false
  inverse : Bool := false
  strikeout : Bool := false
deriving DecidableEq, Repr

inductive CellKind where
  | narrow
  | wide
  | spacer
  | leadingSpacer
deriving DecidableEq, Repr

-- `wrapped` on the last cell of a row tells that the next row continues it.
structure Cell where
  char : Char := ' '
  marks : List Char := []
  pen : Pen := {}
  kind : CellKind := .narrow
  wrapped : Bool := false
deriving DecidableEq, Repr

namespace Cell

def style (c : Cell) : Appearance where
  fg := .ofCellColor c.pen.fg
  bg := .ofCellColor c.pen.bg
  bold := c.pen.bold
  italic := c.pen.italic
  underline := c.pen.underline
  inverse := c.pen.inverse
  dim := c.pen.dim
  strikeout := c.pen.strikeout

-- A blank on the given background.
def blank (bg : CellColor) : Cell := { pen := { bg } }

def isSpacer (c : Cell) : Bool := c.kind == .spacer || c.kind == .leadingSpacer

-- Nothing would be lost if the cell were cut off.
def isEmpty (c : Cell) : Bool :=
  (c.char == ' ' || c.char == '\t') && c.pen.bg == .named .background &&
    c.pen.fg == .named .foreground && !c.pen.inverse && !c.pen.underline && !c.pen.strikeout &&
    !c.wrapped && !c.isSpacer && c.marks.isEmpty

-- The cell of a wide character after its spacer was overwritten.
def withoutWide (c : Cell) : Cell :=
  { c with char := ' ', marks := [], kind := if c.kind = .wide then .narrow else c.kind }

def withoutKind (kind : CellKind) (c : Cell) : Cell :=
  if c.kind = kind then { c with kind := .narrow } else c

end Cell

-- The cells of one line, left to right.
abbrev Row := List Cell

namespace Row

def blank (columns : Nat) (bg : CellColor) : Row := List.replicate columns (Cell.blank bg)

def cell (row : Row) (column : Nat) : Cell := row.getD column {}

-- Blanks in place of the cells `[start, stop)`.
def erase (row : Row) (start stop : Nat) (bg : CellColor) : Row :=
  row.take start ++ List.replicate (min stop row.length - start) (Cell.blank bg) ++
    row.drop (max start stop)

-- The next row continues this one.
def isWrapped (row : Row) : Bool := (row.getLast?.map Cell.wrapped).getD false

-- The cells up to the last one that shows something.
def visible (row : Row) : Row := (row.reverse.dropWhile fun c => c.char == ' ').reverse

-- What of the row belongs to the text: all of it when the next row continues it.
def textCells (row : Row) : Row := if row.isWrapped then row else row.visible

def isClear (row : Row) : Bool := row.all Cell.isEmpty

def modifyLast (row : Row) (f : Cell → Cell) : Row := row.modify (row.length - 1) f

def setWrapped (wrapped : Bool) (row : Row) : Row := row.modifyLast fun c => { c with wrapped }

end Row

end ShellTranscript
