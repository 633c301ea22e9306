import ShellTranscript.Screen.Grid

-- Changing the size of a grid. Lines change first: a shrinking screen pushes rows above the cursor
-- into the history, a growing one pulls them back. Then columns change: rows that continue one
-- another are joined or cut anew, and the cursor stays with its text.
namespace ShellTranscript.Grid

-- Rows are numbered from the bottom while they are taken from the oldest to the newest.
def numberedFromBottom (rows : List Row) : List (Nat × Row) :=
  (List.range rows.length).reverse.zip rows

-- The newest rows become the screen and the others the history.
def withRows (g : Grid) (newestFirst : List Row) : Grid :=
  { g with
    history := newestFirst.drop g.lines
    rows := (newestFirst.take g.lines).reverse }

def growLines (g : Grid) (target : Nat) : Grid :=
  let pulled := min g.history.length (target - g.lines)
  let added := target - g.lines - pulled
  { g with
    lines := target
    history := g.history.drop pulled
    rows := (g.history.take pulled).reverse ++ g.rows ++
      List.replicate added (Row.blank g.columns (.named .background))
    cursor := { g.cursor with line := g.cursor.line + pulled }
    saved := { g.saved with line := g.saved.line + pulled } }

def shrinkLines (g : Grid) (target : Nat) : Grid :=
  let scrolled := g.cursor.line + 1 - target
  let g := if scrolled > 0 then g.scrollUp 0 g.lines scrolled else g
  { g with
    lines := target
    rows := g.rows.take target
    cursor := { g.cursor with line := min g.cursor.line (target - 1) }
    saved := { g.saved with line := min g.saved.line (target - 1) } }

-- The rows joined so far, newest first, and the cursor's place among them. `surplus` counts the rows
-- that the cursor's own row moved up by.
structure Growth where
  done : List Row
  line : Nat
  column : Nat
  needsWrap : Bool
  surplus : Nat
deriving Repr

-- The place some cells before a place, wrapping to earlier lines and staying on the screen.
def cellsBefore (columns lines line column count : Nat) : Nat × Nat :=
  let up := (count + columns - 1 - column) / columns
  let column := min ((columns + column - count % columns) % columns) (columns - 1)
  if line < up then (0, 0)
  else if line - up > lines - 1 then (lines - 1, columns - 1)
  else (line - up, column)

def needsMore (columns : Nat) (row : Row) : Bool :=
  row.length > 0 && row.length < columns && row.isWrapped

-- The cells that move up to a row with some free columns, the rest of their row, and the number of
-- columns they fill. A wide character that does not fit leaves a spacer.
def pullCells (row : Row) (free : Nat) : Row × Row × Nat :=
  let count := min row.length free
  if (row.cell (count - 1)).kind = .wide then
    (row.take (count - 1) ++ [{ kind := .leadingSpacer }], row.drop (count - 1), free - 1)
  else
    (row.take count, row.drop count, free)

-- A row that is about to be continued: no longer wrapped, and without a spacer at its end.
def openEnd (row : Row) : Row :=
  let row := row.setWrapped false
  if (row.getLast?.map Cell.kind) = some .leadingSpacer then row.dropLast else row

def growStep (columns lines : Nat) (reflow : Bool) (s : Growth) (numbered : Nat × Row) : Growth :=
  let (index, row) := numbered
  match s.done with
  | [] => { s with done := [row] }
  | last :: rest =>
    if !(reflow && needsMore columns last) then
      { s with done := row :: last :: rest }
    else
      let last := openEnd last
      let (pulled, row, free) := pullCells row (columns - last.length)
      let last := last ++ pulled
      let cursorIndex := lines - s.line - 1
      let joined := row :: last.setWrapped true :: rest
      if index = cursorIndex then
        let target := cellsBefore columns lines s.line s.column free
        let atStart := target.2 == 0 && row.isClear
        let target := if atStart then cellsBefore columns lines target.1 target.2 1 else target
        let s := { s with column := target.2, needsWrap := s.needsWrap || atStart }
        let moved := s.line - target.1
        if moved ≠ 0 ∧ row.isClear then
          { s with done := last :: rest }
        else
          { s with done := joined, surplus := s.surplus + moved }
      else if row.isClear then
        { s with done := last :: rest, line := if index < cursorIndex then s.line + 1 else s.line }
      else
        { s with done := joined }

-- The screen has all its lines, and rows below the cursor make up for those it moved up by.
def Growth.settle (s : Growth) (columns lines : Nat) : Growth :=
  let missing := lines - s.done.length
  let done := List.replicate missing (Row.blank columns (.named .background)) ++ s.done
  let line := s.line - missing
  let available := min (lines - line - 1) (done.length - lines)
  let overflow := s.surplus - available
  { s with done := done.drop (s.surplus - overflow), line := line - overflow }

def padRow (columns : Nat) (row : Row) : Row := row ++ List.replicate (columns - row.length) ({} : Cell)

-- A pending wrap is a cursor one column past the end.
def unwrapCursor (c : Cursor) : Cursor :=
  if c.needsWrap then { c with needsWrap := false, column := c.column + 1 } else c

def growColumns (g : Grid) (reflow : Bool) (columns : Nat) : Grid :=
  let cursor := if reflow then unwrapCursor g.cursor else g.cursor
  let start : Growth := ⟨[], cursor.line, cursor.column, cursor.needsWrap, 0⟩
  let grown := (numberedFromBottom g.allRows).foldl (growStep columns g.lines reflow) start
  let s := grown.settle columns g.lines
  let g := { g with
    columns
    cursor := { cursor with line := s.line, column := s.column, needsWrap := s.needsWrap } }
  g.withRows (s.done.map (padRow columns))

-- The rows cut so far, newest first, the cells that go before the next row, and the cursor's place.
structure Shrinkage where
  done : List Row
  carried : Option Row
  line : Nat
  column : Nat
deriving Repr

-- Cells beyond the new width, without the empty ones at their end.
def overhang (columns : Nat) (row : Row) : Row :=
  ((row.drop columns).reverse.dropWhile Cell.isEmpty).reverse

-- Cuts one row into rows of the new width. The fuel bounds the number of cuts.
def cutRow (columns lines : Nat) (reflow : Bool) (index : Nat) :
    Nat → Row → Shrinkage → Shrinkage
  | 0, row, s => { s with done := row.take columns :: s.done }
  | fuel + 1, row, s =>
    let cursorIndex := lines - s.line - 1
    let kept : Row := row.take columns
    let excess := overhang columns row
    if !(reflow && (!excess.isEmpty || (index == cursorIndex && s.column > columns))) then
      { s with done := kept :: s.done }
    else
      let split := kept.length ≥ columns && (kept.cell (columns - 1)).kind == .wide
      let excess : Row := if split then kept.cell (columns - 1) :: excess else excess
      let kept : Row := if split then kept.set (columns - 1) { kind := .leadingSpacer } else kept
      let spacerLast := (excess.getLast?.map Cell.kind) == some .leadingSpacer
      if spacerLast && excess.length == 1 then
        { s with done := kept.modify (columns - 1) (fun c => { c with wrapped := true }) :: s.done }
      else
        let excess := if spacerLast then Row.setWrapped true excess.dropLast else excess
        let s := { s with done := Row.setWrapped true kept :: s.done }
        if Row.isWrapped excess && index ≥ 1 && excess.length < columns then
          { s with carried := some (Row.setWrapped false excess) }
        else
          let below := index < cursorIndex || (index == cursorIndex && s.column < columns)
          let beyond := index == cursorIndex && s.column ≥ columns
          let s := { s with
            line := if below then s.line - 1 else s.line
            column := if beyond then s.column - columns else s.column }
          cutRow columns lines reflow index fuel (padRow columns excess) s

def shrinkStep (columns lines : Nat) (reflow : Bool) (s : Shrinkage) (numbered : Nat × Row) :
    Shrinkage :=
  let (index, row) := numbered
  let carried := s.carried.getD []
  let column := if index = lines - s.line - 1 then s.column + carried.length else s.column
  let row := carried ++ row
  cutRow columns lines reflow index (row.length + column + 2) row { s with carried := none, column }

-- The cursor back on the grid: one past the end is a pending wrap, unless that row goes on.
def settleCursor (g : Grid) (reflow : Bool) (cursor : Cursor) : Cursor :=
  if !reflow then
    { cursor with column := min cursor.column (g.columns - 1) }
  else if cursor.column = g.columns ∧ (g.row cursor.line).isWrapped = false then
    { cursor with needsWrap := true, column := cursor.column - 1 }
  else
    { cursor with column := min cursor.column (g.columns - 1) }

def shrinkColumns (g : Grid) (reflow : Bool) (columns : Nat) : Grid :=
  let cursor := if reflow then unwrapCursor g.cursor else g.cursor
  let start : Shrinkage := ⟨[], none, cursor.line, cursor.column⟩
  let s := (numberedFromBottom g.allRows).foldl (shrinkStep columns g.lines reflow) start
  let g := { g with columns }.withRows (s.done.take (g.limit + g.lines))
  { g with
    cursor := g.settleCursor reflow { cursor with line := s.line, column := s.column }
    saved := { g.saved with column := min g.saved.column (columns - 1) } }

-- Rows that a change of size adds are blank on the default background.
def resize (g : Grid) (reflow : Bool) (columns lines : Nat) : Grid :=
  let pen := g.cursor.pen
  let g := { g with cursor := { g.cursor with pen := {} } }
  let g := if g.lines < lines then g.growLines lines
    else if lines < g.lines then g.shrinkLines lines else g
  let g := if g.columns < columns then g.growColumns reflow columns
    else if columns < g.columns then g.shrinkColumns reflow columns else g
  { g with cursor := { g.cursor with pen } }

end ShellTranscript.Grid
