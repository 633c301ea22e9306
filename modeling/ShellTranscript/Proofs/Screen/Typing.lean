import Mathlib.Tactic.Common
import ShellTranscript.Proofs.Screen.Page
import ShellTranscript.Proofs.Text.Cut
import ShellTranscript.Terminal

-- Typing on a screen. A screen that shows a page shows, after a character or a line feed, the page
-- after it, without the rows that scroll off and find no room in the history.
namespace ShellTranscript

open Text

-- A row with a text and blanks behind it.
def Row.ofText (columns : Nat) (t : Text) : Row :=
  t.map (fun c => ({ char := c } : Cell)) ++ List.replicate (columns - t.length) ({} : Cell)

namespace Row

-- A row with a character in one of its cells.
def write (column : Nat) (c : Char) (row : Row) : Row := row.modify column fun _ => { char := c }

-- A row that tells in one of its cells that the next row continues it.
def wrapAt (column : Nat) (row : Row) : Row :=
  row.modify column fun c => { c with wrapped := true }

variable {columns : Nat} {t : Text}

theorem length_ofText (h : t.length ≤ columns) : (ofText columns t).length = columns := by
  rw [ofText, List.length_append, List.length_map, List.length_replicate]
  omega

theorem write_ofText (h : t.length < columns) (c : Char) :
    (ofText columns t).write t.length c = ofText columns (t ++ [c]) := by
  have hroom : columns - t.length = columns - (t.length + 1) + 1 := by omega
  rw [write, ofText, ofText, hroom, List.replicate_succ, List.length_append, List.length_singleton]
  have hmodify := modify_append_cons (t.map fun c => ({ char := c } : Cell))
    (List.replicate (columns - (t.length + 1)) {}) {} fun _ => { char := c }
  rw [List.length_map] at hmodify
  rw [hmodify]
  simp

-- What holds of every plain cell holds of its cells.
theorem forall_mem_ofText {P : Cell → Prop} (h : ∀ c : Char, P { char := c }) :
    ∀ c ∈ ofText columns t, P c := by
  intro c hc
  rcases List.mem_append.mp hc with hc | hc
  · obtain ⟨char, -, rfl⟩ := List.mem_map.mp hc
    exact h char
  · rw [List.eq_of_mem_replicate hc]
    exact h ' '

-- No cell of it belongs to a wide character.
theorem kind_cell_ofText (column : Nat) : ((ofText columns t).cell column).kind = .narrow := by
  rw [cell, List.getD_eq_getElem?_getD]
  cases hcell : (ofText columns t)[column]? with
  | none => rfl
  | some cell =>
    exact forall_mem_ofText (P := fun c => c.kind = .narrow) (fun _ => rfl) cell
      (List.mem_of_getElem? hcell)

end Row

-- These are the rows down to the cursor's, and those below are blank. The history is within its limit.
structure Grid.Lays (g : Grid) (front : List Row) : Prop where
  rows : g.allRows =
    front ++ List.replicate (g.lines - 1 - g.cursor.line) (Row.ofText g.columns [])
  count : g.rows.length = g.lines
  line : g.cursor.line < g.lines
  place : g.history.length + g.cursor.line + 1 = front.length
  bound : g.history.length ≤ g.limit

namespace Grid.Lays

variable {g : Grid} {front : List Row} {row : Row}

theorem above (h : g.Lays front) :
    g.history.reverse ++ g.rows.take (g.cursor.line + 1) = front := by
  have htake := congrArg (List.take front.length) h.rows
  rw [allRows, List.take_left, ← h.place, ← List.length_reverse, Nat.add_assoc,
    List.take_length_add_append] at htake
  exact htake

theorem below (h : g.Lays front) : g.rows.drop (g.cursor.line + 1) =
    List.replicate (g.lines - 1 - g.cursor.line) (Row.ofText g.columns []) := by
  have hdrop := congrArg (List.drop front.length) h.rows
  rw [allRows, List.drop_left, ← h.place, ← List.length_reverse, Nat.add_assoc,
    List.drop_length_add_append] at hdrop
  exact hdrop

-- The rows of the screen, cut at the cursor's.
theorem exists_upper (h : g.Lays (front ++ [row])) :
    ∃ upper, g.rows = upper ++ row ::
        List.replicate (g.lines - 1 - g.cursor.line) (Row.ofText g.columns []) ∧
      upper.length = g.cursor.line ∧ g.history.reverse ++ upper = front := by
  have hline : g.cursor.line < g.rows.length := h.count ▸ h.line
  have habove := h.above
  rw [List.take_succ_eq_append_getElem hline, ← List.append_assoc] at habove
  obtain ⟨hupper, hrow⟩ := List.append_inj' habove rfl
  refine ⟨g.rows.take g.cursor.line, ?_, ?_, hupper⟩
  · rw [← h.below, ← List.singleton_inj.mp hrow, ← List.drop_eq_getElem_cons hline,
      List.take_append_drop]
  · rw [List.length_take]
    omega

theorem cursorRow (h : g.Lays (front ++ [row])) : g.cursorRow = row := by
  obtain ⟨upper, hrows, hlength, -⟩ := h.exists_upper
  rw [Grid.cursorRow, Grid.row, hrows, ← hlength, List.getD_eq_getElem?_getD]
  simp

theorem modifyCursorRow (h : g.Lays (front ++ [row])) (f : Row → Row) :
    (g.modifyCursorRow f).Lays (front ++ [f row]) := by
  obtain ⟨upper, hrows, hlength, hfront⟩ := h.exists_upper
  have hmodified : (g.modifyCursorRow f).rows = upper ++ f row ::
      List.replicate (g.lines - 1 - g.cursor.line) (Row.ofText g.columns []) := by
    rw [Grid.modifyCursorRow, modifyRow, hrows, ← hlength]
    exact modify_append_cons upper _ row f
  refine ⟨?_, ?_, h.line, ?_, h.bound⟩
  · rw [allRows, hmodified, ← hfront, List.append_assoc, List.append_assoc]
    rfl
  · have hcount := h.count
    rw [Grid.modifyCursorRow, modifyRow]
    simpa using hcount
  · have hplace := h.place
    simp only [List.length_append, List.length_singleton] at hplace ⊢
    exact hplace

theorem nextLine (h : g.Lays front) (hnext : g.cursor.line + 1 < g.lines) :
    ({ g with cursor := { g.cursor with line := g.cursor.line + 1 } } : Grid).Lays
      (front ++ [Row.ofText g.columns []]) := by
  have hblank : g.lines - 1 - g.cursor.line = g.lines - 1 - (g.cursor.line + 1) + 1 := by omega
  refine ⟨?_, h.count, hnext, ?_, h.bound⟩
  · have hrows := h.rows
    rw [hblank, List.replicate_succ] at hrows
    rw [List.append_assoc]
    exact hrows
  · have hplace := h.place
    simp only [List.length_append, List.length_singleton]
    omega

-- A row that scrolls off goes into the history, which loses its oldest row if it is full.
theorem scrollUp (h : g.Lays front) (hpen : g.cursor.pen = {})
    (hlast : g.cursor.line + 1 = g.lines) :
    (g.scrollUp 0 g.lines 1).Lays
      ((front ++ [Row.ofText g.columns []]).rtake (g.limit + g.lines)) := by
  have hlines : g.rows.length = g.lines := h.count
  obtain ⟨first, rest, hrows⟩ : ∃ first rest, g.rows = first :: rest := by
    cases hrows : g.rows with
    | nil =>
      rw [hrows, List.length_nil] at hlines
      omega
    | cons first rest => exact ⟨first, rest, rfl⟩
  have hlength : (rest ++ [Row.ofText g.columns []]).length = g.lines := by
    rw [← hlines, hrows, List.length_append, List.length_singleton, List.length_cons]
  have hblank : g.blankRow = Row.ofText g.columns [] := by rw [blankRow, hpen]; rfl
  have hshifted : g.shiftUp 0 g.lines 1 = rest ++ [Row.ofText g.columns []] := by
    rw [shiftUp, hblank, List.take_of_length_le (Nat.le_of_eq hlines),
      List.drop_of_length_le (Nat.le_of_eq hlines), hrows]
    simp
  have hscroll : g.scrollUp 0 g.lines 1 =
      { g with
        history := (first :: g.history).take g.limit
        rows := rest ++ [Row.ofText g.columns []] } := by
    rw [Grid.scrollUp, if_pos rfl, hshifted, hrows]
    rfl
  have hnone : g.lines - 1 - g.cursor.line = 0 := by omega
  have hfront : front ++ [Row.ofText g.columns []] =
      (first :: g.history).reverse ++ (rest ++ [Row.ofText g.columns []]) := by
    have hold := h.rows
    rw [hnone, allRows, hrows, List.replicate_zero, List.append_nil] at hold
    rw [← hold]
    simp
  have hkept : (front ++ [Row.ofText g.columns []]).rtake (g.limit + g.lines) =
      ((first :: g.history).take g.limit).reverse ++ (rest ++ [Row.ofText g.columns []]) := by
    rw [hfront, List.rtake_eq_reverse_take_reverse, List.reverse_append, List.reverse_reverse,
      ← hlength, Nat.add_comm, ← List.length_reverse, List.take_length_add_append,
      List.reverse_append, List.reverse_reverse]
  rw [hscroll, hkept]
  refine ⟨?_, hlength, h.line, ?_, List.length_take_le _ _⟩
  · rw [hnone, List.replicate_zero, List.append_nil]
    rfl
  · rw [List.length_append, hlength, List.length_reverse]
    show ((first :: g.history).take g.limit).length + g.cursor.line + 1 = _
    omega

end Grid.Lays

namespace Screen

-- The main screen as a new terminal of this size has it, but for its content and its cursor.
structure Plain (s : Screen) (size : ScreenSize) (limit : Nat) : Prop where
  columns : s.columns = size.columns
  lines : s.lines = size.rows
  limit : s.grid.limit = limit
  modes : s.modes = {}
  top : s.top = 0
  bottom : s.bottom = size.rows
  pen : s.grid.cursor.pen = {}
  charset : s.grid.cursor.charsets.get s.slot = .ascii

-- A row of a page. The last cell of a row tells that the next one continues it.
def pageRow (columns : Nat) (row : Text × Bool) : Row :=
  if row.2 then (Row.ofText columns row.1).setWrapped true else Row.ofText columns row.1

theorem forall_mem_pageRow {P : Cell → Prop} (h : ∀ c : Char, P { char := c })
    (hwrapped : ∀ c, P c → P { c with wrapped := true }) (columns : Nat) (row : Text × Bool) :
    ∀ c ∈ pageRow columns row, P c := by
  have hrow : ∀ c ∈ Row.ofText columns row.1, P c := Row.forall_mem_ofText h
  unfold pageRow
  split
  · exact forall_mem_modify _ hrow hwrapped
  · exact hrow

def pageRows (columns : Nat) (p : Page) : List Row :=
  p.above.map (pageRow columns) ++ [Row.ofText columns p.last]

structure Shows (s : Screen) (size : ScreenSize) (limit : Nat) (p : Page) : Prop where
  plain : s.Plain size limit
  lays : s.grid.Lays (pageRows size.columns p)
  fits : p.Fits size.columns

-- The cursor stands behind the last row's text, or on its last cell if the row is full.
structure AtEnd (s : Screen) (columns : Nat) (p : Page) : Prop where
  column : s.grid.cursor.column = min p.last.length (columns - 1)
  needsWrap : s.grid.cursor.needsWrap = (p.last.length == columns)

section Steps

variable {s : Screen} {size : ScreenSize} {limit : Nat} {p : Page} {front : List Row}

theorem Plain.isAlternate (h : s.Plain size limit) : s.isAlternate = false := by
  rw [Screen.isAlternate, h.modes]

theorem Plain.lineFeed (h : s.Plain size limit) (hlays : s.grid.Lays front) :
    s.lineFeed.Plain size limit ∧
      s.lineFeed.grid.Lays
        ((front ++ [Row.ofText size.columns []]).rtake (limit + size.rows)) ∧
      s.lineFeed.grid.cursor.column = s.grid.cursor.column ∧
      s.lineFeed.grid.cursor.needsWrap = s.grid.cursor.needsWrap := by
  have hblank : Row.ofText s.grid.columns [] = Row.ofText size.columns [] := by
    rw [← h.columns]
    rfl
  have hlines : s.grid.lines = size.rows := h.lines
  have hline := hlays.line
  by_cases hlast : s.grid.cursor.line + 1 = s.grid.lines
  · have hfeed : s.lineFeed = s.modifyGrid fun g => g.scrollUp 0 g.lines 1 := by
      have hone : min 1 (size.rows - 0) = 1 := by omega
      rw [Screen.lineFeed, if_pos (by rw [h.bottom, hlast, hlines]), Screen.scrollUp, scrollUpFrom,
        h.top, h.bottom, hone, ← hlines]
      rfl
    have hscroll := hlays.scrollUp h.pen hlast
    rw [hblank, h.limit, hlines] at hscroll
    rw [hfeed]
    refine ⟨⟨h.columns, h.lines, h.limit, h.modes, h.top, h.bottom, h.pen, h.charset⟩, ?_,
      rfl, rfl⟩
    rw [← hlines] at hscroll ⊢
    exact hscroll
  · have hfeed : s.lineFeed = s.modifyCursor fun c => { c with line := c.line + 1 } := by
      rw [Screen.lineFeed, if_neg (by rw [h.bottom]; omega), if_pos (by rw [h.lines]; omega)]
      rfl
    have hnext := hlays.nextLine (by omega)
    have hkept : (front ++ [Row.ofText size.columns []]).rtake (limit + size.rows) =
        front ++ [Row.ofText size.columns []] := by
      have hplace := hlays.place
      have hbound := hlays.bound
      rw [h.limit] at hbound
      have hnone : (front ++ [Row.ofText size.columns []]).length - (limit + size.rows) = 0 := by
        rw [List.length_append, List.length_singleton]
        omega
      rw [List.rtake, hnone, List.drop_zero]
    rw [hblank] at hnext
    rw [hfeed, hkept]
    exact ⟨⟨h.columns, h.lines, h.limit, h.modes, h.top, h.bottom, h.pen, h.charset⟩, hnext,
      rfl, rfl⟩

theorem length_pageRows (columns : Nat) (p : Page) : (pageRows columns p).length = p.height := by
  simp [pageRows, Page.height]

theorem pageRows_newest (columns : Nat) {n : Nat} (hpos : 0 < n) (p : Page) :
    pageRows columns (p.newest n) = (pageRows columns p).rtake n := by
  obtain ⟨m, rfl⟩ : ∃ m, n = m + 1 := ⟨n - 1, by omega⟩
  rw [pageRows, pageRows, List.rtake_concat_succ, Page.newest, Nat.add_sub_cancel, List.rtake,
    List.rtake, List.map_drop, List.length_map]

-- No more rows are shown than there are places for.
theorem Shows.height_le (h : s.Shows size limit p) : p.height ≤ limit + size.rows := by
  have hplace := h.lays.place
  have hbound := h.lays.bound
  have hline := h.lays.line
  have hlines : s.grid.lines = size.rows := h.plain.lines
  rw [length_pageRows] at hplace
  rw [h.plain.limit] at hbound
  omega

-- A line feed ends the last row's line. The cursor stays in its column.
theorem Shows.lineFeed (h : s.Shows size limit p) :
    s.lineFeed.Shows size limit (p.newLine.newest (limit + size.rows)) ∧
      s.lineFeed.grid.cursor.column = s.grid.cursor.column ∧
      s.lineFeed.grid.cursor.needsWrap = s.grid.cursor.needsWrap := by
  obtain ⟨hplain, hlays, hcolumn, hwrap⟩ := h.plain.lineFeed h.lays
  have hpos : 0 < limit + size.rows := Nat.lt_of_lt_of_le (Nat.succ_pos _) h.height_le
  have hrows : pageRows size.columns p ++ [Row.ofText size.columns []] =
      pageRows size.columns p.newLine := by
    simp [pageRows, Page.newLine, pageRow]
  rw [hrows, ← pageRows_newest size.columns hpos] at hlays
  exact ⟨⟨hplain, hlays, h.fits.newLine.newest _⟩, hcolumn, hwrap⟩

theorem Shows.carriageReturn (h : s.Shows size limit p) : s.carriageReturn.Shows size limit p :=
  ⟨⟨h.plain.columns, h.plain.lines, h.plain.limit, h.plain.modes, h.plain.top, h.plain.bottom,
    h.plain.pen, h.plain.charset⟩, ⟨h.lays.rows, h.lays.count, h.lays.line, h.lays.place,
    h.lays.bound⟩, h.fits⟩

-- The start of an empty row is its end.
theorem atEnd_of_home (hpos : 0 < size.columns) (hlast : p.last = [])
    (hcolumn : s.grid.cursor.column = 0) (hwrap : s.grid.cursor.needsWrap = false) :
    s.AtEnd size.columns p := by
  refine ⟨by rw [hcolumn, hlast]; simp, ?_⟩
  rw [hwrap, hlast, List.length_nil, eq_comm, beq_eq_false_iff_ne]
  omega

theorem Plain.modifyCursorRow (h : s.Plain size limit) (f : Row → Row) :
    (s.modifyGrid fun g => g.modifyCursorRow f).Plain size limit :=
  ⟨h.columns, h.lines, h.limit, h.modes, h.top, h.bottom, h.pen, h.charset⟩

-- Inside the screen a wrap goes to the next row as a line feed does.
theorem Plain.lineFeed_eq (h : s.Plain size limit) :
    (if s.grid.cursor.line + 1 ≥ s.bottom then s.lineFeed
      else s.modifyCursor fun c => { c with line := c.line + 1 }) = s.lineFeed := by
  split
  · rfl
  · rename_i hinside
    have hlines := h.lines
    have hbottom := h.bottom
    rw [Screen.lineFeed, if_neg (by omega), if_pos (by omega)]
    rfl

-- A full row is continued on the next one.
theorem Shows.wrapLine (h : s.Shows size limit p) (hend : s.AtEnd size.columns p)
    (hfull : p.last.length = size.columns) :
    s.wrapLine.Plain size limit ∧
      s.wrapLine.grid.Lays (pageRows size.columns
        (Page.newest (limit + size.rows) { above := p.above ++ [(p.last, true)] })) ∧
      s.wrapLine.grid.cursor.column = 0 ∧ s.wrapLine.grid.cursor.needsWrap = false := by
  have hcolumn : s.grid.cursor.column = (Row.ofText size.columns p.last).length - 1 := by
    rw [hend.column, Row.length_ofText h.fits.last, hfull]
    omega
  have hrow : (Row.ofText size.columns p.last).wrapAt s.grid.cursor.column =
      pageRow size.columns (p.last, true) := by
    rw [hcolumn]
    rfl
  have hplain := h.plain.modifyCursorRow (Row.wrapAt s.grid.cursor.column)
  have hlays := h.lays.modifyCursorRow (Row.wrapAt s.grid.cursor.column)
  rw [hrow] at hlays
  have hwrap : s.wrapLine = (s.modifyGrid fun g =>
      g.modifyCursorRow (Row.wrapAt s.grid.cursor.column)).lineFeed.carriageReturn := by
    have hfeed := hplain.lineFeed_eq
    have hmode : s.modes.lineWrap = true := by rw [h.plain.modes]
    rw [Screen.wrapLine, if_pos hmode]
    exact congrArg Screen.carriageReturn hfeed
  obtain ⟨hplain', hlays', -, -⟩ := hplain.lineFeed hlays
  have hpos : 0 < limit + size.rows := Nat.lt_of_lt_of_le (Nat.succ_pos _) h.height_le
  have hrows : p.above.map (pageRow size.columns) ++ [pageRow size.columns (p.last, true)] ++
      [Row.ofText size.columns []] =
        pageRows size.columns { above := p.above ++ [(p.last, true)] } := by
    simp [pageRows]
  rw [hrows, ← pageRows_newest size.columns hpos] at hlays'
  rw [hwrap]
  exact ⟨⟨hplain'.columns, hplain'.lines, hplain'.limit, hplain'.modes, hplain'.top,
    hplain'.bottom, hplain'.pen, hplain'.charset⟩,
    ⟨hlays'.rows, hlays'.count, hlays'.line, hlays'.place, hlays'.bound⟩, rfl, rfl⟩

theorem Plain.advance (h : s.Plain size limit) (hlays : s.grid.Lays front)
    (hcolumn : s.grid.cursor.column < size.columns) (hwrap : s.grid.cursor.needsWrap = false) :
    s.advance.Plain size limit ∧ s.advance.grid.Lays front ∧
      s.advance.grid.cursor.column = min (s.grid.cursor.column + 1) (size.columns - 1) ∧
      s.advance.grid.cursor.needsWrap = (s.grid.cursor.column + 1 == size.columns) := by
  have hcolumns := h.columns
  by_cases hroom : s.grid.cursor.column + 1 < s.columns
  · have hadvance : s.advance = s.modifyCursor fun c => { c with column := c.column + 1 } := by
      simp only [Screen.advance, modifyCursor, if_pos hroom]
    rw [hadvance]
    refine ⟨⟨h.columns, h.lines, h.limit, h.modes, h.top, h.bottom, h.pen, h.charset⟩,
      ⟨hlays.rows, hlays.count, hlays.line, hlays.place, hlays.bound⟩, ?_, ?_⟩
    · show s.grid.cursor.column + 1 = _
      omega
    · refine hwrap.trans ?_
      rw [eq_comm, beq_eq_false_iff_ne]
      omega
  · have hadvance : s.advance = s.modifyCursor fun c => { c with needsWrap := true } := by
      simp only [Screen.advance, modifyCursor, if_neg hroom]
    rw [hadvance]
    refine ⟨⟨h.columns, h.lines, h.limit, h.modes, h.top, h.bottom, h.pen, h.charset⟩,
      ⟨hlays.rows, hlays.count, hlays.line, hlays.place, hlays.bound⟩, ?_, ?_⟩
    · show s.grid.cursor.column = _
      omega
    · show true = _
      rw [eq_comm, beq_iff_eq]
      omega

-- Where there is room, a character goes behind the last row's text.
theorem Plain.put (h : s.Plain size limit) (hlays : s.grid.Lays (pageRows size.columns p))
    (hlast : p.last.length < size.columns) (hcolumn : s.grid.cursor.column = p.last.length)
    (hwrap : s.grid.cursor.needsWrap = false) (c : Char) :
    (s.put c .narrow).advance.Plain size limit ∧
      (s.put c .narrow).advance.grid.Lays
        (pageRows size.columns { p with last := p.last ++ [c] }) ∧
      (s.put c .narrow).advance.AtEnd size.columns { p with last := p.last ++ [c] } := by
  have hwritten := hlays.modifyCursorRow (Row.write p.last.length c)
  rw [Row.write_ofText hlast c] at hwritten
  have hput : s.put c .narrow =
      s.modifyGrid fun g => g.modifyCursorRow (Row.write p.last.length c) := by
    have hkind : s.grid.cursorCell.kind = .narrow := by
      rw [Grid.cursorCell, hlays.cursorRow]
      exact Row.kind_cell_ofText _
    have hfree : freeHalves s.grid = s.grid := by
      rw [freeHalves, hkind]
      rfl
    rw [Screen.put, modifyGrid, hfree, h.charset, h.pen, Grid.modifyCursorCell, hcolumn]
    rfl
  rw [hput]
  obtain ⟨hplain, hlays', hcolumn', hwrap'⟩ :=
    (h.modifyCursorRow (Row.write p.last.length c)).advance hwritten
      (by rw [← hcolumn] at hlast; exact hlast) hwrap
  refine ⟨hplain, hlays', hcolumn'.trans ?_, hwrap'.trans ?_⟩
  · rw [List.length_append, List.length_singleton, ← hcolumn]
    rfl
  · rw [List.length_append, List.length_singleton, ← hcolumn]
    rfl

theorem Shows.print (h : s.Shows size limit p) (hend : s.AtEnd size.columns p)
    (hpos : 0 < size.columns) {c : Char} (hwidth : cellWidth? c = some 1) :
    (s.print c).Shows size limit ((p.print size.columns c).newest (limit + size.rows)) ∧
      (s.print c).AtEnd size.columns (p.print size.columns c) := by
  have hinsert : ∀ t : Screen, t.modes = {} → t.openRoom 1 = t := by
    intro t hmodes
    rw [openRoom, hmodes, if_neg (by simp)]
  have hfits := h.fits.print hpos c
  by_cases hlast : p.last.length < size.columns
  · have hwrap : s.grid.cursor.needsWrap = false := by
      rw [hend.needsWrap, beq_eq_false_iff_ne]
      omega
    have hprint : s.print c = (s.put c .narrow).advance := by
      simp only [Screen.print, hwidth, hwrap, hinsert s h.plain.modes, Bool.false_eq_true, if_false,
        if_true]
    have hcolumn : s.grid.cursor.column = p.last.length := by
      rw [hend.column]
      omega
    obtain ⟨hplain, hlays, hend'⟩ := h.plain.put h.lays hlast hcolumn hwrap c
    have hkept : (p.print size.columns c).newest (limit + size.rows) = p.print size.columns c := by
      refine Page.newest_of_le ?_
      rw [Page.print, if_pos hlast]
      exact h.height_le
    rw [hkept]
    rw [Page.print, if_pos hlast] at hfits ⊢
    rw [hprint]
    exact ⟨⟨hplain, hlays, hfits⟩, hend'⟩
  · have hfull : p.last.length = size.columns := Nat.le_antisymm h.fits.last (Nat.le_of_not_lt hlast)
    have hwrap : s.grid.cursor.needsWrap = true := by
      rw [hend.needsWrap, hfull, beq_self_eq_true]
    rw [Page.print, if_neg hlast] at hfits ⊢
    obtain ⟨hplain, hlays, hcolumn, hwrap'⟩ := h.wrapLine hend hfull
    have hprint : s.print c = (s.wrapLine.put c .narrow).advance := by
      simp only [Screen.print, hwidth, hwrap, hinsert s.wrapLine hplain.modes, if_true]
    obtain ⟨hplain', hlays', hend'⟩ := hplain.put hlays hpos hcolumn hwrap' c
    rw [hprint]
    exact ⟨⟨hplain', hlays', hfits.newest _⟩, hend'.column, hend'.needsWrap⟩

end Steps

end Screen

end ShellTranscript
