import Mathlib.Tactic.Common
import ShellTranscript.Proofs.Screen.Sized
import ShellTranscript.Proofs.Screen.Typing
import ShellTranscript.Snapshot

-- What a screen that shows a page renders to: the page's text. A new screen shows the empty page, and
-- so does one that is reset.
namespace ShellTranscript

open Text

namespace Row

variable {columns : Nat} {t : Text}

-- The characters of a cell that belong to the text.
def shownText (c : Cell) : Text := if c.isSpacer then [] else c.text

theorem flatMap_pieces (row : Row) : row.pieces.flatMap Prod.fst = row.textCells.flatMap shownText := by
  rw [pieces]
  induction row.textCells with
  | nil => rfl
  | cons c row ih =>
    rw [List.flatMap_cons, ← ih]
    by_cases hspacer : c.isSpacer = true
    · simp [shownText, hspacer]
    · simp [shownText, hspacer]

theorem mem_of_mem_textCells {row : Row} {c : Cell} (h : c ∈ row.textCells) : c ∈ row := by
  rw [textCells] at h
  split at h
  · exact h
  · exact List.mem_reverse.mp ((List.dropWhile_sublist _).mem (List.mem_reverse.mp h))

theorem flatMap_map_char (t : Text) :
    (t.map fun c => ({ char := c } : Cell)).flatMap shownText = t := by
  induction t with
  | nil => rfl
  | cons c t ih =>
    rw [List.map_cons, List.flatMap_cons, ih]
    rfl

theorem isWrapped_ofText : (ofText columns t).isWrapped = false := by
  rw [isWrapped]
  cases hlast : (ofText columns t).getLast? with
  | none => rfl
  | some cell =>
    exact forall_mem_ofText (P := fun c => c.wrapped = false) (fun _ => rfl) cell
      (List.mem_of_getLast? hlast)

theorem visible_ofText :
    (ofText columns t).visible = (trimSpaces t).map fun c => ({ char := c } : Cell) := by
  have hblank : ∀ (n : Nat) (row : Row), (List.replicate n ({} : Cell) ++ row).dropWhile
      (fun c => c.char == ' ') = row.dropWhile fun c => c.char == ' ' := by
    intro n row
    induction n with
    | zero => rfl
    | succ n ih => rw [List.replicate_succ, List.cons_append, List.dropWhile_cons_of_pos rfl, ih]
  rw [visible, ofText, List.reverse_append, List.reverse_replicate, hblank, ← List.map_reverse,
    List.dropWhile_map, ← List.map_reverse]
  rfl

-- A row that ends its line shows its text without the spaces at the end.
theorem flatMap_pieces_ofText :
    (ofText columns t).pieces.flatMap Prod.fst = trimSpaces t := by
  rw [flatMap_pieces, textCells, isWrapped_ofText, if_neg (by simp), visible_ofText,
    flatMap_map_char]

-- A full row that is continued shows all of its text.
theorem isWrapped_and_flatMap_pieces (hpos : 0 < columns) (hfull : t.length = columns) :
    ((ofText columns t).setWrapped true).isWrapped = true ∧
      ((ofText columns t).setWrapped true).pieces.flatMap Prod.fst = t := by
  rcases List.eq_nil_or_concat t with rfl | ⟨front, c, hc⟩
  · rw [List.length_nil] at hfull
    omega
  obtain rfl : t = front ++ [c] := hc.trans List.concat_eq_append
  have hrow : ofText columns (front ++ [c]) =
      front.map (fun c => ({ char := c } : Cell)) ++ [{ char := c }] := by
    rw [ofText, hfull, Nat.sub_self, List.replicate_zero, List.append_nil, List.map_append]
    rfl
  have hwrapped : (ofText columns (front ++ [c])).setWrapped true =
      front.map (fun c => ({ char := c } : Cell)) ++ [{ char := c, wrapped := true }] := by
    have hmodify := modify_append_cons (front.map fun c => ({ char := c } : Cell)) [] { char := c }
      fun cell => { cell with wrapped := true }
    rw [setWrapped, modifyLast, hrow, List.length_append, List.length_singleton,
      Nat.add_sub_cancel]
    exact hmodify
  have hlast : ((ofText columns (front ++ [c])).setWrapped true).isWrapped = true := by
    rw [hwrapped, isWrapped, List.getLast?_concat]
    rfl
  refine ⟨hlast, ?_⟩
  rw [flatMap_pieces, textCells, hlast, if_pos rfl, hwrapped, List.flatMap_append, flatMap_map_char]
  rfl

end Row

namespace Screen

variable {s : Screen} {size : ScreenSize} {limit : Nat} {p : Page}

theorem piecesOfRows_cons (row : Row) {rest : List Row} (h : rest ≠ []) : piecesOfRows (row :: rest) =
    row.pieces ++ (if row.isWrapped then [] else [(['\n'], ({} : Appearance))]) ++ piecesOfRows rest := by
  cases rest with
  | nil => exact absurd rfl h
  | cons next rest => rfl

-- A row above the last one shows what it adds to the page's text.
theorem flatMap_pieces_pageRow {columns : Nat} (hpos : 0 < columns) {row : Text × Bool}
    (h : row.2 = true → row.1.length = columns) :
    ((pageRow columns row).pieces ++
      (if (pageRow columns row).isWrapped then [] else [(['\n'], ({} : Appearance))])).flatMap Prod.fst =
        Page.rowText row := by
  obtain ⟨t, continued⟩ := row
  cases continued with
  | true =>
    obtain ⟨hwrapped, hpieces⟩ := Row.isWrapped_and_flatMap_pieces hpos (h rfl)
    simp only [pageRow, if_true, hwrapped, List.append_nil, hpieces, Page.rowText]
  | false =>
    simp only [pageRow, Bool.false_eq_true, if_false, Row.isWrapped_ofText, List.flatMap_append,
      Row.flatMap_pieces_ofText, Page.rowText]
    rfl

theorem flatMap_piecesOfRows {columns : Nat} (hpos : 0 < columns) {above : List (Text × Bool)}
    (h : ∀ row ∈ above, row.2 = true → row.1.length = columns) (last : Text) :
    (piecesOfRows (pageRows columns { above, last })).flatMap Prod.fst =
      above.flatMap Page.rowText ++ trimSpaces last := by
  induction above with
  | nil => exact Row.flatMap_pieces_ofText
  | cons row above ih =>
    have hrest := ih fun r hr => h r (List.mem_cons_of_mem _ hr)
    have hrow := flatMap_pieces_pageRow hpos (h row List.mem_cons_self)
    have hcons : pageRows columns { above := row :: above, last } =
        pageRow columns row :: pageRows columns { above, last } := rfl
    rw [hcons, piecesOfRows_cons _ (by simp [pageRows]), List.flatMap_append, hrow, hrest,
      List.flatMap_cons, List.append_assoc]

-- Only the rows down to the cursor's are shown.
theorem Shows.shownRows (h : s.Shows size limit p) : s.shownRows = pageRows size.columns p := by
  have hbelow := h.lays.below
  have hblank : ((Row.ofText s.grid.columns []).visible.isEmpty) = true := by
    rw [Row.visible_ofText]
    rfl
  rw [Screen.shownRows, hbelow, List.reverse_replicate, List.dropWhile_replicate, hblank]
  exact h.lays.above

theorem Shows.plainText (h : s.Shows size limit p) (hpos : 0 < size.columns) :
    s.plainText = p.text := by
  have hrows := flatMap_piecesOfRows hpos (fun row hrow => (h.fits.above row hrow).2) p.last
  rw [Screen.plainText, render, h.shownRows]
  exact hrows

-- Without combining characters, the characters of cells are all of their text.
theorem charsOf_eq_flatMap {row : Row} (h : ∀ c ∈ row, c.marks = []) :
    charsOf row = row.flatMap Row.shownText := by
  induction row with
  | nil => rfl
  | cons c row ih =>
    have hrest := ih fun d hd => h d (List.mem_cons_of_mem _ hd)
    have hmarks := h c List.mem_cons_self
    rw [List.flatMap_cons, ← hrest]
    by_cases hspacer : c.isSpacer = true
    · simp [charsOf, Row.shownText, hspacer]
    · simp [charsOf, Row.shownText, hspacer, Cell.text, hmarks]

-- Behind a full row the cursor stands on the last cell, whose character is not counted.
theorem Shows.textToCursor (h : s.Shows size limit p) (hend : s.AtEnd size.columns p)
    (hpos : 0 < size.columns) :
    s.textToCursor = p.textAbove ++ p.last.take (size.columns - 1) := by
  obtain ⟨upper, hrows, hlength, habove⟩ := h.lays.exists_upper
  have htake : s.grid.rows.take s.grid.cursor.line = upper := by
    rw [hrows, ← hlength, List.take_left]
  have hlines : (p.above.map (pageRow size.columns)).flatMap
      (fun row => charsOf row.textCells ++ if row.isWrapped then [] else ['\n']) = p.textAbove := by
    rw [List.flatMap_map, Page.textAbove]
    refine List.flatMap_congr fun row hrow => ?_
    have hmarks : ∀ c ∈ (pageRow size.columns row).textCells, c.marks = [] := fun c hc =>
      forall_mem_pageRow (P := fun c => c.marks = []) (fun _ => rfl) (fun _ h => h) size.columns row c
        (Row.mem_of_mem_textCells hc)
    rw [← flatMap_pieces_pageRow hpos (h.fits.above row hrow).2, charsOf_eq_flatMap hmarks,
      ← Row.flatMap_pieces, List.flatMap_append]
    split <;> rfl
  have hlast : charsOf ((Row.ofText size.columns p.last).take s.grid.cursor.column) =
      p.last.take (size.columns - 1) := by
    have hcolumn : s.grid.cursor.column ≤ p.last.length := by
      rw [hend.column]
      exact Nat.min_le_left _ _
    have hfront : (Row.ofText size.columns p.last).take s.grid.cursor.column =
        (p.last.take s.grid.cursor.column).map fun c => ({ char := c } : Cell) := by
      rw [Row.ofText, List.take_append_of_le_length (by rw [List.length_map]; exact hcolumn),
        List.map_take]
    have hmarks : ∀ c ∈ (p.last.take s.grid.cursor.column).map fun c => ({ char := c } : Cell),
        c.marks = [] := by
      intro c hc
      obtain ⟨_, -, rfl⟩ := List.mem_map.mp hc
      rfl
    rw [hfront, charsOf_eq_flatMap hmarks, Row.flatMap_map_char, hend.column, Nat.min_comm,
      ← List.take_take, List.take_length]
  rw [Screen.textToCursor, htake, habove, h.lays.cursorRow, hlines, hlast]

-- With room left on the last row, it is all that was typed.
theorem Shows.textToCursor_eq_typed (h : s.Shows size limit p) (hend : s.AtEnd size.columns p)
    (hroom : p.last.length < size.columns) : s.textToCursor = p.typed := by
  have hpos : 0 < size.columns := Nat.lt_of_le_of_lt (Nat.zero_le _) hroom
  have hshort : p.last.length ≤ size.columns - 1 := Nat.le_sub_one_of_lt hroom
  rw [h.textToCursor hend hpos, List.take_of_length_le hshort, Page.typed]

-- A screen of blank rows with the cursor in its first cell.
theorem shows_blank (hplain : s.Plain size limit)
    (hrows : s.grid.rows = List.replicate size.rows (Row.blank size.columns (.named .background)))
    (hhistory : s.grid.history = []) (hline : s.grid.cursor.line = 0) (hpos : 0 < size.rows) :
    s.Shows size limit {} := by
  have hlines : s.grid.lines = size.rows := hplain.lines
  have hcolumns : s.grid.columns = size.columns := hplain.columns
  refine ⟨hplain, ⟨?_, ?_, ?_, ?_, ?_⟩, ⟨Nat.zero_le _, fun row hrow => by cases hrow⟩⟩
  · have hsplit : size.rows = size.rows - 1 - 0 + 1 := by omega
    rw [Grid.allRows, hhistory, hrows, hline, hlines, hcolumns]
    conv_lhs => rw [hsplit, List.replicate_succ]
    rfl
  · rw [hrows, List.length_replicate, hlines]
  · omega
  · rw [hhistory, hline]
    rfl
  · rw [hhistory]
    exact Nat.zero_le _

theorem shows_new (size : ScreenSize) (limit : Nat) (hpos : 0 < size.rows) :
    (Screen.new size.columns size.rows limit).Shows size limit {} :=
  shows_blank ⟨rfl, rfl, rfl, rfl, rfl, rfl, rfl, rfl⟩ rfl rfl rfl hpos

theorem rows_clearViewport {g : Grid} (hcount : g.rows.length = g.lines) (hpos : 0 < g.lines) :
    g.clearViewport.rows = List.replicate g.lines g.blankRow := by
  have hused := Grid.usedRows_le hcount hpos
  have hscrolled : (g.scrollUp 0 g.lines g.usedRows).rows =
      g.rows.drop g.usedRows ++ List.replicate g.usedRows g.blankRow := by
    rw [Grid.scrollUp, if_pos rfl]
    simp only [Grid.shiftUp, List.take_zero, List.nil_append, Nat.zero_add, ← hcount,
      List.take_length, List.drop_length, List.append_nil]
  have hkept : (g.rows.drop g.usedRows).length = g.lines - g.usedRows := by
    rw [List.length_drop, hcount]
  have hblank : (g.scrollUp 0 g.lines g.usedRows).blankRow = g.blankRow := by
    rw [Grid.scrollUp, if_pos rfl]
    rfl
  have hheight : (g.rows.drop g.usedRows ++ List.replicate g.usedRows g.blankRow).length =
      g.lines := by
    rw [List.length_append, List.length_replicate, hkept]
    omega
  have htop : min (g.lines - g.usedRows) g.lines - 0 = g.lines - g.usedRows := by omega
  have hsplit : g.lines - g.usedRows + g.usedRows = g.lines := by omega
  simp only [Grid.clearViewport, Grid.resetRows, hscrolled, hblank, hheight, htop, List.take_zero,
    List.nil_append, Nat.zero_max]
  rw [← hkept, List.drop_left, hkept, List.replicate_append_replicate, hsplit]

-- Home, and everything erased.
theorem Shows.reset (h : s.Shows size limit p) (hpos : 0 < size.rows) (hwide : 0 < size.columns) :
    (((s.moveTo 0 0).eraseScreen .whole).eraseScreen .history).Shows size limit {} ∧
      (((s.moveTo 0 0).eraseScreen .whole).eraseScreen .history).AtEnd size.columns {} := by
  have hplain := h.plain
  have hlines : s.grid.lines = size.rows := hplain.lines
  have hhome : s.moveTo 0 0 =
      s.modifyCursor fun c => { c with line := 0, column := 0, needsWrap := false } := by
    simp only [moveTo, hplain.modes, Bool.false_eq_true, if_false, Nat.zero_min, Nat.add_zero]
  have herased : ((s.moveTo 0 0).eraseScreen .whole).eraseScreen .history =
      (s.modifyCursor fun c => { c with line := 0, column := 0, needsWrap := false }).modifyGrid
        fun g => g.clearViewport.clearHistory := by
    have hmain : (s.modifyCursor fun c =>
        { c with line := 0, column := 0, needsWrap := false }).isAlternate = false :=
      hplain.isAlternate
    simp only [hhome, eraseScreen, hmain, Bool.false_eq_true, if_false]
    rfl
  have hrows := rows_clearViewport (g := (s.modifyCursor fun c =>
    { c with line := 0, column := 0, needsWrap := false }).grid) h.lays.count (by
      rw [← hlines] at hpos
      exact hpos)
  rw [herased]
  refine ⟨shows_blank ⟨hplain.columns, hplain.lines, hplain.limit, hplain.modes, hplain.top,
    hplain.bottom, hplain.pen, hplain.charset⟩ ?_ rfl rfl hpos, ?_⟩
  · have hblank : Row.blank s.grid.columns s.grid.cursor.pen.bg =
        Row.blank size.columns (.named .background) := by
      rw [hplain.pen, ← hplain.columns]
      rfl
    refine hrows.trans ?_
    rw [← hlines, ← hblank]
    rfl
  · exact atEnd_of_home hwide rfl rfl rfl

end Screen

end ShellTranscript
