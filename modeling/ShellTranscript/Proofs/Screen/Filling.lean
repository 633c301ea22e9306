import Mathlib.Tactic.Common
import ShellTranscript.Proofs.Screen.Lacking
import ShellTranscript.Proofs.Screen.Lines

-- Printing inside a row. A text that fits between the cursor and the end of its row moves the cursor
-- on by its cells, whatever stands there and whatever the modes, but never past the last column.
-- Where no wide character is overwritten, the row then shows it cell by cell, with a blank behind
-- each wide character.
namespace ShellTranscript

open Text

namespace Text

-- The number of cells that a text takes.
def cellCount : Text → Nat
  | [] => 0
  | c :: rest => (cellWidth? c).getD 0 + cellCount rest

-- What a row shows of a character drawn as `shown`.
def cellsOf (shown c : Char) : Text := shown :: List.replicate ((cellWidth? c).getD 1 - 1) ' '

theorem cellWidth?_cases {c : Char} (h : isControl c = false) :
    cellWidth? c = some 0 ∨ cellWidth? c = some 1 ∨ cellWidth? c = some 2 := by
  simp only [cellWidth?, h, Bool.false_eq_true, if_false]
  split_ifs <;> simp

-- A character that takes a cell takes one or two.
theorem cellWidth?_of_ne_zero {c : Char} (hcontrol : isControl c = false)
    (hzero : cellWidth? c ≠ some 0) : cellWidth? c = some 1 ∨ cellWidth? c = some 2 :=
  (cellWidth?_cases hcontrol).resolve_left hzero

theorem length_le_cellCount {t : Text} (hcontrol : ∀ c ∈ t, isControl c = false)
    (hzero : ∀ c ∈ t, cellWidth? c ≠ some 0) : t.length ≤ cellCount t := by
  induction t with
  | nil => simp [cellCount]
  | cons c t ih =>
    obtain ⟨hc, ht⟩ := List.forall_mem_cons.mp hcontrol
    obtain ⟨hc', ht'⟩ := List.forall_mem_cons.mp hzero
    have hrest := ih ht ht'
    rw [cellCount, List.length_cons]
    rcases cellWidth?_of_ne_zero hc hc' with hw | hw
    · rw [hw, Option.getD_some]
      omega
    · rw [hw, Option.getD_some]
      omega

-- Behind a wide character only blanks are shown where they were expected.
theorem prefix_blank_iff (t rest : Text) :
    t <+: ' ' :: ((t.flatMap fun c => cellsOf c c) ++ rest) ↔ ∀ d ∈ t, d = ' ' := by
  induction t with
  | nil => simp
  | cons d t ih =>
    rw [List.cons_prefix_cons, List.forall_mem_cons]
    refine and_congr_right fun hblank => ?_
    subst hblank
    exact ih

-- The cells of a text begin with the text itself as long as nothing but blanks follows a wide character.
theorem prefix_cells_iff {t : Text} (hcontrol : ∀ c ∈ t, isControl c = false)
    (hzero : ∀ c ∈ t, cellWidth? c ≠ some 0) (rest : Text) :
    t <+: (t.flatMap fun c => cellsOf c c) ++ rest ↔
      t.Pairwise fun c d => cellWidth? c = some 1 ∨ d = ' ' := by
  induction t with
  | nil => simp
  | cons c t ih =>
    obtain ⟨hc, ht⟩ := List.forall_mem_cons.mp hcontrol
    obtain ⟨hc', ht'⟩ := List.forall_mem_cons.mp hzero
    have hrest := ih ht ht'
    rw [List.pairwise_cons, ← hrest, List.flatMap_cons]
    rcases cellWidth?_of_ne_zero hc hc' with hone | htwo
    · have hcells : cellsOf c c = [c] := by rw [cellsOf, hone]; rfl
      rw [hcells, List.singleton_append, List.cons_append, List.cons_prefix_cons]
      simp [hone]
    · have hcells : cellsOf c c = [c, ' '] := by rw [cellsOf, htwo]; rfl
      rw [hcells, List.cons_append, List.cons_append, List.singleton_append, List.cons_append,
        List.cons_prefix_cons, prefix_blank_iff, and_iff_right rfl]
      refine ⟨fun hblanks => ⟨fun d hd => .inr (hblanks d hd), ?_⟩, fun h d hd => ?_⟩
      · refine hrest.mpr (List.pairwise_of_forall_mem_list fun d hd e _ => .inl ?_)
        rw [hblanks d hd]
        rfl
      · rcases h.1 d hd with hnarrow | hblank
        · rw [htwo] at hnarrow
          cases hnarrow
        · exact hblank

end Text

namespace Screen

section Cursor

variable {s : Screen} {columns place : Nat}

-- The cursor stands before the cell with this number, or on the last cell if the row is full.
structure Stands (s : Screen) (columns place : Nat) : Prop where
  size : s.columns = columns
  column : s.grid.cursor.column = min place (columns - 1)
  needsWrap : s.grid.cursor.needsWrap = (place == columns)

theorem columns_freeHalves (g : Grid) : (freeHalves g).columns = g.columns := by
  unfold freeHalves modifyRowAbove
  dsimp only
  repeat' split
  all_goals rfl

theorem cursor_put (s : Screen) (c : Char) (kind : CellKind) :
    (s.put c kind).grid.cursor = s.grid.cursor := cursor_freeHalves s.grid

theorem columns_put (s : Screen) (c : Char) (kind : CellKind) :
    (s.put c kind).columns = s.columns := columns_freeHalves s.grid

theorem cursor_openRoom (s : Screen) (width : Nat) :
    (s.openRoom width).grid.cursor = s.grid.cursor := by
  unfold openRoom
  dsimp only
  split <;> rfl

theorem columns_openRoom (s : Screen) (width : Nat) : (s.openRoom width).columns = s.columns := by
  unfold openRoom
  dsimp only
  split <;> rfl

theorem slot_openRoom (s : Screen) (width : Nat) : (s.openRoom width).slot = s.slot := by
  unfold openRoom
  dsimp only
  split <;> rfl

theorem advance_of_room (h : s.grid.cursor.column + 1 < s.columns) :
    s.advance = s.modifyCursor fun c => { c with column := c.column + 1 } := by
  simp only [advance, modifyCursor, if_pos h]

theorem advance_of_end (h : s.columns ≤ s.grid.cursor.column + 1) :
    s.advance = s.modifyCursor fun c => { c with needsWrap := true } := by
  simp only [advance, modifyCursor, if_neg (Nat.not_lt_of_le h)]

theorem stands_of_room (hwrap : s.grid.cursor.needsWrap = false)
    (hinside : s.grid.cursor.column < s.columns) : s.Stands s.columns s.grid.cursor.column := by
  refine ⟨rfl, by omega, ?_⟩
  rw [hwrap, eq_comm, beq_eq_false_iff_ne]
  omega

theorem Stands.column_of_room (h : s.Stands columns place) (hroom : place < columns) :
    s.grid.cursor.column = place := by
  rw [h.column]
  omega

theorem Stands.needsWrap_of_room (h : s.Stands columns place) (hroom : place < columns) :
    s.grid.cursor.needsWrap = false := by
  rw [h.needsWrap, beq_eq_false_iff_ne]
  omega

theorem Stands.put (h : s.Stands columns place) (c : Char) (kind : CellKind) :
    (s.put c kind).Stands columns place := by
  refine ⟨?_, ?_, ?_⟩
  · rw [columns_put, h.size]
  · rw [cursor_put, h.column]
  · rw [cursor_put, h.needsWrap]

theorem Stands.openRoom (h : s.Stands columns place) (width : Nat) :
    (s.openRoom width).Stands columns place := by
  refine ⟨?_, ?_, ?_⟩
  · rw [columns_openRoom, h.size]
  · rw [cursor_openRoom, h.column]
  · rw [cursor_openRoom, h.needsWrap]

theorem Stands.advance (h : s.Stands columns place) (hroom : place < columns) :
    s.advance.Stands columns (place + 1) := by
  have hcolumn := h.column_of_room hroom
  have hwrap := h.needsWrap_of_room hroom
  have hcolumns := h.size
  by_cases hnext : s.grid.cursor.column + 1 < s.columns
  · rw [advance_of_room hnext]
    refine ⟨hcolumns, ?_, ?_⟩
    · show s.grid.cursor.column + 1 = _
      omega
    · refine hwrap.trans ?_
      rw [eq_comm, beq_eq_false_iff_ne]
      omega
  · rw [advance_of_end (Nat.le_of_not_lt hnext)]
    refine ⟨hcolumns, ?_, ?_⟩
    · show s.grid.cursor.column = _
      omega
    · show true = _
      rw [eq_comm, beq_iff_eq]
      omega

-- Where there is room, both halves of a wide character are written one after the other.
theorem print_eq {c : Char} (hwrap : s.grid.cursor.needsWrap = false)
    (hwidth : cellWidth? c = some 1) : s.print c = ((s.openRoom 1).put c .narrow).advance := by
  simp only [Screen.print, hwidth, hwrap, Bool.false_eq_true, if_false, if_true]

theorem print_eq_wide {c : Char} (hwrap : s.grid.cursor.needsWrap = false)
    (hroom : s.grid.cursor.column + 1 < s.columns) (hwidth : cellWidth? c = some 2) :
    s.print c = ((((s.openRoom 2).put c .wide).advance).put ' ' .spacer).advance := by
  have hput : ((s.openRoom 2).put c .wide).grid.cursor.column + 1 <
      ((s.openRoom 2).put c .wide).columns := by
    rw [cursor_put, columns_put, cursor_openRoom, columns_openRoom]
    exact hroom
  have hopen : ¬ (s.openRoom 2).grid.cursor.column + 1 ≥ (s.openRoom 2).columns := by
    rw [cursor_openRoom, columns_openRoom]
    exact Nat.not_le_of_lt hroom
  rw [advance_of_room hput]
  simp only [Screen.print, hwidth, hwrap, Bool.false_eq_true, if_false, printWide, if_neg hopen]
  rfl

theorem Stands.print (h : s.Stands columns place) {c : Char} (hcontrol : isControl c = false)
    (hzero : cellWidth? c ≠ some 0) (hroom : place + (cellWidth? c).getD 0 ≤ columns) :
    (s.print c).Stands columns (place + (cellWidth? c).getD 0) := by
  rcases cellWidth?_of_ne_zero hcontrol hzero with hone | htwo
  · rw [hone, Option.getD_some] at hroom ⊢
    rw [print_eq (h.needsWrap_of_room (by omega)) hone]
    exact ((h.openRoom 1).put c .narrow).advance (by omega)
  · rw [htwo, Option.getD_some] at hroom ⊢
    have hnext : s.grid.cursor.column + 1 < s.columns := by
      rw [h.column_of_room (by omega), h.size]
      omega
    rw [print_eq_wide (h.needsWrap_of_room (by omega)) hnext htwo]
    exact ((((h.openRoom 2).put c .wide).advance (by omega)).put ' ' .spacer).advance (by omega)

-- A text that fits moves the cursor on by its cells.
theorem Stands.prints (h : s.Stands columns place) {t : Text}
    (hcontrol : ∀ c ∈ t, isControl c = false) (hzero : ∀ c ∈ t, cellWidth? c ≠ some 0)
    (hroom : place + cellCount t ≤ columns) :
    ((t.map ControlItem.print).foldl apply s).Stands columns (place + cellCount t) := by
  induction t generalizing s place with
  | nil => exact h
  | cons c t ih =>
    obtain ⟨hc, ht⟩ := List.forall_mem_cons.mp hcontrol
    obtain ⟨hc', ht'⟩ := List.forall_mem_cons.mp hzero
    rw [cellCount, ← Nat.add_assoc] at hroom ⊢
    have hprinted := h.print hc hc' (by omega)
    have happlied : (s.apply (.print c)).Stands columns (place + (cellWidth? c).getD 0) :=
      ⟨hprinted.size, hprinted.column, hprinted.needsWrap⟩
    exact ih happlied ht ht' (by omega)

theorem columns_lineFeed (s : Screen) : s.lineFeed.columns = s.columns := by
  have hscrolled : ∀ top bottom count, (s.grid.scrollUp top bottom count).columns = s.columns := by
    intro top bottom count
    unfold Grid.scrollUp
    split
    · rfl
    · split
      · rfl
      · rfl
  unfold lineFeed
  dsimp only
  split
  · exact hscrolled _ _ _
  · split
    · rfl
    · rfl

-- A wrap goes to the first column, or nowhere.
theorem wrapLine_inside (h : s.grid.cursor.column < s.columns) :
    s.wrapLine.columns = s.columns ∧ s.wrapLine.grid.cursor.column < s.columns := by
  unfold wrapLine
  dsimp only
  split
  · refine ⟨?_, Nat.zero_lt_of_lt h⟩
    split
    · exact columns_lineFeed _
    · rfl
  · exact ⟨rfl, h⟩

theorem advance_inside (h : s.grid.cursor.column < s.columns) :
    s.advance.grid.cursor.column < s.columns := by
  by_cases hnext : s.grid.cursor.column + 1 < s.columns
  · rw [advance_of_room hnext]
    exact hnext
  · rw [advance_of_end (Nat.le_of_not_lt hnext)]
    exact h

-- A character of one cell never takes the cursor past the last column.
theorem print_inside (h : s.grid.cursor.column < s.columns) {c : Char}
    (hwidth : cellWidth? c = some 1) : (s.print c).grid.cursor.column < s.columns := by
  have hwritten : ∀ s' : Screen, s'.grid.cursor.column < s'.columns →
      ((s'.openRoom 1).put c .narrow).advance.grid.cursor.column < s'.columns := by
    intro s' hinside
    have hput : ((s'.openRoom 1).put c .narrow).grid.cursor.column <
        ((s'.openRoom 1).put c .narrow).columns := by
      rw [cursor_put, columns_put, cursor_openRoom, columns_openRoom]
      exact hinside
    have hadvanced := advance_inside hput
    rw [columns_put, columns_openRoom] at hadvanced
    exact hadvanced
  simp only [Screen.print, hwidth, if_true]
  split
  · obtain ⟨hcolumns, hinside⟩ := wrapLine_inside h
    rw [← hcolumns] at hinside ⊢
    exact hwritten s.wrapLine hinside
  · exact hwritten s h

-- A text of cells that fit ends left of the cursor only where a cell of the row is left over: in the last
-- column the cursor waits on the character.
theorem le_column_prints_iff (hwrap : s.grid.cursor.needsWrap = true →
      s.grid.cursor.column + 1 = s.columns) {t : Text} (hne : t ≠ [])
    (hcontrol : ∀ c ∈ t, isControl c = false) (hzero : ∀ c ∈ t, cellWidth? c ≠ some 0)
    (hfits : s.grid.cursor.column + cellCount t ≤ s.columns) :
    s.grid.cursor.column + t.length ≤
        ((t.map ControlItem.print).foldl apply s).grid.cursor.column ↔
      s.grid.cursor.column + t.length < s.columns := by
  have hlength := length_le_cellCount hcontrol hzero
  have hpos := List.length_pos_of_ne_nil hne
  cases hpending : s.grid.cursor.needsWrap with
  | false =>
    have hstands := stands_of_room hpending (by omega)
    have hcolumn := (hstands.prints hcontrol hzero hfits).column
    omega
  | true =>
    -- The row is full already, so there is one character of one cell, and it goes elsewhere.
    have hlast := hwrap hpending
    obtain ⟨c, rfl⟩ := List.length_eq_one_iff.mp (show t.length = 1 by omega)
    have hone : cellWidth? c = some 1 := by
      have hcell := cellWidth?_of_ne_zero (hcontrol c List.mem_cons_self) (hzero c List.mem_cons_self)
      refine hcell.resolve_right fun htwo => ?_
      simp only [cellCount, htwo, Option.getD_some] at hfits
      omega
    have hinside : (s.print c).grid.cursor.column < s.columns := print_inside (by omega) hone
    have hprinted : (([c].map ControlItem.print).foldl apply s).grid.cursor.column =
        (s.print c).grid.cursor.column := rfl
    rw [hprinted, List.length_singleton]
    omega

end Cursor

section Row

variable {s : Screen} {set : Charset} {columns place : Nat} {front : Text}

-- The cursor's row shows a text before a place, and from there on no half of a wide character.
structure Filled (s : Screen) (set : Charset) (columns place : Nat) (front : Text) : Prop where
  stands : s.Stands columns place
  set : s.grid.cursor.charsets.get s.slot = set
  length : s.grid.cursorRow.length = columns
  front : (s.grid.cursorRow.take place).map Cell.char = front
  whole : ∀ cell ∈ s.grid.cursorRow.drop place, cell.kind ≠ .wide ∧ cell.kind ≠ .spacer

theorem cursorRow_modifyCursorRow {g : Grid} (h : g.cursorRow ≠ []) (f : Row → Row) :
    (g.modifyCursorRow f).cursorRow = f g.cursorRow := by
  have hrow : (g.modifyCursorRow f).cursorRow = (g.rows.modify g.cursor.line f).getD g.cursor.line [] :=
    rfl
  rw [hrow, List.getD_eq_getElem?_getD, List.getElem?_modify, Grid.cursorRow, Grid.row,
    List.getD_eq_getElem?_getD]
  rw [Grid.cursorRow, Grid.row, List.getD_eq_getElem?_getD] at h
  cases hline : g.rows[g.cursor.line]? with
  | none =>
    rw [hline] at h
    exact absurd rfl h
  | some row => simp

-- Nothing is freed where no wide character stands.
theorem Filled.freeHalves (h : s.Filled set columns place front) (hroom : place < columns) :
    freeHalves s.grid = s.grid := by
  have hcolumn := h.stands.column_of_room hroom
  have hlength : place < s.grid.cursorRow.length := h.length.symm ▸ hroom
  have hcell : s.grid.cursorCell = s.grid.cursorRow[place] := by
    rw [Grid.cursorCell, hcolumn, Row.cell, List.getD_eq_getElem?_getD,
      List.getElem?_eq_getElem hlength, Option.getD_some]
  have hmem : s.grid.cursorRow[place] ∈ s.grid.cursorRow.drop place := by
    rw [List.drop_eq_getElem_cons hlength]
    exact List.mem_cons_self
  obtain ⟨hwide, hspacer⟩ := h.whole _ hmem
  rw [Screen.freeHalves, hcell]
  simp only [hwide, hspacer, or_self, if_false]

theorem cursorRow_advance (s : Screen) : s.advance.grid.cursorRow = s.grid.cursorRow := by
  simp only [Screen.advance, modifyCursor]
  split
  · rfl
  · rfl

theorem charsets_advance (s : Screen) :
    s.advance.grid.cursor.charsets = s.grid.cursor.charsets := by
  simp only [Screen.advance, modifyCursor]
  split
  · rfl
  · rfl

-- One cell is written, and it shows the character as the set draws it.
theorem Filled.exists_cursorRow_put (h : s.Filled set columns place front) (hroom : place < columns)
    (c : Char) (kind : CellKind) : ∃ cell : Cell, cell.char = set.map c ∧
      (s.put c kind).grid.cursorRow =
        s.grid.cursorRow.take place ++ cell :: s.grid.cursorRow.drop (place + 1) := by
  have hlength : place < s.grid.cursorRow.length := h.length.symm ▸ hroom
  have hne : s.grid.cursorRow ≠ [] := List.ne_nil_of_length_pos (Nat.zero_lt_of_lt hlength)
  refine ⟨{ char := set.map c, pen := s.grid.cursor.pen, kind }, rfl, ?_⟩
  rw [Screen.put, modifyGrid, h.freeHalves hroom, Grid.modifyCursorCell, Grid.modifyCell]
  refine (cursorRow_modifyCursorRow hne _).trans ?_
  rw [h.stands.column_of_room hroom, List.modify_eq_take_cons_drop hlength, h.set]

theorem Filled.put_advance (h : s.Filled set columns place front) (hroom : place < columns)
    (c : Char) (kind : CellKind) :
    (s.put c kind).advance.Filled set columns (place + 1) (front ++ [set.map c]) := by
  obtain ⟨cell, hchar, hrow⟩ := h.exists_cursorRow_put hroom c kind
  rw [← cursorRow_advance] at hrow
  have htake : (s.grid.cursorRow.take place).length = place := by
    rw [List.length_take, h.length]
    omega
  refine ⟨(h.stands.put c kind).advance hroom, ?_, ?_, ?_, ?_⟩
  · rw [charsets_advance, cursor_put]
    exact h.set
  · rw [hrow, List.length_append, htake, List.length_cons, List.length_drop, h.length]
    omega
  · rw [hrow, List.take_append, htake, List.take_of_length_le (by omega), Nat.add_sub_cancel_left,
      List.take_succ_cons, List.take_zero, List.map_append, h.front, List.map_singleton, hchar]
  · intro other hother
    rw [hrow, List.drop_append, htake, List.drop_of_length_le (by omega), Nat.add_sub_cancel_left,
      List.nil_append, List.drop_succ_cons, List.drop_zero, ← List.drop_drop] at hother
    exact h.whole other (List.mem_of_mem_drop hother)

-- The cells behind a place change places, and as many are left.
theorem exists_moved {row : Row} {width : Nat} (hlength : row.length = columns)
    (hroom : place + width < columns) (turned : Prop) [Decidable turned] :
    ∃ moved : Row, row.take place ++
          (if turned then row.drop (columns - width) else (row.drop (columns - width)).reverse) ++
          (row.drop place).take (columns - width - place) = row.take place ++ moved ∧
      moved.length = columns - place ∧ ∀ cell ∈ moved, cell ∈ row.drop place := by
  have hlast : row.drop (columns - width) = (row.drop place).drop (columns - width - place) := by
    rw [List.drop_drop]
    congr 1
    omega
  refine ⟨_, List.append_assoc .., ?_, fun cell hcell => ?_⟩
  · have hcount : (row.drop (columns - width)).length = width := by
      rw [List.length_drop, hlength]
      omega
    rw [List.length_append, apply_ite List.length, List.length_reverse, ite_self, hcount,
      List.length_take, List.length_drop, hlength]
    omega
  · rcases List.mem_append.mp hcell with hcell | hcell
    · refine List.mem_of_mem_drop (i := columns - width - place) ?_
      rw [← hlast]
      split at hcell
      · exact hcell
      · exact List.mem_reverse.mp hcell
    · exact List.mem_of_mem_take hcell

theorem Filled.openRoom (h : s.Filled set columns place front) (hroom : place < columns)
    (width : Nat) : (s.openRoom width).Filled set columns place front := by
  have hcolumn := h.stands.column_of_room hroom
  have hsize : s.grid.columns = columns := h.stands.size
  by_cases hinsert : s.modes.insert ∧ s.grid.cursor.column + width < s.columns
  · have hstands := h.stands.openRoom width
    have hnext : place + width < columns := by
      have hroom' := hinsert.2
      rwa [hcolumn, h.stands.size] at hroom'
    have hne : s.grid.cursorRow ≠ [] :=
      List.ne_nil_of_length_pos (h.length.symm ▸ Nat.zero_lt_of_lt hroom)
    obtain ⟨moved, hmoved, hlength, hmem⟩ :=
      exists_moved h.length hnext ((columns - place) % width = 0)
    have hrow : (s.openRoom width).grid.cursorRow = s.grid.cursorRow.take place ++ moved := by
      rw [Screen.openRoom]
      dsimp only
      rw [if_pos hinsert, ← hmoved]
      refine (cursorRow_modifyCursorRow hne _).trans ?_
      rw [hcolumn, hsize]
    have htake : (s.grid.cursorRow.take place).length = place := by
      rw [List.length_take, h.length]
      omega
    refine ⟨hstands, ?_, ?_, ?_, fun cell hcell => ?_⟩
    · rw [cursor_openRoom, slot_openRoom]
      exact h.set
    · rw [hrow, List.length_append, htake, hlength]
      omega
    · rw [hrow, List.take_left' htake]
      exact h.front
    · rw [hrow, List.drop_left' htake] at hcell
      exact h.whole cell (hmem cell hcell)
  · have hsame : s.openRoom width = s := if_neg hinsert
    rw [hsame]
    exact h

theorem Filled.print (h : s.Filled set columns place front) {c : Char}
    (hcontrol : isControl c = false) (hzero : cellWidth? c ≠ some 0)
    (hroom : place + (cellWidth? c).getD 0 ≤ columns) :
    (s.print c).Filled set columns (place + (cellWidth? c).getD 0)
      (front ++ cellsOf (set.map c) c) := by
  rcases cellWidth?_of_ne_zero hcontrol hzero with hone | htwo
  · rw [hone, Option.getD_some] at hroom ⊢
    rw [print_eq (h.stands.needsWrap_of_room (by omega)) hone, cellsOf, hone]
    exact (h.openRoom (by omega) 1).put_advance (by omega) c .narrow
  · rw [htwo, Option.getD_some] at hroom ⊢
    have hnext : s.grid.cursor.column + 1 < s.columns := by
      rw [h.stands.column_of_room (by omega), h.stands.size]
      omega
    have hfirst := (h.openRoom (by omega) 2).put_advance (by omega) c .wide
    have hsecond := hfirst.put_advance (by omega) ' ' .spacer
    rw [(Charset.map_blank set).1, List.append_assoc] at hsecond
    rw [print_eq_wide (h.stands.needsWrap_of_room (by omega)) hnext htwo, cellsOf, htwo]
    exact hsecond

-- A text that fits is shown behind what was there, if its characters are drawn as themselves.
theorem Filled.prints (h : s.Filled set columns place front) {t : Text}
    (hcontrol : ∀ c ∈ t, isControl c = false) (hzero : ∀ c ∈ t, cellWidth? c ≠ some 0)
    (hdrawn : ∀ c ∈ t, set.map c = c) (hroom : place + cellCount t ≤ columns) :
    ((t.map ControlItem.print).foldl apply s).Filled set columns (place + cellCount t)
      (front ++ t.flatMap fun c => cellsOf c c) := by
  induction t generalizing s place front with
  | nil => simpa [cellCount] using h
  | cons c t ih =>
    obtain ⟨hc, ht⟩ := List.forall_mem_cons.mp hcontrol
    obtain ⟨hc', ht'⟩ := List.forall_mem_cons.mp hzero
    obtain ⟨hdrawn', hrest⟩ := List.forall_mem_cons.mp hdrawn
    rw [cellCount, ← Nat.add_assoc] at hroom ⊢
    have hprinted := h.print hc hc' (by omega)
    rw [hdrawn'] at hprinted
    have happlied : (s.apply (.print c)).Filled set columns (place + (cellWidth? c).getD 0)
        (front ++ cellsOf c c) :=
      ⟨⟨hprinted.stands.size, hprinted.stands.column, hprinted.stands.needsWrap⟩, hprinted.set,
        hprinted.length, hprinted.front, hprinted.whole⟩
    rw [List.flatMap_cons, ← List.append_assoc]
    exact ih happlied ht ht' hrest (by omega)

-- A row that a text can be written into as it is: none of its cells is a wide character's, and the
-- character set draws every character as itself.
structure Open (s : Screen) (t : Text) : Prop where
  length : s.grid.cursorRow.length = s.columns
  whole : ∀ cell ∈ s.grid.cursorRow.drop s.grid.cursor.column, cell.kind ≠ .wide ∧ cell.kind ≠ .spacer
  drawn : ∀ c ∈ t, (s.grid.cursor.charsets.get s.slot).map c = c

theorem Open.exists_drop_prints {t : Text} (h : s.Open t)
    (hwrap : s.grid.cursor.needsWrap = false) (hinside : s.grid.cursor.column < s.columns)
    (hcontrol : ∀ c ∈ t, isControl c = false) (hzero : ∀ c ∈ t, cellWidth? c ≠ some 0)
    (hfits : s.grid.cursor.column + cellCount t ≤ s.columns) :
    ∃ rest, (((t.map ControlItem.print).foldl apply s).cursorLine.1).drop s.grid.cursor.column =
      (t.flatMap fun c => cellsOf c c) ++ rest := by
  have hfilled : s.Filled (s.grid.cursor.charsets.get s.slot) s.columns s.grid.cursor.column
      ((s.grid.cursorRow.take s.grid.cursor.column).map Cell.char) :=
    ⟨stands_of_room hwrap hinside, rfl, h.length, rfl, h.whole⟩
  have hprinted := hfilled.prints hcontrol hzero h.drawn hfits
  generalize (t.map ControlItem.print).foldl apply s = s' at hprinted ⊢
  refine ⟨(s'.grid.cursorRow.drop (s.grid.cursor.column + cellCount t)).map Cell.char, ?_⟩
  have hfront : ((s.grid.cursorRow.take s.grid.cursor.column).map Cell.char).length =
      s.grid.cursor.column := by
    rw [List.length_map, List.length_take, h.length]
    omega
  rw [cursorLine, ← List.take_append_drop (s.grid.cursor.column + cellCount t) s'.grid.cursorRow,
    List.map_append, hprinted.front, List.append_assoc, List.drop_left' hfront,
    List.take_append_drop]

end Row

end Screen

end ShellTranscript
