import Mathlib.Tactic.Common
import ShellTranscript.Proofs.Screen.Stable

-- Sizes. Whatever is read, both grids keep their number of rows, the scrolling region stays inside
-- them, and nothing scrolls off the alternate grid into a history.
namespace ShellTranscript

namespace Grid

-- Changes that leave the sizes of a grid alone. Without room for a history there stays none.
structure SameSize (g g' : Grid) : Prop where
  lines : g'.lines = g.lines
  limit : g'.limit = g.limit
  count : g'.rows.length = g.rows.length
  history : g.limit = 0 → g.history = [] → g'.history = []

section Sizes

variable {g g' g'' : Grid}

theorem SameSize.refl (g : Grid) : g.SameSize g := ⟨rfl, rfl, rfl, fun _ h => h⟩

theorem SameSize.trans (h : g.SameSize g') (h' : g'.SameSize g'') : g.SameSize g'' :=
  ⟨h'.lines.trans h.lines, h'.limit.trans h.limit, h'.count.trans h.count,
    fun hlimit hnone => h'.history (h.limit.trans hlimit) (h.history hlimit hnone)⟩

theorem sameSize_modifyRow (g : Grid) (line : Nat) (f : Row → Row) : g.SameSize (g.modifyRow line f) :=
  ⟨rfl, rfl, List.length_modify f g.rows line, fun _ h => h⟩

theorem sameSize_resetRows (g : Grid) (start stop : Nat) : g.SameSize (g.resetRows start stop) := by
  refine ⟨rfl, rfl, ?_, fun _ h => h⟩
  simp only [resetRows, List.length_append, List.length_take, List.length_replicate,
    List.length_drop]
  omega

theorem sameSize_clearHistory (g : Grid) : g.SameSize g.clearHistory :=
  ⟨rfl, rfl, rfl, fun _ _ => rfl⟩

theorem length_shiftUp {top bottom count : Nat} (hcount : top + count ≤ bottom)
    (hbottom : bottom ≤ g.rows.length) : (g.shiftUp top bottom count).length = g.rows.length := by
  simp only [shiftUp, List.length_append, List.length_take, List.length_replicate,
    List.length_drop]
  omega

theorem length_shiftDown {top bottom count : Nat} (hcount : top + count ≤ bottom)
    (hbottom : bottom ≤ g.rows.length) :
    (g.shiftDown top bottom count).length = g.rows.length := by
  simp only [shiftDown, List.length_append, List.length_take, List.length_replicate,
    List.length_drop]
  omega

theorem sameSize_scrollUp {top bottom count : Nat} (hcount : count ≤ bottom)
    (hbottom : bottom ≤ g.rows.length) : g.SameSize (g.scrollUp top bottom count) := by
  unfold scrollUp
  split
  · refine ⟨rfl, rfl, length_shiftUp (by omega) hbottom, fun hlimit _ => ?_⟩
    simp only [hlimit, List.take_zero]
  · split
    · exact g.sameSize_resetRows top bottom
    · exact ⟨rfl, rfl, length_shiftUp (by omega) hbottom, fun _ h => h⟩

theorem sameSize_scrollDown {top bottom count : Nat} (hbottom : bottom ≤ g.rows.length) :
    g.SameSize (g.scrollDown top bottom count) := by
  unfold scrollDown
  split
  · exact g.sameSize_resetRows top bottom
  · exact ⟨rfl, rfl, length_shiftDown (by omega) hbottom, fun _ h => h⟩

theorem usedRows_le (hcount : g.rows.length = g.lines) (hpos : 0 < g.lines) :
    g.usedRows ≤ g.lines := by
  have hle := (List.dropWhile_suffix (l := g.rows.reverse) Row.isClear).length_le
  rw [List.length_reverse, hcount] at hle
  simp only [Grid.usedRows]
  split
  · exact hpos
  · exact hle

theorem sameSize_clearViewport (hcount : g.rows.length = g.lines) (hpos : 0 < g.lines) :
    g.SameSize g.clearViewport :=
  (sameSize_scrollUp (usedRows_le hcount hpos) (Nat.le_of_eq hcount.symm)).trans
    (sameSize_resetRows _ _ _)

end Sizes

end Grid

namespace Screen

-- The grid that is the alternate one, whether it is in use or not.
def alternateGrid (s : Screen) : Grid := if s.isAlternate then s.grid else s.other

structure Sized (s : Screen) (height : Nat) : Prop where
  lines : s.grid.lines = height
  count : s.grid.rows.length = height
  otherLines : s.other.lines = height
  otherCount : s.other.rows.length = height
  bottom : s.bottom ≤ height
  limit : s.alternateGrid.limit = 0
  history : s.alternateGrid.history = []

section Sizes

variable {s s' : Screen} {height : Nat}

theorem sized_new (columns height limit : Nat) : (new columns height limit).Sized height :=
  ⟨rfl, List.length_replicate, rfl, List.length_replicate, Nat.le_refl _, rfl, rfl⟩

-- Modes other than that of the alternate screen, the region as long as it stays inside, and all that
-- is not in the grids do not count.
theorem Sized.of_sameSize (h : s.Sized height) (hgrid : s.grid.SameSize s'.grid)
    (hother : s'.other = s.other) (hmode : s'.isAlternate = s.isAlternate)
    (hbottom : s'.bottom ≤ height) : s'.Sized height := by
  have halternate : s'.alternateGrid.limit = 0 ∧ s'.alternateGrid.history = [] := by
    have hlimit := h.limit
    have hhistory := h.history
    unfold alternateGrid at hlimit hhistory ⊢
    rw [hmode, hother]
    split
    · rename_i halt
      rw [if_pos halt] at hlimit hhistory
      exact ⟨hgrid.limit.trans hlimit, hgrid.history hlimit hhistory⟩
    · rename_i hmain
      rw [if_neg hmain] at hlimit hhistory
      exact ⟨hlimit, hhistory⟩
  exact ⟨hgrid.lines.trans h.lines, hgrid.count.trans h.count, hother ▸ h.otherLines,
    hother ▸ h.otherCount, hbottom, halternate.1, halternate.2⟩

theorem Sized.modifyGrid (h : s.Sized height) {f : Grid → Grid} (hf : s.grid.SameSize (f s.grid)) :
    (s.modifyGrid f).Sized height := h.of_sameSize hf rfl rfl h.bottom

theorem Sized.modifyCursor (h : s.Sized height) (f : Cursor → Cursor) :
    (s.modifyCursor f).Sized height := h.of_sameSize ⟨rfl, rfl, rfl, fun _ h => h⟩ rfl rfl h.bottom

theorem Sized.modifyCursorRow (h : s.Sized height) (f : Grid → Row → Row) :
    (s.modifyGrid fun g => g.modifyCursorRow (f g)).Sized height :=
  h.modifyGrid (s.grid.sameSize_modifyRow _ _)

theorem Sized.scrollUpFrom (h : s.Sized height) (top count : Nat) :
    (s.scrollUpFrom top count).Sized height := by
  have hbottom := h.bottom
  have hcount := h.count
  exact h.modifyGrid (Grid.sameSize_scrollUp (by omega) (by omega))

theorem Sized.scrollDownFrom (h : s.Sized height) (top count : Nat) :
    (s.scrollDownFrom top count).Sized height := by
  have hbottom := h.bottom
  have hcount := h.count
  exact h.modifyGrid (Grid.sameSize_scrollDown (by omega))

-- A region ends inside the screen.
theorem Sized.region (h : s.Sized height) (top bottom : Nat) :
    ({ s with top, bottom := min bottom s.lines } : Screen).Sized height := by
  have hlines : s.lines = height := h.lines
  exact h.of_sameSize (.refl _) rfl rfl (hlines ▸ Nat.min_le_right _ _)

theorem sameSize_modifyRowAbove (g : Grid) (f : Row → Row) : g.SameSize (modifyRowAbove g f) := by
  unfold modifyRowAbove
  split
  · refine ⟨rfl, rfl, rfl, fun _ hnone => ?_⟩
    simp only [hnone, List.modify_nil]
  · exact g.sameSize_modifyRow _ _

theorem sameSize_freeHalves (g : Grid) : g.SameSize (freeHalves g) := by
  have hother : ∀ line column : Nat, g.SameSize
      (if g.cursorCell.kind = .wide ∧ column < g.columns - 1 then
        g.modifyCell line (column + 1) (Cell.withoutKind .spacer)
      else if column > 0 then g.modifyCell line (column - 1) Cell.withoutWide
      else g) := by
    intro line column
    split
    · exact g.sameSize_modifyRow _ _
    · split
      · exact g.sameSize_modifyRow _ _
      · exact .refl g
  unfold freeHalves
  dsimp only
  split
  · split
    · exact (hother _ _).trans (sameSize_modifyRowAbove _ _)
    · exact hother _ _
  · exact .refl g

theorem Sized.put (h : s.Sized height) (c : Char) (kind : CellKind) : (s.put c kind).Sized height :=
  h.of_sameSize ((sameSize_freeHalves s.grid).trans (Grid.sameSize_modifyRow _ _ _)) rfl rfl h.bottom

theorem Sized.openRoom (h : s.Sized height) (width : Nat) : (s.openRoom width).Sized height := by
  unfold Screen.openRoom
  dsimp only
  split
  · exact h.modifyCursorRow _
  · exact h

theorem Sized.clearViewport (h : s.Sized height) (hpos : 0 < height) :
    (s.modifyGrid Grid.clearViewport).Sized height :=
  h.modifyGrid (Grid.sameSize_clearViewport (h.count.trans h.lines.symm) (h.lines.symm ▸ hpos))

theorem Sized.fillWithLetters (h : s.Sized height) : s.fillWithLetters.Sized height :=
  h.modifyGrid ⟨rfl, rfl, by rw [List.length_replicate, h.lines, h.count], fun _ h => h⟩

-- The grids change places, and so do their sizes.
theorem Sized.swapGrids (h : s.Sized height) : s.swapGrids.Sized height := by
  have hlimit := h.limit
  have hhistory := h.history
  cases halternate : s.isAlternate with
  | true =>
    simp only [alternateGrid, halternate, if_true] at hlimit hhistory
    have hswapped : s.swapGrids = { s with
        grid := s.other
        other := s.grid
        modes := { s.modes with alternateScreen := !s.modes.alternateScreen } } := by
      simp only [Screen.swapGrids, halternate, if_true]
    have hmain : s.swapGrids.alternateGrid = s.grid := by
      have hmode : s.modes.alternateScreen = true := halternate
      rw [hswapped, alternateGrid, isAlternate]
      simp only [hmode, Bool.not_true, Bool.false_eq_true, if_false]
    exact ⟨hswapped ▸ h.otherLines, hswapped ▸ h.otherCount, hswapped ▸ h.lines,
      hswapped ▸ h.count, hswapped ▸ h.bottom, hmain ▸ hlimit, hmain ▸ hhistory⟩
  | false =>
    simp only [alternateGrid, halternate, Bool.false_eq_true, if_false] at hlimit hhistory
    have hswapped : s.swapGrids = { s with
        grid := ({ s.other with cursor := s.grid.cursor } : Grid).resetAll
        other := { s.grid with saved := s.grid.cursor }
        modes := { s.modes with alternateScreen := !s.modes.alternateScreen } } := by
      simp only [Screen.swapGrids, halternate, Bool.false_eq_true, if_false]
    have hsize := Grid.sameSize_resetRows { s.other with cursor := s.grid.cursor } 0 s.other.lines
    have halt : s.swapGrids.alternateGrid =
        ({ s.other with cursor := s.grid.cursor } : Grid).resetAll := by
      have hmode : s.modes.alternateScreen = false := halternate
      rw [hswapped, alternateGrid, isAlternate]
      simp only [hmode, Bool.not_false, if_true]
    refine ⟨hswapped ▸ h.otherLines, ?_, hswapped ▸ h.lines, hswapped ▸ h.count,
      hswapped ▸ h.bottom, halt ▸ hlimit, halt ▸ hhistory⟩
    rw [hswapped]
    exact hsize.count.trans h.otherCount

theorem Sized.reset (h : s.Sized height) : s.reset.Sized height := by
  have hmain : (if s.isAlternate then s.other else s.grid).lines = height := by
    split
    · exact h.otherLines
    · exact h.lines
  have hnew := sized_new (if s.isAlternate then s.other else s.grid).columns height
    (if s.isAlternate then s.other else s.grid).limit
  rw [← hmain] at hnew ⊢
  exact hnew.of_sameSize (.refl _) rfl rfl hnew.bottom

-- Nothing that is read changes the height.
theorem stable_sized (hpos : 0 < height) : Stable (Sized · height) where
  congr h hgrid hother hmode hbottom :=
    h.of_sameSize (hgrid ▸ .refl _) hother hmode (hbottom ▸ h.bottom)
  region top bottom h := h.region top bottom
  modifyCursor f h := h.modifyCursor f
  saveCursor h := h.modifyGrid ⟨rfl, rfl, rfl, fun _ h => h⟩
  scrollUpFrom top count h := h.scrollUpFrom top count
  scrollDownFrom top count h := h.scrollDownFrom top count
  continueRow h := h.modifyCursorRow _
  markTab h := h.modifyCursorRow _
  put kind _ h := h.put _ kind
  attach _ h := h.of_sameSize (Grid.sameSize_modifyRow _ _ _) rfl rfl h.bottom
  openRoom width h := h.openRoom width
  eraseCells _ _ h := h.modifyCursorRow _
  insertBlanks _ h := h.modifyCursorRow _
  deleteCharacters _ h := h.modifyCursorRow _
  resetRows start stop h := h.modifyGrid (Grid.sameSize_resetRows _ start stop)
  clearViewport h := h.clearViewport hpos
  clearHistory h := h.modifyGrid (Grid.sameSize_clearHistory _)
  fillWithLetters h := h.fillWithLetters
  swapGrids h := h.swapGrids
  reset h := h.reset

end Sizes

end Screen

end ShellTranscript
