import Mathlib.Tactic.Common
import ShellTranscript.Proofs.Screen.Cells
import ShellTranscript.Proofs.Screen.Stable

-- What stands in cells. Whatever is read and however the size changes, every cell of both grids holds
-- a character that takes a cell, or a control character, and the characters on it take none.
namespace ShellTranscript

open Text

structure Cell.Formed (c : Cell) : Prop where
  char : cellWidth? c.char ≠ some 0
  marks : ∀ mark ∈ c.marks, cellWidth? mark = some 0

theorem Cell.formed_of_char {c : Char} (hc : cellWidth? c ≠ some 0) (pen : Pen) (kind : CellKind)
    (wrapped : Bool) : Cell.Formed { char := c, pen, kind, wrapped } :=
  ⟨hc, fun _ hmark => absurd hmark List.not_mem_nil⟩

theorem Cell.lasts_formed : Cell.Lasts Cell.Formed where
  blank pen kind wrapped := formed_of_char Screen.cellWidth?_space pen kind wrapped
  kind _ _ h := ⟨h.char, h.marks⟩
  wrapped _ _ h := ⟨h.char, h.marks⟩

-- No character set draws a character as one without width.
theorem Charset.cellWidth?_map (set : Charset) {c : Char} (h : cellWidth? c ≠ some 0) :
    cellWidth? (set.map c) ≠ some 0 := by
  cases set with
  | ascii => exact h
  | lineDrawing =>
    have hdrawn : ∀ drawing ∈ drawings, cellWidth? (Char.ofNat drawing.2) ≠ some 0 := by
      decide +kernel
    rw [Charset.map]
    cases hlookup : drawings.lookup c with
    | none => exact h
    | some code =>
      obtain ⟨before, after, hdrawings, -⟩ := List.lookup_eq_some_iff.mp hlookup
      exact hdrawn (c, code) (hdrawings ▸ List.mem_append_right before List.mem_cons_self)

namespace Screen

structure Formed (s : Screen) : Prop where
  grid : s.grid.Every Cell.Formed
  other : s.other.Every Cell.Formed

section Keeping

variable {s s' : Screen}

theorem formed_new (columns lines limit : Nat) : (new columns lines limit).Formed :=
  ⟨Grid.every_new Cell.lasts_formed columns lines limit,
    Grid.every_new Cell.lasts_formed columns lines 0⟩

-- Modes, tab stops, replies and the like are no cells.
theorem Formed.of_grids (h : s.Formed) (hgrid : s'.grid = s.grid) (hother : s'.other = s.other) :
    s'.Formed := ⟨hgrid ▸ h.grid, hother ▸ h.other⟩

theorem Formed.modifyGrid (h : s.Formed) {f : Grid → Grid}
    (hf : s.grid.Every Cell.Formed → (f s.grid).Every Cell.Formed) : (s.modifyGrid f).Formed :=
  ⟨hf h.grid, h.other⟩

theorem Formed.modifyCursorRow (h : s.Formed) {f : Grid → Row → Row}
    (hf : ∀ row, Row.Every Cell.Formed row → Row.Every Cell.Formed (f s.grid row)) :
    (s.modifyGrid fun g => g.modifyCursorRow (f g)).Formed :=
  ⟨h.grid.modifyRow _ hf, h.other⟩

theorem Formed.put (h : s.Formed) {c : Char} (hc : cellWidth? c ≠ some 0) (kind : CellKind) :
    (s.put c kind).Formed := by
  refine ⟨(every_freeHalves Cell.lasts_formed h.grid).modifyCell _ _ fun _ _ => ?_, h.other⟩
  exact Cell.formed_of_char (Charset.cellWidth?_map _ hc) _ _ _

theorem Formed.attach (h : s.Formed) {mark : Char} (hmark : cellWidth? mark = some 0) :
    (s.attach mark).Formed := by
  refine ⟨h.grid.modifyCell _ _ fun c hc => ⟨hc.char, fun m hm => ?_⟩, h.other⟩
  rcases List.mem_append.mp hm with hm | hm
  · exact hc.marks m hm
  · rw [List.mem_singleton.mp hm]
    exact hmark

-- The cells of the row change places.
theorem Formed.openRoom (h : s.Formed) (width : Nat) : (s.openRoom width).Formed := by
  unfold Screen.openRoom
  dsimp only
  split
  · refine h.modifyCursorRow fun row hrow => ?_
    refine ((hrow.sublist (List.take_sublist _ _)).append ?_).append
      (hrow.sublist ((List.take_sublist _ _).trans (List.drop_sublist _ _)))
    split
    · exact hrow.sublist (List.drop_sublist _ _)
    · exact (hrow.sublist (List.drop_sublist _ _)).reverse
  · exact h

theorem Formed.insertBlanks (h : s.Formed) (count : Nat) : (s.insertBlanks count).Formed :=
  h.modifyCursorRow fun _ hrow =>
    ((hrow.sublist (List.take_sublist _ _)).append
      (Row.every_replicate (Cell.lasts_formed.blank _ _ _) _)).append
        (hrow.sublist ((List.take_sublist _ _).trans (List.drop_sublist _ _)))

theorem Formed.deleteCharacters (h : s.Formed) (count : Nat) : (s.deleteCharacters count).Formed :=
  h.modifyCursorRow fun _ hrow =>
    (((hrow.sublist (List.take_sublist _ _)).append (hrow.sublist (List.drop_sublist _ _))).sublist
      (List.take_sublist _ _)).append (Row.every_replicate (Cell.lasts_formed.blank _ _ _) _)

theorem Formed.fillWithLetters (h : s.Formed) : s.fillWithLetters.Formed := by
  refine h.modifyGrid fun hgrid => ⟨hgrid.history, fun row hrow => ?_⟩
  rw [List.eq_of_mem_replicate hrow]
  exact Row.every_replicate (Cell.formed_of_char (by decide) _ _ _) _

theorem Formed.swapGrids (h : s.Formed) : s.swapGrids.Formed := by
  unfold Screen.swapGrids
  dsimp only
  split
  · exact ⟨h.other, h.grid⟩
  · have hother : ({ s.other with cursor := s.grid.cursor } : Grid).Every Cell.Formed :=
      h.other.congr rfl rfl
    exact ⟨hother.resetRows Cell.lasts_formed _ _, h.grid.congr rfl rfl⟩

theorem formed_reset (s : Screen) : s.reset.Formed := by
  unfold Screen.reset
  dsimp only
  exact (formed_new _ _ _).of_grids rfl rfl

theorem Formed.resize (h : s.Formed) (columns lines : Nat) : (s.resize columns lines).Formed := by
  unfold Screen.resize
  split
  · exact h
  · exact ⟨h.grid.resize Cell.lasts_formed _ _ _, h.other.resize Cell.lasts_formed _ _ _⟩

-- A tab is no character without width, whatever set is in use.
theorem Formed.markTab (h : s.Formed) (set : Charset) :
    (s.modifyGrid fun g => g.modifyCursorCell fun c =>
      if c.char = ' ' then { c with char := set.map '\t' } else c).Formed := by
  refine h.modifyGrid fun hgrid => hgrid.modifyCell _ _ fun c hc => ?_
  split
  · exact ⟨set.cellWidth?_map (by decide), hc.marks⟩
  · exact hc

-- Whatever is read, cells stay formed.
theorem stable_formed : Stable Formed where
  congr h hgrid hother _ _ := h.of_grids hgrid hother
  region _ _ h := h.of_grids rfl rfl
  modifyCursor _ h := ⟨h.grid.congr rfl rfl, h.other⟩
  saveCursor h := ⟨h.grid.congr rfl rfl, h.other⟩
  scrollUpFrom _ _ h := h.modifyGrid fun hgrid => hgrid.scrollUp Cell.lasts_formed _ _ _
  scrollDownFrom _ _ h := h.modifyGrid fun hgrid => hgrid.scrollDown Cell.lasts_formed _ _ _
  continueRow h := h.modifyGrid fun hgrid =>
    hgrid.modifyCell _ _ fun c hc => Cell.lasts_formed.wrapped c true hc
  markTab h := h.markTab _
  put kind hc h := h.put hc kind
  attach hmark h := h.attach hmark
  openRoom width h := h.openRoom width
  eraseCells _ _ h := h.modifyCursorRow fun _ hrow => hrow.erase Cell.lasts_formed _ _ _
  insertBlanks count h := h.insertBlanks count
  deleteCharacters count h := h.deleteCharacters count
  resetRows _ _ h := h.modifyGrid fun hgrid => hgrid.resetRows Cell.lasts_formed _ _
  clearViewport h := h.modifyGrid fun hgrid => hgrid.clearViewport Cell.lasts_formed
  clearHistory h := h.modifyGrid fun hgrid => hgrid.clearHistory
  fillWithLetters h := h.fillWithLetters
  swapGrids h := h.swapGrids
  reset _ := formed_reset _

end Keeping

end Screen

end ShellTranscript
