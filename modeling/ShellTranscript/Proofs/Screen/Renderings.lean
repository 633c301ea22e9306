import Mathlib.Data.List.DropRight
import Mathlib.Data.List.Infix
import Mathlib.Tactic.Common
import ShellTranscript.Proofs.Sampler.Watched
import ShellTranscript.Proofs.Screen.Formed
import ShellTranscript.Proofs.Screen.Shown
import ShellTranscript.Proofs.Session.Alike
import ShellTranscript.Proofs.Text.Recovery

-- The text up to the cursor against the text of the whole screen. Both run over the same cells, but
-- the first leaves the combining characters out and the second does not, so the first begins the
-- second only while no such character is left out before something that shows.
namespace ShellTranscript

open Text

namespace Row

-- The cells that have a text, which spacers do not.
def lettered (row : Row) : List Cell := row.filter fun c => !c.isSpacer

theorem flatMap_text_lettered (row : Row) :
    row.textCells.lettered.flatMap Cell.text = row.pieces.flatMap Prod.fst := by
  rw [pieces, List.flatMap_map]
  rfl

-- The cells up to a column belong to the text, but for spaces at the end.
theorem exists_take (row : Row) (column : Nat) : ∃ front gap : List Cell,
    row.take column = front ++ gap ∧ front <+: row.textCells ∧ ∀ c ∈ gap, c.char = ' ' := by
  by_cases hwrapped : row.isWrapped = true
  · refine ⟨row.take column, [], (List.append_nil _).symm, ?_, fun c hc => absurd hc List.not_mem_nil⟩
    rw [textCells, if_pos hwrapped]
    exact List.take_prefix _ _
  · have hsplit : row.visible ++ row.rtakeWhile (fun c => c.char == ' ') = row :=
      List.rdropWhile_append_rtakeWhile
    have htake := (congrArg (List.take column) hsplit.symm).trans List.take_append
    refine ⟨row.visible.take column, _, htake, ?_, fun c hc => ?_⟩
    · rw [textCells, if_neg hwrapped]
      exact List.take_prefix _ _
    · have hspace := List.mem_rtakeWhile_imp (p := fun c : Cell => c.char == ' ')
        (List.mem_of_mem_take hc)
      exact beq_iff_eq.mp hspace

end Row

namespace Cell

-- The characters of formed cells begin their text as far as there are no combining characters: the
-- first of these is no character of a cell.
theorem map_char_prefix_iff {cells : List Cell} (h : ∀ c ∈ cells, c.Formed) (rest : Text) :
    cells.map Cell.char <+: cells.flatMap Cell.text ++ rest ↔
      ∀ c ∈ cells.dropLast, c.marks = [] := by
  induction cells with
  | nil => exact iff_of_true (List.nil_prefix) fun c hc => absurd hc List.not_mem_nil
  | cons c cells ih =>
    cases cells with
    | nil =>
      refine iff_of_true ⟨c.marks ++ rest, ?_⟩ fun c hc => absurd hc List.not_mem_nil
      simp [Cell.text]
    | cons next cells =>
      obtain ⟨hc, hcells⟩ := List.forall_mem_cons.mp h
      have htext : (c :: next :: cells).flatMap Cell.text ++ rest =
          c.char :: (c.marks ++ ((next :: cells).flatMap Cell.text ++ rest)) := by
        rw [List.flatMap_cons, Cell.text, List.cons_append, List.cons_append, List.append_assoc]
      rw [List.map_cons, htext, List.cons_prefix_cons, and_iff_right rfl, List.dropLast_cons_cons,
        List.forall_mem_cons]
      cases hmarks : c.marks with
      | nil =>
        rw [List.nil_append, and_iff_right rfl]
        exact ih hcells
      | cons mark marks =>
        have hmark : cellWidth? mark = some 0 := hc.marks mark (hmarks ▸ List.mem_cons_self)
        have hnext : next.char ≠ mark := fun hsame =>
          (hcells next List.mem_cons_self).char (hsame ▸ hmark)
        rw [List.map_cons, List.cons_append, List.cons_prefix_cons]
        exact iff_of_false (fun h => hnext h.1) fun h => List.cons_ne_nil _ _ h.1

-- Only blanks stand behind a cell with combining characters.
def MarksEnd (cells : List Cell) : Prop :=
  cells.Pairwise fun earlier later => earlier.marks = [] ∨ isBlank later.char = true

instance (cells : List Cell) : Decidable (MarksEnd cells) :=
  inferInstanceAs (Decidable (cells.Pairwise fun _ _ => _ ∨ _))

theorem marksEnd_append_iff {kept blanks : List Cell}
    (hkept : ∀ c, kept.getLast? = some c → isBlank c.char = false)
    (hblanks : ∀ c ∈ blanks, isBlank c.char = true) :
    MarksEnd (kept ++ blanks) ↔ ∀ c ∈ kept.dropLast, c.marks = [] := by
  have hbehind : MarksEnd (kept ++ blanks) ↔ MarksEnd kept := by
    refine List.pairwise_append.trans ⟨fun h => h.1, fun h => ⟨h, ?_, ?_⟩⟩
    · exact List.pairwise_of_forall_mem_list fun _ _ later hlater => Or.inr (hblanks later hlater)
    · exact fun _ _ later hlater => Or.inr (hblanks later hlater)
  rw [hbehind]
  rcases List.eq_nil_or_concat kept with rfl | ⟨front, last, hconcat⟩
  · exact iff_of_true List.Pairwise.nil fun c hc => absurd hc List.not_mem_nil
  · obtain rfl : kept = front ++ [last] := hconcat.trans List.concat_eq_append
    have hlast : isBlank last.char = false := hkept last List.getLast?_concat
    rw [List.dropLast_concat, MarksEnd, List.pairwise_append]
    constructor
    · intro h c hc
      rcases h.2.2 c hc last List.mem_cons_self with hnone | hblank
      · exact hnone
      · exact absurd hblank (by rw [hlast]; exact Bool.false_ne_true)
    · intro h
      refine ⟨?_, List.pairwise_singleton _ _, fun c hc _ _ => Or.inl (h c hc)⟩
      exact List.pairwise_of_forall_mem_list fun c hc _ _ => Or.inl (h c hc)

theorem exists_kept (cells : List Cell) : ∃ kept blanks : List Cell, cells = kept ++ blanks ∧
    (∀ c ∈ blanks, isBlank c.char = true) ∧
      ∀ c, kept.getLast? = some c → isBlank c.char = false := by
  let p := fun c : Cell => isBlank c.char
  refine ⟨cells.rdropWhile p, cells.rtakeWhile p, List.rdropWhile_append_rtakeWhile.symm,
    fun c hc => List.mem_rtakeWhile_imp (p := p) hc, fun c hc => ?_⟩
  obtain ⟨hne, rfl⟩ := List.mem_getLast?_eq_getLast hc
  exact Bool.eq_false_iff.mpr (List.rdropWhile_last_not p cells hne)

end Cell

-- A line feed at the end makes no difference to what ends in something that shows.
theorem prefix_concat_lineFeed {kept t : Text}
    (h : ∀ c, kept.getLast? = some c → isBlank c = false) :
    kept <+: t ++ ['\n'] ↔ kept <+: t := by
  rw [List.prefix_concat_iff]
  refine or_iff_right fun hwhole => ?_
  have hblank := h '\n' (hwhole ▸ List.getLast?_concat)
  exact absurd hblank (by decide)

namespace Screen

-- What a row adds to a text: its cells, and a line feed if it ends its line.
def lineCells (row : Row) : List Cell :=
  row.textCells.lettered ++ if row.isWrapped then [] else [{ char := '\n' }]

def rowsAbove (s : Screen) : List Row :=
  s.grid.history.reverse ++ s.grid.rows.take s.grid.cursor.line

-- The cells of the text up to the cursor, with their combining characters.
def cellsToCursor (s : Screen) : List Cell :=
  s.rowsAbove.flatMap lineCells ++ Row.lettered (s.grid.cursorRow.take s.grid.cursor.column)

theorem textToCursor_eq_map (s : Screen) : s.textToCursor = s.cellsToCursor.map Cell.char := by
  rw [cellsToCursor, List.map_append, List.map_flatMap]
  refine congrArg (· ++ _) (List.flatMap_congr fun row _ => ?_)
  rw [lineCells, List.map_append]
  refine congrArg (_ ++ ·) ?_
  split <;> rfl

theorem flatMap_text_lineCells (row : Row) : (lineCells row).flatMap Cell.text =
    (row.pieces ++ if row.isWrapped then [] else [(['\n'], ({} : Appearance))]).flatMap Prod.fst := by
  rw [lineCells, List.flatMap_append, List.flatMap_append, Row.flatMap_text_lettered]
  split <;> rfl

theorem flatMap_piecesOfRows_append (above : List Row) {below : List Row} (hne : below ≠ []) :
    (piecesOfRows (above ++ below)).flatMap Prod.fst =
      (above.flatMap lineCells).flatMap Cell.text ++ (piecesOfRows below).flatMap Prod.fst := by
  induction above with
  | nil => rfl
  | cons row above ih =>
    rw [List.cons_append, piecesOfRows_cons _ (List.append_ne_nil_of_right_ne_nil _ hne),
      List.flatMap_append, ih, ← flatMap_text_lineCells, List.flatMap_cons, List.flatMap_append,
      List.append_assoc]

theorem isPrefix_pieces (row : Row) (below : List Row) :
    row.pieces <+: piecesOfRows (row :: below) := by
  cases below with
  | nil => exact List.prefix_rfl
  | cons next below =>
    rw [piecesOfRows_cons _ (List.cons_ne_nil _ _), List.append_assoc]
    exact List.prefix_append _ _

-- The text of all rows has no line feed at its end.
theorem isPrefix_flatMap_lineCells (rows : List Row) :
    (rows.flatMap lineCells).flatMap Cell.text <+:
      (piecesOfRows rows).flatMap Prod.fst ++ ['\n'] := by
  rcases List.eq_nil_or_concat rows with rfl | ⟨above, row, hconcat⟩
  · exact List.nil_prefix
  · obtain rfl : rows = above ++ [row] := hconcat.trans List.concat_eq_append
    rw [flatMap_piecesOfRows_append above (List.cons_ne_nil _ _), List.flatMap_append,
      List.flatMap_append, List.flatMap_singleton, flatMap_text_lineCells, List.flatMap_append,
      List.append_assoc]
    refine (List.prefix_append_right_inj _).mpr ((List.prefix_append_right_inj _).mpr ?_)
    split
    · exact List.nil_prefix
    · exact List.prefix_rfl

-- The cells up to the cursor are those of the plain text, but for spaces before the cursor.
theorem exists_shown (s : Screen) : ∃ shown gap : List Cell, s.cellsToCursor = shown ++ gap ∧
    (∀ c ∈ gap, c.char = ' ') ∧ shown.flatMap Cell.text <+: s.plainText ++ ['\n'] := by
  cases hrow : s.grid.rows[s.grid.cursor.line]? with
  | none =>
    have hend := List.getElem?_eq_none_iff.mp hrow
    have hcursor : s.grid.cursorRow = [] := by
      rw [Grid.cursorRow, Grid.row, List.getD_eq_getElem?_getD, hrow]
      rfl
    have hshown : s.shownRows = s.rowsAbove := by
      rw [Screen.shownRows, rowsAbove, List.take_of_length_le (by omega), List.take_of_length_le hend]
    refine ⟨s.rowsAbove.flatMap lineCells, [], ?_, fun c hc => absurd hc List.not_mem_nil, ?_⟩
    · rw [cellsToCursor, hcursor, List.take_nil]
      rfl
    · rw [Screen.plainText, render, hshown]
      exact isPrefix_flatMap_lineCells _
  | some row =>
    obtain ⟨hline, hget⟩ := List.getElem?_eq_some_iff.mp hrow
    have hcursor : s.grid.cursorRow = row := by
      rw [Grid.cursorRow, Grid.row, List.getD_eq_getElem?_getD, hrow]
      rfl
    obtain ⟨below, hshown⟩ : ∃ below, s.shownRows = s.rowsAbove ++ row :: below := by
      rw [Screen.shownRows, rowsAbove, Nat.add_assoc, List.take_add, List.drop_eq_getElem_cons hline,
        hget, Nat.add_comm 1, List.take_succ_cons, ← List.append_assoc]
      exact ⟨_, rfl⟩
    obtain ⟨front, gap, htake, hfront, hgap⟩ := row.exists_take s.grid.cursor.column
    refine ⟨s.rowsAbove.flatMap lineCells ++ Row.lettered front, Row.lettered gap, ?_,
      fun c hc => hgap c (List.mem_of_mem_filter hc), ?_⟩
    · rw [cellsToCursor, hcursor, htake, List.append_assoc]
      exact congrArg (_ ++ ·) (List.filter_append ..)
    · have hpieces : (Row.lettered front).flatMap Cell.text <+: row.pieces.flatMap Prod.fst := by
        rw [← Row.flatMap_text_lettered]
        exact List.IsPrefix.flatMap (hfront.filter _) _
      have hrest := hpieces.trans (List.IsPrefix.flatMap (isPrefix_pieces row below) Prod.fst)
      rw [Screen.plainText, render, hshown, List.flatMap_append]
      dsimp only
      rw [flatMap_piecesOfRows_append _ (List.cons_ne_nil _ _)]
      exact ((List.prefix_append_right_inj _).mpr hrest).trans (List.prefix_append _ _)

variable {s : Screen}

theorem Formed.cellsToCursor (h : s.Formed) : ∀ c ∈ s.cellsToCursor, c.Formed := by
  have habove : ∀ row ∈ s.rowsAbove, Row.Every Cell.Formed row := fun row hrow =>
    h.grid.allRows row (List.mem_append.mpr ((List.mem_append.mp hrow).imp_right List.mem_of_mem_take))
  intro c hc
  rcases List.mem_append.mp hc with hc | hc
  · obtain ⟨row, hrow, hc⟩ := List.mem_flatMap.mp hc
    rcases List.mem_append.mp hc with hc | hc
    · exact habove row hrow c (Row.mem_of_mem_textCells (List.mem_of_mem_filter hc))
    · split at hc
      · exact absurd hc List.not_mem_nil
      · rw [List.mem_singleton.mp hc]
        exact Cell.formed_of_char (by decide) _ _ _
  · exact h.grid.row _ c (List.mem_of_mem_take (List.mem_of_mem_filter hc))

-- Without the blanks at its end, the text up to the cursor begins the plain text exactly if no
-- character left out stands before one that is kept.
theorem Formed.textToCursor_prefix_plainText (h : s.Formed) :
    trimEnd s.textToCursor <+: s.plainText ↔ Cell.MarksEnd s.cellsToCursor := by
  obtain ⟨shown, gap, hcells, hgap, hshown⟩ := s.exists_shown
  obtain ⟨kept, blanks, hkept, hblanks, hlast⟩ := Cell.exists_kept shown
  have hsplit : s.cellsToCursor = kept ++ (blanks ++ gap) := by
    rw [hcells, hkept, List.append_assoc]
  have hbehind : ∀ c ∈ blanks ++ gap, isBlank c.char = true := by
    intro c hc
    rcases List.mem_append.mp hc with hc | hc
    · exact hblanks c hc
    · rw [hgap c hc]
      rfl
  have hends : ∀ c, (kept.map Cell.char).getLast? = some c → isBlank c = false := by
    intro c hc
    rw [List.getLast?_map] at hc
    obtain ⟨cell, hcell, rfl⟩ := Option.map_eq_some_iff.mp hc
    exact hlast cell hcell
  have htrimmed : TrimmedEnd s.textToCursor (kept.map Cell.char) := by
    refine ⟨⟨(blanks ++ gap).map Cell.char, fun c hc => ?_, ?_⟩, hends⟩
    · obtain ⟨cell, hcell, rfl⟩ := List.mem_map.mp hc
      exact hbehind cell hcell
    · rw [textToCursor_eq_map, hsplit, List.map_append]
  have hformed : ∀ c ∈ kept, c.Formed := fun c hc =>
    h.cellsToCursor c (hsplit ▸ List.mem_append_left _ hc)
  obtain ⟨rest, hrest⟩ : kept.flatMap Cell.text <+: s.plainText ++ ['\n'] := by
    rw [hkept, List.flatMap_append] at hshown
    exact (List.prefix_append _ _).trans hshown
  calc trimEnd s.textToCursor <+: s.plainText
      ↔ kept.map Cell.char <+: s.plainText := by rw [htrimmed.trimEnd_eq]
    _ ↔ kept.map Cell.char <+: s.plainText ++ ['\n'] := (prefix_concat_lineFeed hends).symm
    _ ↔ ∀ c ∈ kept.dropLast, c.marks = [] := by rw [← hrest, Cell.map_char_prefix_iff hformed]
    _ ↔ Cell.MarksEnd s.cellsToCursor := by rw [hsplit, Cell.marksEnd_append_iff hlast hbehind]

end Screen

namespace Terminal

theorem formed_write {t : Terminal} (h : t.screen.Formed) (bytes : List UInt8) :
    (t.write bytes).screen.Formed := by
  rw [screen, write_emulator]
  exact Screen.stable_formed.feed bytes h

theorem Lived.formed {t : Terminal} (h : t.Lived) : t.screen.Formed := by
  induction h with
  | new size scrollback => exact Screen.formed_new _ _ _
  | undergo c _ ih =>
    cases c with
    | write bytes => exact formed_write ih bytes
    | clearAll => exact Screen.stable_formed.feed resetSequence ih
    | resize size => exact ih.resize _ _
    | takeReplies => exact ih.of_grids rfl rfl
    | dispose => exact ih

-- Whatever bytes were read and whatever the sizes: the text up to the cursor, without the white space
-- at its end, begins the plain text exactly if no cell with combining characters stands before one
-- that is not blank.
theorem textToCursor_prefix_iff {t : Terminal} (h : t.Lived) :
    trimEnd t.textToCursor <+: t.plainText ↔ Cell.MarksEnd t.screen.cellsToCursor :=
  h.formed.textToCursor_prefix_plainText

-- An accent on the last letter, and a space behind it.
theorem textToCursor_prefix_of_last_accent :
    trimEnd ((new (.new 5 3) 10).write (Utf8.encode ['x', 'e', '\u0301', ' '])).textToCursor <+:
      ((new (.new 5 3) 10).write (Utf8.encode ['x', 'e', '\u0301', ' '])).plainText :=
  (textToCursor_prefix_iff (.undergo (.write _) (.new _ _))).mpr (by decide +kernel)

-- An accent before a letter.
theorem textToCursor_not_prefix :
    ¬∀ t : Terminal, t.Lived → trimEnd t.textToCursor <+: t.plainText := by
  intro h
  have hprefix := h _ (.undergo (.write (Utf8.encode ['e', '\u0301', 'x'])) (.new (.new 5 3) 10))
  revert hprefix
  decide +kernel

end Terminal

end ShellTranscript
