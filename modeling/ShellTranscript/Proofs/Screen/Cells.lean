import Mathlib.Tactic.Common
import ShellTranscript.Proofs.Text.Cut
import ShellTranscript.Screen.Basic

-- What holds of all cells of a grid. Erasing, scrolling and a change of size only move cells, put in
-- blank ones and change how cells hang together, so that they keep whatever does not depend on that.
namespace ShellTranscript

open Text

-- Blanks have it, and a cell keeps it when its kind changes or whether the next row continues it.
structure Cell.Lasts (P : Cell → Prop) : Prop where
  blank : ∀ pen kind wrapped, P { pen, kind, wrapped }
  kind : ∀ c kind, P c → P { c with kind }
  wrapped : ∀ c wrapped, P c → P { c with wrapped }

def Row.Every (P : Cell → Prop) (row : Row) : Prop := ∀ c ∈ row, P c

namespace Row

variable {P : Cell → Prop} {row row' : Row}

theorem every_replicate {c : Cell} (hc : P c) (count : Nat) : Every P (List.replicate count c) := by
  intro d hd
  rw [List.eq_of_mem_replicate hd]
  exact hc

theorem every_blank (hP : Cell.Lasts P) (columns : Nat) (bg : CellColor) :
    Every P (blank columns bg) := every_replicate (hP.blank _ _ _) columns

theorem Every.sublist (h : Every P row) (hsub : row'.Sublist row) : Every P row' :=
  fun c hc => h c (hsub.mem hc)

theorem Every.append (h : Every P row) (h' : Every P row') : Every P (row ++ row') :=
  List.forall_mem_append.mpr ⟨h, h'⟩

theorem Every.reverse (h : Every P row) : Every P row.reverse :=
  fun c hc => h c (List.mem_reverse.mp hc)

theorem Every.modify (h : Every P row) (column : Nat) {f : Cell → Cell} (hf : ∀ c, P c → P (f c)) :
    Every P (row.modify column f) := forall_mem_modify column h hf

theorem Every.set {c : Cell} (h : Every P row) (hc : P c) (column : Nat) :
    Every P (row.set column c) := by
  intro d hd
  rcases List.mem_or_eq_of_mem_set hd with hd | rfl
  · exact h d hd
  · exact hc

theorem Every.setWrapped (hP : Cell.Lasts P) (h : Every P row) (wrapped : Bool) :
    Every P (row.setWrapped wrapped) := h.modify _ fun c hc => hP.wrapped c wrapped hc

theorem Every.erase (hP : Cell.Lasts P) (h : Every P row) (start stop : Nat) (bg : CellColor) :
    Every P (row.erase start stop bg) :=
  ((h.sublist (List.take_sublist _ _)).append (every_replicate (hP.blank _ _ _) _)).append
    (h.sublist (List.drop_sublist _ _))

theorem Every.cell (hP : Cell.Lasts P) (h : Every P row) (column : Nat) : P (row.cell column) := by
  rw [Row.cell, List.getD_eq_getElem?_getD]
  cases hcell : row[column]? with
  | none => exact hP.blank _ _ _
  | some c => exact h c (List.mem_of_getElem? hcell)

end Row

namespace Grid

structure Every (P : Cell → Prop) (g : Grid) : Prop where
  history : ∀ row ∈ g.history, Row.Every P row
  rows : ∀ row ∈ g.rows, Row.Every P row

section Moving

variable {P : Cell → Prop} {g g' : Grid}

theorem every_blankRow (hP : Cell.Lasts P) (g : Grid) : Row.Every P g.blankRow :=
  Row.every_blank hP _ _

theorem forall_replicate_blank (hP : Cell.Lasts P) (count columns : Nat) (bg : CellColor) :
    ∀ row ∈ List.replicate count (Row.blank columns bg), Row.Every P row := by
  intro row hrow
  rw [List.eq_of_mem_replicate hrow]
  exact Row.every_blank hP columns bg

theorem every_new (hP : Cell.Lasts P) (columns lines limit : Nat) :
    (new columns lines limit).Every P :=
  ⟨fun _ hrow => absurd hrow List.not_mem_nil, forall_replicate_blank hP lines columns _⟩

-- The cursor is no cell.
theorem Every.congr (h : g.Every P) (hhistory : g'.history = g.history) (hrows : g'.rows = g.rows) :
    g'.Every P := ⟨hhistory ▸ h.history, hrows ▸ h.rows⟩

theorem Every.row (h : g.Every P) (line : Nat) : Row.Every P (g.row line) := by
  rw [Grid.row, List.getD_eq_getElem?_getD]
  cases hrow : g.rows[line]? with
  | none => exact fun c hc => absurd hc List.not_mem_nil
  | some row => exact h.rows row (List.mem_of_getElem? hrow)

theorem Every.allRows (h : g.Every P) : ∀ row ∈ g.allRows, Row.Every P row :=
  List.forall_mem_append.mpr ⟨fun row hrow => h.history row (List.mem_reverse.mp hrow), h.rows⟩

theorem Every.modifyRow (h : g.Every P) (line : Nat) {f : Row → Row}
    (hf : ∀ row, Row.Every P row → Row.Every P (f row)) : (g.modifyRow line f).Every P :=
  ⟨h.history, forall_mem_modify line h.rows hf⟩

theorem Every.modifyCell (h : g.Every P) (line column : Nat) {f : Cell → Cell}
    (hf : ∀ c, P c → P (f c)) : (g.modifyCell line column f).Every P :=
  h.modifyRow line fun _ hrow => hrow.modify column hf

theorem Every.resetRows (hP : Cell.Lasts P) (h : g.Every P) (start stop : Nat) :
    (g.resetRows start stop).Every P := by
  refine ⟨h.history, fun row hrow => ?_⟩
  simp only [Grid.resetRows, List.mem_append] at hrow
  rcases hrow with (hrow | hrow) | hrow
  · exact h.rows row (List.mem_of_mem_take hrow)
  · exact forall_replicate_blank hP _ _ _ row hrow
  · exact h.rows row (List.mem_of_mem_drop hrow)

theorem Every.clearHistory (h : g.Every P) : g.clearHistory.Every P :=
  ⟨fun _ hrow => absurd hrow List.not_mem_nil, h.rows⟩

theorem Every.shiftUp (hP : Cell.Lasts P) (h : g.Every P) (top bottom count : Nat) :
    ∀ row ∈ g.shiftUp top bottom count, Row.Every P row := by
  intro row hrow
  simp only [Grid.shiftUp, List.mem_append] at hrow
  rcases hrow with ((hrow | hrow) | hrow) | hrow
  · exact h.rows row (List.mem_of_mem_take hrow)
  · exact h.rows row (List.mem_of_mem_take (List.mem_of_mem_drop hrow))
  · exact forall_replicate_blank hP _ _ _ row hrow
  · exact h.rows row (List.mem_of_mem_drop hrow)

theorem Every.shiftDown (hP : Cell.Lasts P) (h : g.Every P) (top bottom count : Nat) :
    ∀ row ∈ g.shiftDown top bottom count, Row.Every P row := by
  intro row hrow
  simp only [Grid.shiftDown, List.mem_append] at hrow
  rcases hrow with ((hrow | hrow) | hrow) | hrow
  · exact h.rows row (List.mem_of_mem_take hrow)
  · exact forall_replicate_blank hP _ _ _ row hrow
  · exact h.rows row (List.mem_of_mem_take (List.mem_of_mem_drop hrow))
  · exact h.rows row (List.mem_of_mem_drop hrow)

-- What scrolls off goes into the history.
theorem Every.scrollUp (hP : Cell.Lasts P) (h : g.Every P) (top bottom count : Nat) :
    (g.scrollUp top bottom count).Every P := by
  unfold Grid.scrollUp
  split
  · refine ⟨fun row hrow => ?_, h.shiftUp hP 0 bottom count⟩
    rcases List.mem_append.mp (List.mem_of_mem_take hrow) with hrow | hrow
    · exact h.rows row (List.mem_of_mem_take (List.mem_reverse.mp hrow))
    · exact h.history row hrow
  · split
    · exact h.resetRows hP top bottom
    · exact ⟨h.history, h.shiftUp hP top bottom count⟩

theorem Every.scrollDown (hP : Cell.Lasts P) (h : g.Every P) (top bottom count : Nat) :
    (g.scrollDown top bottom count).Every P := by
  unfold Grid.scrollDown
  split
  · exact h.resetRows hP top bottom
  · exact ⟨h.history, h.shiftDown hP top bottom count⟩

theorem Every.clearViewport (hP : Cell.Lasts P) (h : g.Every P) : g.clearViewport.Every P :=
  (h.scrollUp hP _ _ _).resetRows hP _ _

theorem Every.withRows {rows : List Row} (h : ∀ row ∈ rows, Row.Every P row) (g : Grid) :
    (g.withRows rows).Every P :=
  ⟨fun row hrow => h row (List.mem_of_mem_drop hrow),
    fun row hrow => h row (List.mem_of_mem_take (List.mem_reverse.mp hrow))⟩

theorem Every.growLines (hP : Cell.Lasts P) (h : g.Every P) (target : Nat) :
    (g.growLines target).Every P := by
  refine ⟨fun row hrow => h.history row (List.mem_of_mem_drop hrow), fun row hrow => ?_⟩
  simp only [Grid.growLines, List.mem_append, List.mem_reverse] at hrow
  rcases hrow with (hrow | hrow) | hrow
  · exact h.history row (List.mem_of_mem_take hrow)
  · exact h.rows row hrow
  · exact forall_replicate_blank hP _ _ _ row hrow

theorem Every.shrinkLines (hP : Cell.Lasts P) (h : g.Every P) (target : Nat) :
    (g.shrinkLines target).Every P := by
  have hscrolled : ∀ count : Nat,
      (if count > 0 then g.scrollUp 0 g.lines count else g).Every P := by
    intro count
    split
    · exact h.scrollUp hP _ _ _
    · exact h
  have hkept := hscrolled (g.cursor.line + 1 - target)
  exact ⟨hkept.history, fun row hrow => hkept.rows row (List.mem_of_mem_take hrow)⟩

theorem mem_numberedFromBottom {rows : List Row} {numbered : Nat × Row}
    (h : numbered ∈ numberedFromBottom rows) : numbered.2 ∈ rows :=
  (List.of_mem_zip (a := numbered.1) (b := numbered.2) h).2

-- A fold over the rows keeps what every step keeps, given a row.
theorem foldl_rows {α : Type} {Q : α → Prop} {f : α → Nat × Row → α} {start : α} (hstart : Q start)
    {rows : List Row} (hrows : ∀ row ∈ rows, Row.Every P row)
    (hf : ∀ s index row, Q s → Row.Every P row → Q (f s (index, row))) :
    Q ((numberedFromBottom rows).foldl f start) := by
  refine List.foldlRecOn _ f hstart fun s hs numbered hnumbered => ?_
  exact hf s numbered.1 numbered.2 hs (hrows _ (mem_numberedFromBottom hnumbered))

theorem every_openEnd (hP : Cell.Lasts P) {row : Row} (h : Row.Every P row) :
    Row.Every P (openEnd row) := by
  have hopen := h.setWrapped hP false
  unfold openEnd
  dsimp only
  split
  · exact hopen.sublist (List.dropLast_sublist _)
  · exact hopen

theorem every_pullCells (hP : Cell.Lasts P) {row : Row} (h : Row.Every P row) (free : Nat) :
    Row.Every P (pullCells row free).1 ∧ Row.Every P (pullCells row free).2.1 := by
  unfold pullCells
  dsimp only
  split
  · refine ⟨(h.sublist (List.take_sublist _ _)).append ?_, h.sublist (List.drop_sublist _ _)⟩
    exact Row.every_replicate (hP.blank _ _ _) 1
  · exact ⟨h.sublist (List.take_sublist _ _), h.sublist (List.drop_sublist _ _)⟩

theorem every_growStep (hP : Cell.Lasts P) (columns lines : Nat) (reflow : Bool) (s : Growth)
    (index : Nat) (row : Row) (h : ∀ r ∈ s.done, Row.Every P r) (hrow : Row.Every P row) :
    ∀ r ∈ (growStep columns lines reflow s (index, row)).done, Row.Every P r := by
  unfold growStep
  dsimp only
  cases hdone : s.done with
  | nil => exact List.forall_mem_singleton.mpr hrow
  | cons last rest =>
    rw [hdone] at h
    obtain ⟨hlast, hrest⟩ := List.forall_mem_cons.mp h
    have hopen := every_openEnd hP hlast
    obtain ⟨hpulled, hleft⟩ := every_pullCells hP hrow (columns - (openEnd last).length)
    have hfilled := hopen.append hpulled
    have hjoined := List.forall_mem_cons.mpr
      ⟨hleft, List.forall_mem_cons.mpr ⟨hfilled.setWrapped hP true, hrest⟩⟩
    have hended := List.forall_mem_cons.mpr ⟨hfilled, hrest⟩
    dsimp only
    split
    · exact List.forall_mem_cons.mpr ⟨hrow, h⟩
    · -- the row is joined to the one above, or used up by it
      repeat' split
      all_goals first
        | exact hended
        | exact hjoined

theorem every_settle (hP : Cell.Lasts P) (s : Growth) (columns lines : Nat)
    (h : ∀ row ∈ s.done, Row.Every P row) :
    ∀ row ∈ (s.settle columns lines).done, Row.Every P row := by
  intro row hrow
  rcases List.mem_append.mp (List.mem_of_mem_drop hrow) with hrow | hrow
  · exact forall_replicate_blank hP _ _ _ row hrow
  · exact h row hrow

theorem every_padRow (hP : Cell.Lasts P) (columns : Nat) {row : Row} (h : Row.Every P row) :
    Row.Every P (padRow columns row) := h.append (Row.every_replicate (hP.blank _ _ _) _)

theorem Every.growColumns (hP : Cell.Lasts P) (h : g.Every P) (reflow : Bool) (columns : Nat) :
    (g.growColumns reflow columns).Every P := by
  refine Every.withRows (fun row hrow => ?_) _
  obtain ⟨grown, hgrown, rfl⟩ := List.mem_map.mp hrow
  refine every_padRow hP columns (every_settle hP _ _ _ ?_ grown hgrown)
  refine foldl_rows (Q := fun s : Growth => ∀ row ∈ s.done, Row.Every P row)
    (fun _ hrow => absurd hrow List.not_mem_nil) h.allRows ?_
  exact every_growStep hP columns g.lines reflow

-- The rows that are cut, and the cells that go before the next row.
structure EveryCut (P : Cell → Prop) (s : Shrinkage) : Prop where
  done : ∀ row ∈ s.done, Row.Every P row
  carried : ∀ row ∈ s.carried, Row.Every P row

theorem EveryCut.cons {s : Shrinkage} (h : EveryCut P s) {row : Row} (hrow : Row.Every P row) :
    EveryCut P { s with done := row :: s.done } :=
  ⟨List.forall_mem_cons.mpr ⟨hrow, h.done⟩, h.carried⟩

theorem EveryCut.ite {p : Prop} [Decidable p] {s s' : Shrinkage} (h : EveryCut P s)
    (h' : EveryCut P s') : EveryCut P (if p then s else s') := by
  split
  · exact h
  · exact h'

theorem every_overhang {row : Row} (h : Row.Every P row) (columns : Nat) :
    Row.Every P (overhang columns row) :=
  ((h.sublist (List.drop_sublist _ _)).reverse.sublist (List.dropWhile_sublist _)).reverse

-- A wide character at the edge goes on with the rest.
theorem every_splitOff (hP : Cell.Lasts P) {kept excess : Row} (hkept : Row.Every P kept)
    (hexcess : Row.Every P excess) (column : Nat) (split : Bool) :
    Row.Every P (if split then kept.set column { kind := .leadingSpacer } else kept) ∧
      Row.Every P (if split then kept.cell column :: excess else excess) := by
  cases split with
  | true =>
    exact ⟨hkept.set (hP.blank _ _ _) column,
      List.forall_mem_cons.mpr ⟨hkept.cell hP column, hexcess⟩⟩
  | false => exact ⟨hkept, hexcess⟩

theorem every_withoutSpacer (hP : Cell.Lasts P) {excess : Row} (h : Row.Every P excess)
    (spacerLast : Bool) :
    Row.Every P (if spacerLast then Row.setWrapped true excess.dropLast else excess) := by
  cases spacerLast with
  | true => exact (h.sublist (List.dropLast_sublist _)).setWrapped hP true
  | false => exact h

theorem EveryCut.cutRow (hP : Cell.Lasts P) (columns lines : Nat) (reflow : Bool) (index fuel : Nat)
    {row : Row} (hrow : Row.Every P row) {s : Shrinkage} (h : EveryCut P s) :
    EveryCut P (Grid.cutRow columns lines reflow index fuel row s) := by
  induction fuel generalizing row s with
  | zero => exact h.cons (hrow.sublist (List.take_sublist _ _))
  | succ fuel ih =>
    have hkept : Row.Every P (row.take columns) := hrow.sublist (List.take_sublist _ _)
    unfold Grid.cutRow
    dsimp only
    split
    · exact h.cons hkept
    · generalize (decide ((row.take columns).length ≥ columns) &&
        (Row.cell (row.take columns) (columns - 1)).kind == CellKind.wide) = split
      obtain ⟨hkept', hexcess⟩ :=
        every_splitOff hP hkept (every_overhang hrow columns) (columns - 1) split
      generalize ((List.getLast? _).map Cell.kind == some CellKind.leadingSpacer) = spacerLast
      have hrest := every_withoutSpacer hP hexcess spacerLast
      have hcut := h.cons (hkept'.setWrapped hP true)
      refine EveryCut.ite (h.cons (hkept'.modify _ fun c hc => hP.wrapped c true hc))
        (EveryCut.ite ⟨hcut.done, fun row hrow => ?_⟩ ?_)
      · obtain rfl := Option.some.inj hrow
        exact hrest.setWrapped hP false
      · exact ih (every_padRow hP columns hrest) ⟨hcut.done, hcut.carried⟩

theorem EveryCut.shrinkStep (hP : Cell.Lasts P) (columns lines : Nat) (reflow : Bool)
    {s : Shrinkage} (index : Nat) {row : Row} (h : EveryCut P s) (hrow : Row.Every P row) :
    EveryCut P (Grid.shrinkStep columns lines reflow s (index, row)) := by
  have hcarried : Row.Every P (s.carried.getD []) := by
    cases hs : s.carried with
    | none => exact fun c hc => absurd hc List.not_mem_nil
    | some carried => exact h.carried carried hs
  refine EveryCut.cutRow hP columns lines reflow index _ (hcarried.append hrow) ⟨h.done, ?_⟩
  exact fun row hnone => absurd hnone (Option.not_mem_none row)

theorem Every.shrinkColumns (hP : Cell.Lasts P) (h : g.Every P) (reflow : Bool) (columns : Nat) :
    (g.shrinkColumns reflow columns).Every P := by
  have hcut : EveryCut P ((numberedFromBottom g.allRows).foldl
      (Grid.shrinkStep columns g.lines reflow)
      ⟨[], none, (if reflow then unwrapCursor g.cursor else g.cursor).line,
        (if reflow then unwrapCursor g.cursor else g.cursor).column⟩) := by
    refine foldl_rows (Q := EveryCut P) ⟨fun _ hrow => absurd hrow List.not_mem_nil,
      fun row hnone => absurd hnone (Option.not_mem_none row)⟩ h.allRows ?_
    exact fun s index row hs hrow => hs.shrinkStep hP columns g.lines reflow index hrow
  exact Every.congr (Every.withRows (g := { g with columns })
    fun row hrow => hcut.done row (List.mem_of_mem_take hrow)) rfl rfl

theorem Every.resize (hP : Cell.Lasts P) (h : g.Every P) (reflow : Bool) (columns lines : Nat) :
    (g.resize reflow columns lines).Every P := by
  have hlines : ∀ g : Grid, g.Every P →
      (if g.lines < lines then g.growLines lines
        else if lines < g.lines then g.shrinkLines lines else g).Every P := by
    intro g h
    split
    · exact h.growLines hP lines
    · split
      · exact h.shrinkLines hP lines
      · exact h
  have hcolumns : ∀ g : Grid, g.Every P →
      (if g.columns < columns then g.growColumns reflow columns
        else if columns < g.columns then g.shrinkColumns reflow columns else g).Every P := by
    intro g h
    split
    · exact h.growColumns hP reflow columns
    · split
      · exact h.shrinkColumns hP reflow columns
      · exact h
  have hstart : ({ g with cursor := { g.cursor with pen := {} } } : Grid).Every P := h.congr rfl rfl
  have hresized := hcolumns _ (hlines _ hstart)
  exact ⟨hresized.history, hresized.rows⟩

end Moving

end Grid

namespace Screen

variable {P : Cell → Prop} {g : Grid}

theorem every_withoutKind (hP : Cell.Lasts P) (kind : CellKind) {c : Cell} (h : P c) :
    P (c.withoutKind kind) := by
  unfold Cell.withoutKind
  split
  · exact hP.kind c .narrow h
  · exact h

theorem every_modifyRowAbove (h : g.Every P) {f : Row → Row}
    (hf : ∀ row, Row.Every P row → Row.Every P (f row)) : (modifyRowAbove g f).Every P := by
  unfold modifyRowAbove
  split
  · exact ⟨forall_mem_modify 0 h.history hf, h.rows⟩
  · exact h.modifyRow _ hf

theorem every_freeHalves (hP : Cell.Lasts P) (h : g.Every P) : (freeHalves g).Every P := by
  have hother : ∀ line column : Nat,
      (if g.cursorCell.kind = .wide ∧ column < g.columns - 1 then
        g.modifyCell line (column + 1) (Cell.withoutKind .spacer)
      else if column > 0 then g.modifyCell line (column - 1) Cell.withoutWide
      else g).Every P := by
    intro line column
    split
    · exact h.modifyCell _ _ fun _ => every_withoutKind hP _
    · split
      · exact h.modifyCell _ _ fun _ _ => hP.blank _ _ _
      · exact h
  unfold freeHalves
  dsimp only
  split
  · split
    · exact every_modifyRowAbove (hother _ _) fun _ hrow =>
        hrow.modify _ fun _ => every_withoutKind hP _
    · exact hother _ _
  · exact h

end Screen

end ShellTranscript
