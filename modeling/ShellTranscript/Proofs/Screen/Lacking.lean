import Mathlib.Tactic.Common
import ShellTranscript.Proofs.Screen.Cells
import ShellTranscript.Proofs.Screen.Shown

-- A character that stands nowhere on a grid. It does not come up by writing others, as long as the
-- cursor's character sets do not draw one of them as it, and it is not in the text that is shown.
namespace ShellTranscript

open Text

def Cell.Lacks (x : Char) (c : Cell) : Prop := x ∉ c.text

def Row.Lacks (x : Char) (row : Row) : Prop := ∀ c ∈ row, Cell.Lacks x c

instance (x : Char) (row : Row) : Decidable (Row.Lacks x row) :=
  inferInstanceAs (Decidable (∀ c ∈ row, x ∉ c.text))

theorem Cell.lasts_lacks {x : Char} (hx : 0x20 < x.toNat) : Cell.Lasts (Cell.Lacks x) where
  blank _ _ _ hmem := by
    have hspace : x = ' ' := List.mem_singleton.mp hmem
    rw [hspace] at hx
    exact absurd hx (by decide)
  kind _ _ h := h
  wrapped _ _ h := h

namespace Grid

structure Lacks (x : Char) (g : Grid) : Prop where
  history : ∀ row ∈ g.history, Row.Lacks x row
  rows : ∀ row ∈ g.rows, Row.Lacks x row

-- Nor would writing a text bring the character up.
structure KeepsOut (x : Char) (t : Text) (g : Grid) : Prop where
  lacks : g.Lacks x
  drawn : ∀ c ∈ t, c ≠ x ∧ ∀ slot, (g.cursor.charsets.get slot).map c ≠ x

section Lacking

variable {x : Char} {t : Text} {g : Grid}

theorem Lacks.every (h : g.Lacks x) : g.Every (Cell.Lacks x) := ⟨h.history, h.rows⟩

theorem Lacks.of_every (h : g.Every (Cell.Lacks x)) : g.Lacks x := ⟨h.history, h.rows⟩

theorem lacks_of_blankRows (hx : 0x20 < x.toNat) {count : Nat}
    (hrows : g.rows = List.replicate count g.blankRow) (hhistory : g.history = []) : g.Lacks x := by
  refine ⟨fun row hrow => ?_, fun row hrow => ?_⟩
  · rw [hhistory] at hrow
    cases hrow
  · rw [hrows] at hrow
    rw [List.eq_of_mem_replicate hrow]
    exact every_blankRow (Cell.lasts_lacks hx) g

theorem rows_resetAll (hcount : g.rows.length = g.lines) :
    g.resetAll.rows = List.replicate g.lines g.blankRow := by
  have hbelow : g.rows.drop g.lines = [] := List.drop_eq_nil_of_le (Nat.le_of_eq hcount)
  simp only [resetAll, resetRows, hcount, Nat.min_self, Nat.sub_zero, List.take_zero,
    List.nil_append, Nat.zero_max, hbelow, List.append_nil]

theorem KeepsOut.of_lacks {g' : Grid} (h : g.KeepsOut x t) (hlacks : g'.Lacks x)
    (hsets : g'.cursor.charsets = g.cursor.charsets) : g'.KeepsOut x t :=
  ⟨hlacks, hsets ▸ h.drawn⟩

end Lacking

end Grid

theorem Charset.map_blank (set : Charset) : set.map ' ' = ' ' ∧ set.map '\t' = '\t' := by
  cases set with
  | ascii => exact ⟨rfl, rfl⟩
  | lineDrawing => decide

theorem Charsets.map_ascii (slot : CharsetSlot) (c : Char) :
    (({} : Charsets).get slot).map c = c := by
  cases slot <;> rfl

namespace Screen

-- What writing a text may do to a screen: the grid that is not in use, the cursor's character sets
-- and which grid it is stay, and what the text keeps out stays out.
structure Writes (x : Char) (t : Text) (s s' : Screen) : Prop where
  other : s'.other = s.other
  mode : s'.isAlternate = s.isAlternate
  sets : s'.grid.cursor.charsets = s.grid.cursor.charsets
  lacks : s.grid.KeepsOut x t → s'.grid.Lacks x

section Writing

variable {x : Char} {t : Text} {s s' s'' : Screen}

theorem Writes.keepsOut (h : s.Writes x t s') (hkeeps : s.grid.KeepsOut x t) :
    s'.grid.KeepsOut x t := hkeeps.of_lacks (h.lacks hkeeps) h.sets

theorem Writes.refl (s : Screen) : s.Writes x t s := ⟨rfl, rfl, rfl, fun h => h.lacks⟩

theorem Writes.trans (h : s.Writes x t s') (h' : s'.Writes x t s'') : s.Writes x t s'' :=
  ⟨h'.other.trans h.other, h'.mode.trans h.mode, h'.sets.trans h.sets,
    fun hkeeps => h'.lacks (h.keepsOut hkeeps)⟩

theorem Writes.ite {p : Prop} [Decidable p] (h : s.Writes x t s') (h' : s.Writes x t s'') :
    s.Writes x t (if p then s' else s'') := by
  split
  · exact h
  · exact h'

-- Cells are left alone.
theorem writes_of_rows (hgrid : s'.grid = { s.grid with cursor := s'.grid.cursor })
    (hsets : s'.grid.cursor.charsets = s.grid.cursor.charsets) (hother : s'.other = s.other)
    (hmode : s'.isAlternate = s.isAlternate) : s.Writes x t s' := by
  refine ⟨hother, hmode, hsets, fun h => ?_⟩
  rw [hgrid]
  exact ⟨h.lacks.history, h.lacks.rows⟩

theorem writes_modifyCursor (s : Screen) {f : Cursor → Cursor}
    (hf : (f s.grid.cursor).charsets = s.grid.cursor.charsets) :
    s.Writes x t (s.modifyCursor f) := writes_of_rows rfl hf rfl rfl

theorem writes_carriageReturn (s : Screen) : s.Writes x t s.carriageReturn :=
  s.writes_modifyCursor rfl

theorem writes_advance (s : Screen) : s.Writes x t s.advance := by
  refine s.writes_modifyCursor ?_
  split
  · rfl
  · rfl

theorem writes_backspace (s : Screen) : s.Writes x t s.backspace :=
  (s.writes_modifyCursor rfl).ite (.refl s)

theorem writes_lineFeed (hx : 0x20 < x.toNat) (s : Screen) : s.Writes x t s.lineFeed := by
  have hsets : ∀ top bottom count : Nat,
      (s.grid.scrollUp top bottom count).cursor = s.grid.cursor := by
    intro top bottom count
    unfold Grid.scrollUp
    split
    · rfl
    · split
      · rfl
      · rfl
  refine Writes.ite ?_ ((s.writes_modifyCursor rfl).ite (.refl s))
  exact ⟨rfl, rfl, congrArg Cursor.charsets (hsets _ _ _), fun h =>
    .of_every (h.lacks.every.scrollUp (Cell.lasts_lacks hx) _ _ _)⟩

theorem writes_wrapLine (hx : 0x20 < x.toNat) (s : Screen) : s.Writes x t s.wrapLine := by
  have hmarked : s.Writes x t
      (s.modifyGrid fun g => g.modifyCursorCell fun c => { c with wrapped := true }) :=
    ⟨rfl, rfl, rfl, fun h => .of_every (h.lacks.every.modifyCell _ _ fun _ hc => hc)⟩
  refine Writes.ite ?_ (.refl s)
  refine (hmarked.trans (Writes.ite ?_ ?_)).trans (writes_carriageReturn _)
  · exact writes_lineFeed hx _
  · exact writes_modifyCursor _ rfl

theorem cursor_freeHalves (g : Grid) : (freeHalves g).cursor = g.cursor := by
  unfold freeHalves modifyRowAbove
  dsimp only
  repeat' split
  all_goals rfl

theorem writes_put (hx : 0x20 < x.toNat) (s : Screen) {c : Char}
    (hc : s.grid.KeepsOut x t → (s.grid.cursor.charsets.get s.slot).map c ≠ x) (kind : CellKind) :
    s.Writes x t (s.put c kind) := by
  refine ⟨rfl, rfl, congrArg Cursor.charsets (cursor_freeHalves s.grid), fun h => ?_⟩
  have hfreed := every_freeHalves (Cell.lasts_lacks hx) h.lacks.every
  refine .of_every (hfreed.modifyCell _ _ fun _ _ hmem => ?_)
  exact hc h (List.mem_singleton.mp hmem).symm

theorem writes_put_blank (hx : 0x20 < x.toNat) (s : Screen) (kind : CellKind) :
    s.Writes x t (s.put ' ' kind) := by
  refine s.writes_put hx (fun _ h => ?_) kind
  rw [(Charset.map_blank _).1] at h
  rw [← h] at hx
  exact absurd hx (by decide)

theorem writes_attach (s : Screen) {mark : Char} (hmark : mark ∈ t) :
    s.Writes x t (s.attach mark) := by
  refine ⟨rfl, rfl, rfl, fun h => .of_every (h.lacks.every.modifyCell _ _ fun c hc hmem => ?_)⟩
  rcases List.mem_append.mp (show x ∈ c.text ++ [mark] from hmem) with hmem | hmem
  · exact hc hmem
  · exact (h.drawn mark hmark).1 (List.mem_singleton.mp hmem).symm

-- The cells of the row change places.
theorem writes_openRoom (s : Screen) (width : Nat) : s.Writes x t (s.openRoom width) := by
  refine Writes.ite ⟨rfl, rfl, rfl, fun h =>
    .of_every (h.lacks.every.modifyRow _ fun row hrow c hc => ?_)⟩ (.refl s)
  refine hrow c ?_
  simp only [List.mem_append] at hc
  rcases hc with (hc | hc) | hc
  · exact List.mem_of_mem_take hc
  · split at hc
    · exact List.mem_of_mem_drop hc
    · exact List.mem_of_mem_drop (List.mem_reverse.mp hc)
  · exact List.mem_of_mem_drop (List.mem_of_mem_take hc)

theorem writes_put_mem (hx : 0x20 < x.toNat) (s : Screen) {c : Char} (hc : c ∈ t)
    (kind : CellKind) : s.Writes x t (s.put c kind) :=
  s.writes_put hx (fun h => (h.drawn c hc).2 s.slot) kind

theorem writes_printWide (hx : 0x20 < x.toNat) (s : Screen) {c : Char} (hc : c ∈ t) :
    s.Writes x t (s.printWide c) := by
  have hfinish : ∀ s : Screen, s.Writes x t
      (((s.put c .wide).modifyCursor fun cursor =>
        { cursor with column := cursor.column + 1 }).put ' ' .spacer).advance := fun s =>
    (((s.writes_put_mem hx hc .wide).trans (writes_modifyCursor _ rfl)).trans
      (writes_put_blank hx _ .spacer)).trans (writes_advance _)
  unfold Screen.printWide
  dsimp only
  refine Writes.ite (Writes.ite ?_ (s.writes_modifyCursor rfl)) (hfinish s)
  exact ((s.writes_put_blank hx .leadingSpacer).trans (writes_wrapLine hx _)).trans (hfinish _)

theorem writes_print (hx : 0x20 < x.toNat) (s : Screen) {c : Char} (hc : c ∈ t) :
    s.Writes x t (s.print c) := by
  unfold Screen.print
  split
  · exact .refl s
  · exact s.writes_attach hc
  · have hready : s.Writes x t (if s.grid.cursor.needsWrap then s.wrapLine else s) :=
      (s.writes_wrapLine hx).ite (.refl s)
    dsimp only
    refine (hready.trans (writes_openRoom _ _)).trans (Writes.ite ?_ (writes_printWide hx _ hc))
    exact (writes_put_mem hx _ hc .narrow).trans (writes_advance _)

theorem writes_tab (hx : 0x20 < x.toNat) (s : Screen) : s.Writes x t s.tab := by
  have htab : x ≠ '	' := by
    rintro rfl
    exact absurd hx (by decide)
  unfold Screen.tab
  refine (s.writes_wrapLine hx).ite ?_
  have hmarked : s.Writes x t (s.modifyGrid fun g => g.modifyCursorCell fun c =>
      if c.char = ' ' then { c with char := (s.grid.cursor.charsets.get s.slot).map '	' } else c) := by
    refine ⟨rfl, rfl, rfl, fun h => .of_every (h.lacks.every.modifyCell _ _ fun c hc => ?_)⟩
    split
    · intro hmem
      rw [(Charset.map_blank _).2] at hmem
      rcases List.mem_cons.mp hmem with heq | hmem
      · exact htab heq
      · exact hc (List.mem_cons_of_mem _ hmem)
    · exact hc
  exact hmarked.trans (writes_modifyCursor _ rfl)

theorem writes_execute (hx : 0x20 < x.toNat) (s : Screen) (code : Nat) :
    s.Writes x t (s.execute code) := by
  unfold Screen.execute
  split
  · exact s.writes_backspace
  · exact s.writes_tab hx
  · exact s.writes_lineFeed hx
  · exact s.writes_lineFeed hx
  · exact s.writes_lineFeed hx
  · exact s.writes_carriageReturn
  · exact writes_of_rows rfl rfl rfl rfl
  · exact writes_of_rows rfl rfl rfl rfl
  · exact .refl s

-- Control characters, and characters of a text.
def Types (t : Text) (item : ControlItem) : Prop :=
  (∃ code, item = .execute code) ∨ ∃ c ∈ t, item = .print c

theorem writes_apply (hx : 0x20 < x.toNat) (s : Screen) {item : ControlItem} (h : Types t item) :
    s.Writes x t (s.apply item) := by
  rcases h with ⟨code, rfl⟩ | ⟨c, hc, rfl⟩
  · exact s.writes_execute hx code
  · exact (s.writes_print hx hc).trans (writes_of_rows rfl rfl rfl rfl)

theorem writes_items (hx : 0x20 < x.toNat) (s : Screen) {items : List ControlItem}
    (h : ∀ item ∈ items, Types t item) : s.Writes x t (items.foldl Screen.apply s) := by
  induction items generalizing s with
  | nil => exact .refl s
  | cons item items ih =>
    exact (s.writes_apply hx (h item List.mem_cons_self)).trans
      (ih _ fun i hi => h i (List.mem_cons_of_mem _ hi))

end Writing

theorem mem_pieces {x : Char} {row : Row} (h : x ∈ row.pieces.flatMap Prod.fst) :
    ∃ c ∈ row, x ∈ c.text := by
  rw [Row.flatMap_pieces] at h
  obtain ⟨c, hc, hmem⟩ := List.mem_flatMap.mp h
  refine ⟨c, Row.mem_of_mem_textCells hc, ?_⟩
  rw [Row.shownText] at hmem
  split at hmem
  · cases hmem
  · exact hmem

theorem mem_piecesOfRows {x : Char} (hx : 0x20 < x.toNat) {rows : List Row}
    (h : x ∈ (piecesOfRows rows).flatMap Prod.fst) : ∃ row ∈ rows, ∃ c ∈ row, x ∈ c.text := by
  have hend : x ≠ '\n' := by
    rintro rfl
    exact absurd hx (by decide)
  induction rows with
  | nil => cases h
  | cons row rest ih =>
    by_cases hrest : rest = []
    · subst hrest
      exact ⟨row, List.mem_cons_self, mem_pieces h⟩
    · rw [piecesOfRows_cons row hrest] at h
      simp only [List.flatMap_append, List.mem_append] at h
      rcases h with (h | h) | h
      · exact ⟨row, List.mem_cons_self, mem_pieces h⟩
      · split at h
        · cases h
        · exact absurd (List.mem_singleton.mp h) hend
      · obtain ⟨r, hr, hcell⟩ := ih h
        exact ⟨r, List.mem_cons_of_mem _ hr, hcell⟩

theorem not_mem_plainText {x : Char} (hx : 0x20 < x.toNat) {s : Screen} (h : s.grid.Lacks x) :
    x ∉ s.plainText := by
  intro hmem
  obtain ⟨row, hrow, c, hc, hchar⟩ := mem_piecesOfRows hx hmem
  rw [shownRows, List.mem_append] at hrow
  rcases hrow with hrow | hrow
  · exact h.history row (List.mem_reverse.mp hrow) c hc hchar
  · exact h.rows row (List.mem_of_mem_take hrow) c hc hchar

end Screen

end ShellTranscript
