import ShellTranscript.Proofs.Echo.Arrangement
import ShellTranscript.Proofs.Screen.Filling
import ShellTranscript.Proofs.Screen.Renderings

-- Echoes. Text is typed where nothing is pending, and the terminal prints the same text at the
-- cursor. The row then confirms all of it just if it shows the text, one character in each cell from
-- the cursor on, and a cell of the row is left over behind it.
namespace ShellTranscript

open Text EchoPredictor Prediction

namespace EchoPredictor

section Predictions

variable {row : Text} {cursor token column now : Nat} {typed : Text} {l : List Prediction}

theorem forall_confirmed_iff (hpending : ∀ q ∈ l, q.state = .pending) (hsuccessive : Successive l) :
    (∀ q ∈ check row cursor false l, q.state = .confirmed) ↔ ∀ q ∈ l, q.Echoed row cursor := by
  constructor
  · intro h
    obtain ⟨good, rest, rfl, hgood, hrest⟩ := hsuccessive.exists_echoed_append row cursor
    obtain ⟨hgoodPending, hrestPending⟩ := List.forall_mem_append.mp hpending
    rw [check_append_of_echoed hgoodPending hgood] at h
    have hconfirmed := (List.forall_mem_append.mp h).2
    refine List.forall_mem_append.mpr ⟨hgood, fun q hq => ?_⟩
    rcases hrest with hahead | ⟨wrong, later, rfl, hwrong⟩
    · rw [check_of_ahead hahead] at hconfirmed
      have hstate := (hrestPending q hq).symm.trans (hconfirmed q hq)
      cases hstate
    · have hp := (isPending_iff wrong).mpr (hrestPending wrong List.mem_cons_self)
      rw [check_of_mistaken hp hwrong, List.map_cons, drop_of_isPending hp] at hconfirmed
      have hstate := hconfirmed _ List.mem_cons_self
      cases hstate
  · intro h
    have hall := check_append_of_echoed hpending h []
    rw [List.append_nil, check, List.append_nil] at hall
    rw [hall]
    simp [confirm]

theorem map_char_predict (token column now : Nat) (typed : Text) :
    (predict token column now typed).map Prediction.char = typed := by
  induction typed generalizing token column with
  | nil => rfl
  | cons c rest ih => rw [predict, List.map_cons, ih]

theorem column_predict_lt_iff (hne : typed ≠ []) :
    (∀ q ∈ predict token column now typed, q.column < cursor) ↔ column + typed.length ≤ cursor := by
  induction typed generalizing token column with
  | nil => exact absurd rfl hne
  | cons c rest ih =>
    rw [predict, List.forall_mem_cons, List.length_cons]
    by_cases hrest : rest = []
    · subst hrest
      simp only [predict, List.not_mem_nil, false_imp_iff, implies_true, and_true, List.length_nil]
      omega
    · have hpos := List.length_pos_of_ne_nil hrest
      rw [ih hrest]
      dsimp only
      omega

theorem shown_predict_iff :
    (∀ q ∈ predict token column now typed, row[q.column]? = some q.char) ↔
      typed <+: row.drop column := by
  induction typed generalizing token column with
  | nil => simp [predict]
  | cons c rest ih =>
    rw [predict, List.forall_mem_cons, ih]
    dsimp only
    by_cases hinside : column < row.length
    · rw [List.drop_eq_getElem_cons hinside, List.cons_prefix_cons, List.getElem?_eq_getElem hinside,
        Option.some.injEq, eq_comm]
    · have hnone := List.drop_of_length_le (Nat.le_of_not_lt hinside)
      simp [hnone, List.getElem?_eq_none (Nat.le_of_not_lt hinside)]

theorem echoed_predict_iff (hne : typed ≠ []) :
    (∀ q ∈ predict token column now typed, q.Echoed row cursor) ↔
      typed <+: row.drop column ∧ column + typed.length ≤ cursor := by
  have hsplit : (∀ q ∈ predict token column now typed, q.Echoed row cursor) ↔
      (∀ q ∈ predict token column now typed, q.column < cursor) ∧
        ∀ q ∈ predict token column now typed, row[q.column]? = some q.char := forall₂_and
  rw [hsplit, column_predict_lt_iff hne, shown_predict_iff, and_comm]

-- Where nothing was pending, the predictions are those of the text.
theorem predictions_type_reconcile {p : EchoPredictor} (henabled : p.enabled = true)
    (hresting : p.overlay = []) (hprints : Prints typed) (column now : Nat) (row : Text)
    (cursor : Nat) :
    ((p.type typed column now).2.reconcile row cursor).predictions =
      check row cursor false (predict p.nextToken column now typed) := by
  have hcolumn : p.nextColumn column = column := by rw [nextColumn, hresting]; rfl
  rcases p.type_cases typed column now with ⟨hdisabled, -⟩ | ⟨hmoves, -⟩ | ⟨-, -, hextend⟩
  · rw [henabled] at hdisabled
    cases hdisabled
  · exact absurd hprints hmoves
  · rw [predictions_reconcile, hextend, hcolumn, extend, hresting, List.nil_append]

theorem type_reconcile_confirmed_iff {p : EchoPredictor} (henabled : p.enabled = true)
    (hresting : p.overlay = []) (hprints : Prints typed) (column now : Nat) (row : Text)
    (cursor : Nat) :
    (∀ q ∈ ((p.type typed column now).2.reconcile row cursor).predictions, q.state = .confirmed) ↔
      typed <+: row.drop column ∧ column + typed.length ≤ cursor := by
  rw [predictions_type_reconcile henabled hresting hprints,
    forall_confirmed_iff (fun q hq => (of_mem_predict hq).1) (successive_predict _ _ _ _).1]
  exact echoed_predict_iff hprints.1

end Predictions

end EchoPredictor

namespace Terminal

-- No character is read halfway and nothing is held back. Only a full row has a pending wrap.
structure Settled (t : Terminal) : Prop where
  control : t.emulator.control = .start
  held : t.emulator.held = none
  wrap : t.screen.grid.cursor.needsWrap = true → t.screen.grid.cursor.column + 1 = t.screen.columns

section Echo

variable {t : Terminal} {typed : Text} {chunks : List (List UInt8)}

theorem Settled.screen_foldl_write (h : t.Settled) (hcontrol : ∀ c ∈ typed, isControl c = false)
    (hchunks : chunks.flatten = Utf8.encode typed) :
    (chunks.foldl write t).screen = (typed.map ControlItem.print).foldl Screen.apply t.screen := by
  rw [screen, (foldl_write t chunks).1, hchunks, Emulator.feed_encode h.control h.held hcontrol]
  rfl

-- No cell shows a character without width by itself.
theorem Lived.width_of_mem_cursorLine (h : t.Lived) (chunks : List (List UInt8)) :
    ∀ c ∈ (chunks.foldl write t).cursorLine.1, cellWidth? c ≠ some 0 := by
  have hformed : (chunks.foldl write t).screen.Formed := by
    rw [screen, (foldl_write t chunks).1]
    exact Screen.stable_formed.feed _ h.formed
  intro c hc
  obtain ⟨cell, hcell, rfl⟩ := List.mem_map.mp hc
  exact (hformed.grid.row _ cell hcell).char

end Echo

end Terminal

namespace EchoPredictor

-- The predictor when text was typed at the cursor, and the terminal has read its echo.
def echoed (p : EchoPredictor) (t : Terminal) (typed : Text) (now : Nat)
    (chunks : List (List UInt8)) : EchoPredictor :=
  (p.type typed t.cursorLine.2 now).2.reconcile (chunks.foldl Terminal.write t).cursorLine.1
    (chunks.foldl Terminal.write t).cursorLine.2

section Echoed

variable {p : EchoPredictor} {t : Terminal} {typed : Text} {chunks : List (List UInt8)}

-- What is shown in cells takes cells.
theorem width_of_shown (ht : t.Lived)
    (hshown : typed <+: (chunks.foldl Terminal.write t).cursorLine.1.drop t.cursorLine.2) :
    ∀ c ∈ typed, cellWidth? c ≠ some 0 := fun c hc =>
  ht.width_of_mem_cursorLine chunks c (List.mem_of_mem_drop (hshown.subset hc))

theorem echoed_confirmed_iff_shown (ht : t.Lived) (hsettled : t.Settled) (henabled : p.enabled = true)
    (hresting : p.overlay = []) (hprints : Prints typed)
    (hfits : t.cursorLine.2 + cellCount typed ≤ t.screen.columns)
    (hchunks : chunks.flatten = Utf8.encode typed) (now : Nat) :
    (∀ q ∈ (p.echoed t typed now chunks).predictions, q.state = .confirmed) ↔
      typed <+: (chunks.foldl Terminal.write t).cursorLine.1.drop t.cursorLine.2 ∧
        t.cursorLine.2 + typed.length < t.screen.columns := by
  rw [echoed, type_reconcile_confirmed_iff henabled hresting hprints]
  refine and_congr_right fun hshown => ?_
  have hcolumn := Screen.le_column_prints_iff hsettled.wrap hprints.1 hprints.2
    (width_of_shown ht hshown) hfits
  rw [← hsettled.screen_foldl_write hprints.2 hchunks] at hcolumn
  exact hcolumn

-- On an open row the text is shown as it is if nothing but blanks follows a wide character.
theorem prefix_iff_of_open (ht : t.Lived) (hsettled : t.Settled) (hprints : Prints typed)
    (hfits : t.cursorLine.2 + cellCount typed ≤ t.screen.columns)
    (hchunks : chunks.flatten = Utf8.encode typed) (hopen : t.screen.Open typed)
    (hleft : t.cursorLine.2 + typed.length < t.screen.columns) :
    typed <+: (chunks.foldl Terminal.write t).cursorLine.1.drop t.cursorLine.2 ↔
      (∀ c ∈ typed, cellWidth? c ≠ some 0) ∧
        typed.Pairwise fun c d => cellWidth? c = some 1 ∨ d = ' ' := by
  have hpos := List.length_pos_of_ne_nil hprints.1
  have hwrap : t.screen.grid.cursor.needsWrap = false := by
    refine Bool.eq_false_iff.mpr fun hpending => ?_
    have hlast : t.cursorLine.2 + 1 = t.screen.columns := hsettled.wrap hpending
    omega
  have hinside : t.screen.grid.cursor.column < t.screen.columns :=
    Nat.lt_of_le_of_lt (Nat.le_add_right _ _) hleft
  have hcells : (∀ c ∈ typed, cellWidth? c ≠ some 0) →
      (typed <+: (chunks.foldl Terminal.write t).cursorLine.1.drop t.cursorLine.2 ↔
        typed.Pairwise fun c d => cellWidth? c = some 1 ∨ d = ' ') := by
    intro hzero
    obtain ⟨rest, hrest⟩ := hopen.exists_drop_prints hwrap hinside hprints.2 hzero hfits
    rw [← hsettled.screen_foldl_write hprints.2 hchunks] at hrest
    rw [← prefix_cells_iff hprints.2 hzero rest, ← hrest]
    rfl
  constructor
  · intro hshown
    have hzero := width_of_shown ht hshown
    exact ⟨hzero, (hcells hzero).mp hshown⟩
  · rintro ⟨hzero, hpairs⟩
    exact (hcells hzero).mpr hpairs

-- The echo confirms every prediction just if the row shows the text, a character in each cell, and not up
-- to its end. On an open row that is a text without combining characters, and with nothing but blanks
-- behind a wide character.
theorem echoed_confirmed_iff (ht : t.Lived) (hsettled : t.Settled) (henabled : p.enabled = true)
    (hresting : p.overlay = []) (hprints : Prints typed)
    (hfits : t.cursorLine.2 + cellCount typed ≤ t.screen.columns)
    (hchunks : chunks.flatten = Utf8.encode typed) (now : Nat) :
    (p.echoed t typed now chunks).predictions.map Prediction.char = typed ∧
      ((∀ q ∈ (p.echoed t typed now chunks).predictions, q.state = .confirmed) ↔
        typed <+: (chunks.foldl Terminal.write t).cursorLine.1.drop t.cursorLine.2 ∧
          t.cursorLine.2 + typed.length < t.screen.columns) ∧
        (t.screen.Open typed →
          ((∀ q ∈ (p.echoed t typed now chunks).predictions, q.state = .confirmed) ↔
            ((∀ c ∈ typed, cellWidth? c ≠ some 0) ∧
              typed.Pairwise fun c d => cellWidth? c = some 1 ∨ d = ' ') ∧
                t.cursorLine.2 + typed.length < t.screen.columns)) := by
  have hshown := echoed_confirmed_iff_shown ht hsettled henabled hresting hprints hfits hchunks now
  refine ⟨?_, hshown, fun hopen => hshown.trans (and_congr_left fun hleft => ?_)⟩
  · rw [echoed, predictions_type_reconcile henabled hresting hprints]
    exact (map_check (fun _ _ => rfl) _ _ _ _).trans (map_char_predict _ _ _ _)
  · exact prefix_iff_of_open ht hsettled hprints hfits hchunks hopen hleft

end Echoed

-- Behind a prompt, a letter and a wide character, of which the bytes come in two reads.
def prompting : Terminal := (Terminal.new (.new 6 3) 10).write (Utf8.encode ['$', ' '])

theorem echoed_wide_end :
    ((start {}).echoed prompting ['l', '世'] 0 [[0x6C, 0xE4], [0xB8, 0x96]]).predictions.map
        Prediction.char = ['l', '世'] ∧
      ∀ q ∈ ((start {}).echoed prompting ['l', '世'] 0 [[0x6C, 0xE4], [0xB8, 0x96]]).predictions,
        q.state = .confirmed := by
  have hlived : prompting.Lived := .undergo (.write _) (.new _ _)
  have hsettled : prompting.Settled := ⟨rfl, rfl, by decide +kernel⟩
  have henabled : (start {}).enabled = true := rfl
  have hresting : (start {}).overlay = [] := rfl
  have hprints : Prints ['l', '世'] := by decide
  have hfits : prompting.cursorLine.2 + cellCount ['l', '世'] ≤ prompting.screen.columns := by
    decide +kernel
  have hchunks : [[0x6C, 0xE4], [0xB8, 0x96]].flatten = Utf8.encode ['l', '世'] := by decide
  have hopen : prompting.screen.Open ['l', '世'] :=
    ⟨by decide +kernel, by decide +kernel, fun _ _ => rfl⟩
  have hletter : cellWidth? 'l' = some 1 := by decide +kernel
  have hwide : cellWidth? '世' = some 2 := by decide +kernel
  obtain ⟨hchars, -, hconfirmed⟩ :=
    echoed_confirmed_iff hlived hsettled henabled hresting hprints hfits hchunks 0
  exact ⟨hchars, (hconfirmed hopen).mpr ⟨by simp [hletter, hwide], by decide +kernel⟩⟩

-- A text that fills its row is not all confirmed.
theorem not_echoed_confirmed :
    ¬ ∀ (t : Terminal) (p : EchoPredictor) (typed : Text) (now : Nat), t.Lived → t.Settled →
      p.enabled = true → p.overlay = [] → Prints typed →
        t.cursorLine.2 + cellCount typed ≤ t.screen.columns →
          ∀ q ∈ (p.echoed t typed now [Utf8.encode typed]).predictions, q.state = .confirmed := by
  intro h
  have hsettled : (Terminal.new (.new 5 3) 10).Settled := ⟨rfl, rfl, by decide +kernel⟩
  have hfull := h _ (start {}) ['a', 'b', 'c', 'd', 'e'] 0 (.new (.new 5 3) 10) hsettled rfl rfl
    (by decide) (by decide +kernel)
  revert hfull
  decide +kernel

end EchoPredictor

end ShellTranscript
