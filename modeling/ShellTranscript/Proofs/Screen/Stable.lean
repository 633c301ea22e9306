import Mathlib.Tactic.Common
import ShellTranscript.Screen.Emulator

-- What holds of a screen whatever is read. Everything that is read is made of a few operations on
-- cells, on the cursor and on the two grids; a property that each of them keeps is kept by every
-- byte.
namespace ShellTranscript

open Text

namespace Screen

-- The operations keep the property. Only characters with a width are put into cells of their own, and
-- only those without one are put onto others.
structure Stable (Q : Screen → Prop) : Prop where
  congr : ∀ {s s' : Screen}, Q s → s'.grid = s.grid → s'.other = s.other →
    s'.isAlternate = s.isAlternate → s'.bottom = s.bottom → Q s'
  region : ∀ {s : Screen} (top bottom : Nat), Q s → Q { s with top, bottom := min bottom s.lines }
  modifyCursor : ∀ {s : Screen} (f : Cursor → Cursor), Q s → Q (s.modifyCursor f)
  saveCursor : ∀ {s : Screen}, Q s → Q s.saveCursor
  scrollUpFrom : ∀ {s : Screen} (top count : Nat), Q s → Q (s.scrollUpFrom top count)
  scrollDownFrom : ∀ {s : Screen} (top count : Nat), Q s → Q (s.scrollDownFrom top count)
  continueRow : ∀ {s : Screen}, Q s →
    Q (s.modifyGrid fun g => g.modifyCursorCell fun c => { c with wrapped := true })
  markTab : ∀ {s : Screen}, Q s → Q (s.modifyGrid fun g => g.modifyCursorCell fun c =>
    if c.char = ' ' then { c with char := (s.grid.cursor.charsets.get s.slot).map '\t' } else c)
  put : ∀ {s : Screen} {c : Char} (kind : CellKind), cellWidth? c ≠ some 0 → Q s → Q (s.put c kind)
  attach : ∀ {s : Screen} {mark : Char}, cellWidth? mark = some 0 → Q s → Q (s.attach mark)
  openRoom : ∀ {s : Screen} (width : Nat), Q s → Q (s.openRoom width)
  eraseCells : ∀ {s : Screen} (start stop : Nat), Q s → Q (s.eraseCells start stop)
  insertBlanks : ∀ {s : Screen} (count : Nat), Q s → Q (s.insertBlanks count)
  deleteCharacters : ∀ {s : Screen} (count : Nat), Q s → Q (s.deleteCharacters count)
  resetRows : ∀ {s : Screen} (start stop : Nat), Q s →
    Q (s.modifyGrid fun g => g.resetRows start stop)
  clearViewport : ∀ {s : Screen}, Q s → Q (s.modifyGrid Grid.clearViewport)
  clearHistory : ∀ {s : Screen}, Q s → Q (s.modifyGrid Grid.clearHistory)
  fillWithLetters : ∀ {s : Screen}, Q s → Q s.fillWithLetters
  swapGrids : ∀ {s : Screen}, Q s → Q s.swapGrids
  reset : ∀ {s : Screen}, Q s → Q s.reset

theorem cellWidth?_space : cellWidth? ' ' ≠ some 0 := by decide

namespace Stable

variable {Q : Screen → Prop} {s : Screen}

theorem ite {p : Prop} [Decidable p] {s' : Screen} (h : Q s) (h' : Q s') :
    Q (if p then s else s') := by
  split
  · exact h
  · exact h'

theorem restoreCursor (hQ : Stable Q) (h : Q s) : Q s.restoreCursor :=
  hQ.modifyCursor (fun _ => s.grid.saved) h

theorem moveTo (hQ : Stable Q) (line column : Nat) (h : Q s) : Q (s.moveTo line column) := by
  unfold Screen.moveTo
  exact hQ.modifyCursor _ h

theorem moveUp (hQ : Stable Q) (count column : Nat) (h : Q s) : Q (s.moveUp count column) := by
  unfold Screen.moveUp
  exact hQ.modifyCursor _ h

theorem lineFeed (hQ : Stable Q) (h : Q s) : Q s.lineFeed := by
  unfold Screen.lineFeed
  dsimp only
  split
  · exact hQ.scrollUpFrom _ _ h
  · split
    · exact hQ.modifyCursor _ h
    · exact h

theorem reverseLineFeed (hQ : Stable Q) (h : Q s) : Q s.reverseLineFeed := by
  unfold Screen.reverseLineFeed
  split
  · exact hQ.scrollDownFrom _ _ h
  · exact hQ.modifyCursor _ h

theorem insertLines (hQ : Stable Q) (count : Nat) (h : Q s) : Q (s.insertLines count) := by
  unfold Screen.insertLines
  split
  · exact hQ.scrollDownFrom _ _ h
  · exact h

theorem deleteLines (hQ : Stable Q) (count : Nat) (h : Q s) : Q (s.deleteLines count) := by
  unfold Screen.deleteLines
  dsimp only
  split
  · exact hQ.scrollUpFrom _ _ h
  · exact h

theorem setRegion (hQ : Stable Q) (top : Nat) (bottom : Option Nat) (h : Q s) :
    Q (s.setRegion top bottom) := by
  unfold Screen.setRegion
  dsimp only
  split
  · exact h
  · exact hQ.moveTo 0 0 (hQ.region _ _ h)

theorem wrapLine (hQ : Stable Q) (h : Q s) : Q s.wrapLine := by
  have hmarked := hQ.continueRow h
  unfold Screen.wrapLine
  dsimp only
  split
  · refine hQ.modifyCursor _ ?_
    split
    · exact hQ.lineFeed hmarked
    · exact hQ.modifyCursor _ hmarked
  · exact h

theorem printWide (hQ : Stable Q) {c : Char} (hc : cellWidth? c ≠ some 0) (h : Q s) :
    Q (s.printWide c) := by
  have hfinish : ∀ {s : Screen}, Q s → Q (((s.put c .wide).modifyCursor fun cursor =>
      { cursor with column := cursor.column + 1 }).put ' ' .spacer).advance := by
    intro s h
    have hput := hQ.modifyCursor (fun cursor => { cursor with column := cursor.column + 1 })
      (hQ.put .wide hc h)
    exact hQ.modifyCursor _ (hQ.put .spacer cellWidth?_space hput)
  unfold Screen.printWide
  dsimp only
  split
  · split
    · exact hfinish (hQ.wrapLine (hQ.put .leadingSpacer cellWidth?_space h))
    · exact hQ.modifyCursor _ h
  · exact hfinish h

theorem print (hQ : Stable Q) (c : Char) (h : Q s) : Q (s.print c) := by
  unfold Screen.print
  split
  · exact h
  · rename_i hzero
    exact hQ.attach hzero h
  · rename_i width hnonzero hwidth
    have hc : cellWidth? c ≠ some 0 := by
      rw [hwidth]
      exact fun heq => hnonzero (Option.some.inj heq)
    have hready : Q (if s.grid.cursor.needsWrap then s.wrapLine else s) := by
      split
      · exact hQ.wrapLine h
      · exact h
    have hroom := hQ.openRoom width hready
    dsimp only
    split
    · exact hQ.modifyCursor _ (hQ.put .narrow hc hroom)
    · exact hQ.printWide hc hroom

theorem tab (hQ : Stable Q) (h : Q s) : Q s.tab := by
  unfold Screen.tab
  split
  · exact hQ.wrapLine h
  · exact hQ.modifyCursor _ (hQ.markTab h)

theorem foldl {α : Type} {f : Screen → α → Screen} (hf : ∀ {s : Screen} (a : α), Q s → Q (f s a))
    (items : List α) (h : Q s) : Q (items.foldl f s) :=
  List.foldlRecOn items f h fun _ hs a _ => hf a hs

theorem repeatLast (hQ : Stable Q) (count : Nat) (h : Q s) : Q (s.repeatLast count) := by
  unfold Screen.repeatLast
  split
  · exact foldl (fun _ h => hQ.print _ h) _ h
  · exact h

theorem eraseLineBy (hQ : Stable Q) (number : Nat) (h : Q s) : Q (s.eraseLineBy number) := by
  unfold Screen.eraseLineBy
  split
  · unfold eraseLine
    dsimp only
    split
    · exact h
    · exact hQ.eraseCells _ _ h
  · exact hQ.eraseCells _ _ h
  · exact hQ.eraseCells _ _ h
  · exact h

theorem eraseScreen (hQ : Stable Q) (part : ScreenPart) (h : Q s) : Q (s.eraseScreen part) := by
  cases part with
  | below => exact hQ.resetRows _ _ (hQ.eraseCells _ _ h)
  | above =>
    refine hQ.eraseCells _ _ ?_
    split
    · exact hQ.resetRows _ _ h
    · exact h
  | whole =>
    cases halternate : s.isAlternate with
    | true =>
      simp only [Screen.eraseScreen, halternate, if_true]
      exact hQ.resetRows _ _ h
    | false =>
      simp only [Screen.eraseScreen, halternate, Bool.false_eq_true, if_false]
      exact hQ.clearViewport h
  | history => exact hQ.clearHistory h

theorem eraseScreenBy (hQ : Stable Q) (number : Nat) (h : Q s) : Q (s.eraseScreenBy number) := by
  unfold Screen.eraseScreenBy
  split
  · exact hQ.eraseScreen .below h
  · exact hQ.eraseScreen .above h
  · exact hQ.eraseScreen .whole h
  · exact hQ.eraseScreen .history h
  · exact h

theorem setAlternate (hQ : Stable Q) (on : Bool) (h : Q s) : Q (s.setAlternate on) := by
  unfold Screen.setAlternate
  split
  · exact h
  · exact hQ.swapGrids h

theorem assignPrivateMode (hQ : Stable Q) (on : Bool) (number : Nat) (h : Q s) :
    Q (assignPrivateMode on s number) := by
  unfold Screen.assignPrivateMode
  split
  · exact hQ.setAlternate on h
  · exact hQ.resetRows _ _ (hQ.setRegion 1 none h)
  · have hassigned : Q { s with modes := s.modes.assign on .origin } := hQ.congr h rfl rfl rfl rfl
    dsimp only
    split
    · exact hQ.moveTo 0 0 hassigned
    · exact hassigned
  · rename_i mode hnotAlternate _ _ _
    refine hQ.congr h rfl rfl ?_ rfl
    cases mode <;> first
      | exact absurd rfl hnotAlternate
      | cases on <;> rfl
  · exact h

theorem assignAnsiMode (hQ : Stable Q) (on : Bool) (number : Nat) (h : Q s) :
    Q (assignAnsiMode on s number) := by
  unfold Screen.assignAnsiMode
  split
  · rename_i mode _
    refine hQ.congr h rfl rfl ?_ rfl
    cases mode <;> rfl
  · exact h

theorem reportStatus (hQ : Stable Q) (number : Nat) (h : Q s) : Q (s.reportStatus number) := by
  unfold Screen.reportStatus
  split
  · exact hQ.congr h rfl rfl rfl rfl
  · exact hQ.congr h rfl rfl rfl rfl
  · exact h

theorem identify (hQ : Stable Q) (intermediate : Option UInt8) (h : Q s) :
    Q (s.identify intermediate) := by
  unfold Screen.identify
  split
  · exact hQ.congr h rfl rfl rfl rfl
  · exact hQ.congr h rfl rfl rfl rfl
  · exact h

theorem setCursorStyle (hQ : Stable Q) (number : Nat) (h : Q s) : Q (s.setCursorStyle number) := by
  unfold Screen.setCursorStyle
  split
  · exact hQ.congr h rfl rfl rfl rfl
  · exact h

theorem plainSequence (hQ : Stable Q) (parameters : List (List Nat)) (final : Char) (h : Q s) :
    Q (s.plainSequence parameters final) := by
  unfold Screen.plainSequence
  dsimp only
  split
  · exact hQ.insertBlanks _ h
  · exact hQ.moveUp _ _ h
  · exact hQ.moveTo _ _ h
  · exact hQ.moveTo _ _ h
  · exact hQ.modifyCursor _ h
  · exact hQ.modifyCursor _ h
  · exact hQ.modifyCursor _ h
  · exact hQ.moveTo _ _ h
  · exact hQ.moveUp _ _ h
  · exact hQ.moveTo _ _ h
  · exact hQ.moveTo _ _ h
  · exact hQ.moveTo _ _ h
  · exact hQ.modifyCursor _ h
  · exact hQ.eraseScreenBy _ h
  · exact hQ.eraseLineBy _ h
  · exact hQ.insertLines _ h
  · exact hQ.deleteLines _ h
  · exact hQ.deleteCharacters _ h
  · exact hQ.scrollUpFrom _ _ h
  · exact hQ.scrollDownFrom _ _ h
  · exact hQ.eraseCells _ _ h
  · exact hQ.modifyCursor _ h
  · exact hQ.repeatLast _ h
  · exact ite (hQ.identify none h) h
  · exact hQ.moveTo _ _ h
  · exact ite (hQ.congr h rfl rfl rfl rfl) (ite (hQ.congr h rfl rfl rfl rfl) h)
  · exact foldl (fun number h => hQ.assignAnsiMode true number h) _ h
  · exact foldl (fun number h => hQ.assignAnsiMode false number h) _ h
  · exact hQ.modifyCursor _ h
  · exact hQ.reportStatus _ h
  · exact hQ.setRegion _ _ h
  · exact hQ.saveCursor h
  · exact ite (hQ.congr h rfl rfl rfl rfl) h
  · exact hQ.restoreCursor h
  · exact ite (hQ.moveTo _ _ h) h

theorem sequence (hQ : Stable Q) (parameters : List (List Nat)) (intermediates : List UInt8)
    (final : UInt8) (h : Q s) : Q (s.sequence parameters intermediates final) := by
  unfold Screen.sequence
  split
  · exact hQ.plainSequence parameters _ h
  · dsimp only
    split
    · exact foldl (fun number h => hQ.assignPrivateMode true number h) _ h
    · exact foldl (fun number h => hQ.assignPrivateMode false number h) _ h
    · exact ite (hQ.congr h rfl rfl rfl rfl) h
    · exact h
  · exact ite (hQ.congr h rfl rfl rfl rfl) h
  · exact ite (hQ.congr h rfl rfl rfl rfl) h
  · exact ite (hQ.setCursorStyle _ h) h
  · exact ite (hQ.identify _ h) h
  · exact h

theorem designate (hQ : Stable Q) (intermediates : List UInt8) (charset : Charset) (h : Q s) :
    Q (s.designate intermediates charset) := by
  unfold Screen.designate
  split
  · split
    · exact hQ.modifyCursor _ h
    · exact h
  · exact h

theorem escape (hQ : Stable Q) (intermediates : List UInt8) (final : UInt8) (h : Q s) :
    Q (s.escape intermediates final) := by
  unfold Screen.escape
  split
  · exact hQ.designate _ _ h
  · exact hQ.designate _ _ h
  · exact hQ.fillWithLetters h
  · exact hQ.lineFeed h
  · exact hQ.modifyCursor _ (hQ.lineFeed h)
  · exact hQ.congr h rfl rfl rfl rfl
  · exact hQ.reverseLineFeed h
  · exact hQ.identify none h
  · exact hQ.reset h
  · exact hQ.saveCursor h
  · exact hQ.restoreCursor h
  · exact h

theorem execute (hQ : Stable Q) (code : Nat) (h : Q s) : Q (s.execute code) := by
  unfold Screen.execute
  split
  · exact ite (hQ.modifyCursor _ h) h
  · exact hQ.tab h
  · exact hQ.lineFeed h
  · exact hQ.lineFeed h
  · exact hQ.lineFeed h
  · exact hQ.modifyCursor _ h
  · exact hQ.congr h rfl rfl rfl rfl
  · exact hQ.congr h rfl rfl rfl rfl
  · exact h

theorem apply (hQ : Stable Q) (item : ControlItem) (h : Q s) : Q (s.apply item) := by
  cases item with
  | print c => exact hQ.congr (hQ.print c h) rfl rfl rfl rfl
  | execute code => exact hQ.execute code h
  | escape intermediates final => exact hQ.escape intermediates final h
  | sequence parameters intermediates final => exact hQ.sequence parameters intermediates final h

theorem items (hQ : Stable Q) (items : List ControlItem) (h : Q s) :
    Q (items.foldl Screen.apply s) := foldl (fun item h => hQ.apply item h) items h

variable {e : Emulator}

theorem read (hQ : Stable Q) (b : UInt8) (h : Q e.screen) : Q (e.read b).1.screen := hQ.items _ h

theorem step (hQ : Stable Q) (b : UInt8) (h : Q e.screen) : Q (e.step b).screen := by
  unfold Emulator.step
  split
  · dsimp only
    split
    · exact hQ.read b h
    · exact hQ.read b h
  · dsimp only
    split
    · -- the bytes that were held are read one by one
      exact List.foldlRecOn (motive := fun e : Emulator => Q e.screen) _ _ h
        fun _ he b _ => hQ.read b he
    · exact h

theorem feed (hQ : Stable Q) (bytes : List UInt8) (h : Q e.screen) : Q (e.feed bytes).screen :=
  List.foldlRecOn (motive := fun e : Emulator => Q e.screen) bytes Emulator.step h
    fun _ he b _ => hQ.step b he

end Stable

end Screen

end ShellTranscript
