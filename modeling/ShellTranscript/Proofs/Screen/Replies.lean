import Mathlib.Tactic.Common
import ShellTranscript.Screen.Emulator

-- What a screen has replied does not matter to what it shows: whatever is read, screens that differ
-- in their replies alone go on to differ in their replies alone.
namespace ShellTranscript

namespace Screen

-- The same screen with other replies.
def saying (s : Screen) (replies : List Text) : Screen := { s with replies }

section Silent

variable (s : Screen) (replies : List Text)

@[simp] theorem saying_grid : (s.saying replies).grid = s.grid := rfl

@[simp] theorem saying_modes : (s.saying replies).modes = s.modes := rfl

@[simp] theorem saying_top : (s.saying replies).top = s.top := rfl

@[simp] theorem saying_bottom : (s.saying replies).bottom = s.bottom := rfl

@[simp] theorem saying_slot : (s.saying replies).slot = s.slot := rfl

@[simp] theorem saying_lastPrinted : (s.saying replies).lastPrinted = s.lastPrinted := rfl

@[simp] theorem saying_columns : (s.saying replies).columns = s.columns := rfl

@[simp] theorem saying_lines : (s.saying replies).lines = s.lines := rfl

@[simp] theorem saying_isAlternate : (s.saying replies).isAlternate = s.isAlternate := rfl

@[simp] theorem saying_inRegion : (s.saying replies).inRegion = s.inRegion := rfl

@[simp] theorem ite_saying (p : Prop) [Decidable p] (s t : Screen) :
    (if p then s else t).saying replies = if p then s.saying replies else t.saying replies := by
  split <;> rfl

@[simp] theorem modifyGrid_saying (f : Grid → Grid) :
    (s.saying replies).modifyGrid f = (s.modifyGrid f).saying replies := rfl

@[simp] theorem modifyCursor_saying (f : Cursor → Cursor) :
    (s.saying replies).modifyCursor f = (s.modifyCursor f).saying replies := rfl

@[simp] theorem moveTo_saying (line column : Nat) :
    (s.saying replies).moveTo line column = (s.moveTo line column).saying replies := rfl

@[simp] theorem moveBackward_saying (count : Nat) :
    (s.saying replies).moveBackward count = (s.moveBackward count).saying replies := rfl

@[simp] theorem carriageReturn_saying :
    (s.saying replies).carriageReturn = s.carriageReturn.saying replies := rfl

@[simp] theorem backspace_saying : (s.saying replies).backspace = s.backspace.saying replies := by
  simp [backspace]

@[simp] theorem scrollUpFrom_saying (top count : Nat) :
    (s.saying replies).scrollUpFrom top count = (s.scrollUpFrom top count).saying replies := rfl

@[simp] theorem scrollDownFrom_saying (top count : Nat) :
    (s.saying replies).scrollDownFrom top count = (s.scrollDownFrom top count).saying replies := rfl

@[simp] theorem scrollUp_saying (count : Nat) :
    (s.saying replies).scrollUp count = (s.scrollUp count).saying replies := rfl

@[simp] theorem scrollDown_saying (count : Nat) :
    (s.saying replies).scrollDown count = (s.scrollDown count).saying replies := rfl

@[simp] theorem lineFeed_saying : (s.saying replies).lineFeed = s.lineFeed.saying replies := by
  simp only [lineFeed, saying_grid, saying_bottom, saying_lines, ite_saying]
  rfl

@[simp] theorem reverseLineFeed_saying :
    (s.saying replies).reverseLineFeed = s.reverseLineFeed.saying replies := by
  simp only [reverseLineFeed, saying_grid, saying_top, ite_saying]
  rfl

@[simp] theorem insertLines_saying (count : Nat) :
    (s.saying replies).insertLines count = (s.insertLines count).saying replies := by
  simp only [insertLines, saying_grid, saying_inRegion, ite_saying]
  rfl

@[simp] theorem deleteLines_saying (count : Nat) :
    (s.saying replies).deleteLines count = (s.deleteLines count).saying replies := by
  simp [deleteLines]

@[simp] theorem setRegion_saying (top : Nat) (bottom : Option Nat) :
    (s.saying replies).setRegion top bottom = (s.setRegion top bottom).saying replies := by
  simp only [setRegion, saying_lines, ite_saying]
  rfl

@[simp] theorem wrapLine_saying : (s.saying replies).wrapLine = s.wrapLine.saying replies := by
  simp only [wrapLine, saying_modes, modifyGrid_saying, saying_grid, saying_bottom,
    lineFeed_saying, modifyCursor_saying, ite_saying, ← carriageReturn_saying]

@[simp] theorem put_saying (c : Char) (kind : CellKind) :
    (s.saying replies).put c kind = (s.put c kind).saying replies := rfl

@[simp] theorem openRoom_saying (width : Nat) :
    (s.saying replies).openRoom width = (s.openRoom width).saying replies := by
  simp only [openRoom, saying_grid, saying_columns, saying_modes, ite_saying]
  rfl

@[simp] theorem advance_saying : (s.saying replies).advance = s.advance.saying replies := rfl

@[simp] theorem printWide_saying (c : Char) :
    (s.saying replies).printWide c = (s.printWide c).saying replies := by
  simp [printWide]

@[simp] theorem print_saying (c : Char) :
    (s.saying replies).print c = (s.print c).saying replies := by
  unfold print
  cases Text.cellWidth? c with
  | none => rfl
  | some width =>
    cases width with
    | zero => rfl
    | succ width =>
      simp only [saying_grid, wrapLine_saying, ← ite_saying, openRoom_saying, put_saying,
        advance_saying, printWide_saying]

@[simp] theorem tab_saying : (s.saying replies).tab = s.tab.saying replies := by
  simp only [tab, saying_grid, wrapLine_saying, ite_saying]
  rfl

@[simp] theorem eraseScreen_saying (part : ScreenPart) :
    (s.saying replies).eraseScreen part = (s.eraseScreen part).saying replies := by
  cases part with
  | above =>
    by_cases h : s.grid.cursor.line > 1
    · have h' : (s.saying replies).grid.cursor.line > 1 := h
      simp only [eraseScreen, if_pos h, if_pos h']
      rfl
    · have h' : ¬(s.saying replies).grid.cursor.line > 1 := h
      simp only [eraseScreen, if_neg h, if_neg h']
      rfl
  | _ => rfl

@[simp] theorem eraseLine_saying (part : LinePart) :
    (s.saying replies).eraseLine part = (s.eraseLine part).saying replies := by
  cases part with
  | toEnd =>
    simp only [eraseLine, saying_grid, ite_saying]
    rfl
  | _ => rfl

@[simp] theorem setAlternate_saying (on : Bool) :
    (s.saying replies).setAlternate on = (s.setAlternate on).saying replies := by
  simp only [setAlternate, swapGrids, saying_modes, saying_isAlternate, ite_saying]
  rfl

theorem foldl_saying {α : Type} {f : Screen → α → Screen}
    (hf : ∀ s a, f (s.saying replies) a = (f s a).saying replies) (items : List α) :
    items.foldl f (s.saying replies) = (items.foldl f s).saying replies := by
  induction items generalizing s with
  | nil => rfl
  | cons a items ih => rw [List.foldl_cons, List.foldl_cons, hf, ih]

@[simp] theorem repeatLast_saying (count : Nat) :
    (s.saying replies).repeatLast count = (s.repeatLast count).saying replies := by
  unfold repeatLast
  rw [saying_lastPrinted]
  cases s.lastPrinted with
  | none => rfl
  | some c => exact foldl_saying s replies (fun s _ => print_saying s replies c) _

@[simp] theorem assignAnsiMode_saying (on : Bool) (number : Nat) :
    assignAnsiMode on (s.saying replies) number = (assignAnsiMode on s number).saying replies := by
  unfold assignAnsiMode
  cases AnsiMode.ofNumber? number <;> rfl

@[simp] theorem assignPrivateMode_saying (on : Bool) (number : Nat) :
    assignPrivateMode on (s.saying replies) number =
      (assignPrivateMode on s number).saying replies := by
  unfold assignPrivateMode
  cases PrivateMode.ofNumber? number with
  | none => rfl
  | some mode =>
    cases mode with
    | alternateScreen => exact setAlternate_saying s replies on
    | columnWidth => simp only [setRegion_saying, modifyGrid_saying]
    | origin =>
      cases on with
      | true => rfl
      | false => rfl
    | _ => rfl

@[simp] theorem designate_saying (intermediates : List UInt8) (charset : Charset) :
    (s.saying replies).designate intermediates charset =
      (s.designate intermediates charset).saying replies := by
  unfold designate
  split
  · split <;> rfl
  · rfl

@[simp] theorem setCursorStyle_saying (number : Nat) :
    (s.saying replies).setCursorStyle number = (s.setCursorStyle number).saying replies := by
  simp only [setCursorStyle, ite_saying]
  rfl

@[simp] theorem eraseScreenBy_saying (number : Nat) :
    (s.saying replies).eraseScreenBy number = (s.eraseScreenBy number).saying replies := by
  unfold eraseScreenBy
  split <;> first | exact eraseScreen_saying s replies _ | rfl

@[simp] theorem eraseLineBy_saying (number : Nat) :
    (s.saying replies).eraseLineBy number = (s.eraseLineBy number).saying replies := by
  unfold eraseLineBy
  split <;> first | exact eraseLine_saying s replies _ | rfl

@[simp] theorem execute_saying (code : Nat) :
    (s.saying replies).execute code = (s.execute code).saying replies := by
  unfold execute
  split <;> first | rfl | simp only [backspace_saying, tab_saying, lineFeed_saying]

end Silent

-- Screens that differ in their replies alone.
def Alike (s s' : Screen) : Prop := ∃ replies, s' = s.saying replies

namespace Alike

variable {s s' : Screen}

theorem refl (s : Screen) : s.Alike s := ⟨s.replies, rfl⟩

theorem foldl {α : Type} {f : Screen → α → Screen}
    (hf : ∀ {s s'} a, s.Alike s' → (f s a).Alike (f s' a)) (items : List α) (h : s.Alike s') :
    (items.foldl f s).Alike (items.foldl f s') := by
  induction items generalizing s s' with
  | nil => exact h
  | cons a items ih => exact ih (hf a h)

-- The same reply may follow different ones.
theorem replySequence (h : s.Alike s') (body : Text) :
    (s.replySequence body).Alike (s'.replySequence body) := by
  obtain ⟨replies, rfl⟩ := h
  exact ⟨replies ++ [Char.ofNat 0x1B :: '[' :: body], rfl⟩

theorem identify (h : s.Alike s') (intermediate : Option UInt8) :
    (s.identify intermediate).Alike (s'.identify intermediate) := by
  unfold Screen.identify
  split
  · exact h.replySequence _
  · exact h.replySequence _
  · exact h

theorem reportStatus (h : s.Alike s') (number : Nat) :
    (s.reportStatus number).Alike (s'.reportStatus number) := by
  obtain ⟨replies, rfl⟩ := h
  unfold Screen.reportStatus
  split
  · exact replySequence ⟨replies, rfl⟩ _
  · exact replySequence ⟨replies, rfl⟩ _
  · exact ⟨replies, rfl⟩

theorem reset (h : s.Alike s') : s.reset.Alike s'.reset := by
  obtain ⟨replies, rfl⟩ := h
  exact ⟨replies, rfl⟩

theorem ite {p : Prop} [Decidable p] {t t' : Screen} (h : s.Alike s') (h' : t.Alike t') :
    (if p then s else t).Alike (if p then s' else t') := by
  split
  · exact h
  · exact h'

theorem plainSequence (h : s.Alike s') (parameters : List (List Nat)) (final : Char) :
    (s.plainSequence parameters final).Alike (s'.plainSequence parameters final) := by
  obtain ⟨replies, rfl⟩ := h
  have hsame : s.Alike (s.saying replies) := ⟨replies, rfl⟩
  unfold Screen.plainSequence
  split
  -- Most operations reply nothing and look at no replies; two reports do reply.
  all_goals first
    | exact ⟨replies, rfl⟩
    | exact ⟨replies, setRegion_saying s replies _ _⟩
    | exact ⟨replies, insertLines_saying s replies _⟩
    | exact ⟨replies, deleteLines_saying s replies _⟩
    | exact ⟨replies, eraseScreenBy_saying s replies _⟩
    | exact ⟨replies, eraseLineBy_saying s replies _⟩
    | exact ⟨replies, repeatLast_saying s replies _⟩
    | exact ⟨replies, foldl_saying s replies (fun s a => assignAnsiMode_saying s replies _ a) _⟩
    | exact hsame.reportStatus _
    | exact ite (hsame.identify none) hsame
    | exact ite (hsame.replySequence _) hsame
    | exact ite ⟨replies, rfl⟩ (ite ⟨replies, rfl⟩ hsame)
    | exact ite ⟨replies, rfl⟩ hsame

theorem sequence (h : s.Alike s') (parameters : List (List Nat)) (intermediates : List UInt8)
    (final : UInt8) :
    (s.sequence parameters intermediates final).Alike
      (s'.sequence parameters intermediates final) := by
  obtain ⟨replies, rfl⟩ := h
  have hsame : s.Alike (s.saying replies) := ⟨replies, rfl⟩
  have hmodes : ∀ on, ((firstNumbers parameters).foldl (assignPrivateMode on) s).Alike
      ((firstNumbers parameters).foldl (assignPrivateMode on) (s.saying replies)) := fun on =>
    ⟨replies, foldl_saying s replies (fun s a => assignPrivateMode_saying s replies on a) _⟩
  unfold Screen.sequence
  split
  · exact hsame.plainSequence parameters _
  · dsimp only
    split
    · exact hmodes true
    · exact hmodes false
    · exact ite ⟨replies, rfl⟩ hsame
    · exact hsame
  · exact ite (hsame.replySequence _) hsame
  · exact ite (hsame.replySequence _) hsame
  · exact ite ⟨replies, setCursorStyle_saying s replies _⟩ hsame
  · exact ite (hsame.identify _) hsame
  · exact hsame

theorem escape (h : s.Alike s') (intermediates : List UInt8) (final : UInt8) :
    (s.escape intermediates final).Alike (s'.escape intermediates final) := by
  obtain ⟨replies, rfl⟩ := h
  have hsame : s.Alike (s.saying replies) := ⟨replies, rfl⟩
  unfold Screen.escape
  split
  · exact ⟨replies, designate_saying s replies _ _⟩
  · exact ⟨replies, designate_saying s replies _ _⟩
  · exact ⟨replies, rfl⟩
  · exact ⟨replies, lineFeed_saying s replies⟩
  · exact ⟨replies, by rw [lineFeed_saying, carriageReturn_saying]⟩
  · exact ⟨replies, rfl⟩
  · exact ⟨replies, reverseLineFeed_saying s replies⟩
  · exact hsame.identify none
  · exact hsame.reset
  · exact ⟨replies, rfl⟩
  · exact ⟨replies, rfl⟩
  · exact hsame

theorem apply (h : s.Alike s') (item : ControlItem) : (s.apply item).Alike (s'.apply item) := by
  cases item with
  | print c =>
    obtain ⟨replies, rfl⟩ := h
    have hprint := print_saying s replies c
    exact ⟨replies, congrArg (fun t : Screen => { t with lastPrinted := some c }) hprint⟩
  | execute code =>
    obtain ⟨replies, rfl⟩ := h
    exact ⟨replies, execute_saying s replies code⟩
  | escape intermediates final => exact h.escape intermediates final
  | sequence parameters intermediates final => exact h.sequence parameters intermediates final

end Alike

end Screen

namespace Emulator

structure Alike (e e' : Emulator) : Prop where
  control : e'.control = e.control
  screen : e.screen.Alike e'.screen
  held : e'.held = e.held

namespace Alike

variable {e e' : Emulator}

theorem refl (e : Emulator) : e.Alike e := ⟨rfl, .refl e.screen, rfl⟩

theorem read (h : e.Alike e') (b : UInt8) :
    (e.read b).1.Alike (e'.read b).1 ∧ (e'.read b).2 = (e.read b).2 := by
  simp only [Emulator.read, h.control]
  exact ⟨⟨rfl, .foldl (fun item h => h.apply item) _ h.screen, h.held⟩, trivial⟩

theorem release (h : e.Alike e') (reversed : List UInt8) :
    (e.release reversed).Alike (e'.release reversed) := by
  have hfold : ∀ (bytes : List UInt8) {e e' : Emulator}, e.Alike e' →
      (bytes.foldl (fun e b => (e.read b).1) e).Alike
        (bytes.foldl (fun e b => (e.read b).1) e') := by
    intro bytes
    induction bytes with
    | nil => exact fun h => h
    | cons b bytes ih => exact fun h => ih (h.read b).1
  exact hfold reversed.reverse ⟨h.control, h.screen, rfl⟩

theorem step (h : e.Alike e') (b : UInt8) : (e.step b).Alike (e'.step b) := by
  unfold Emulator.step
  rw [h.held]
  cases hheld : e.held with
  | none =>
    obtain ⟨hread, hitems⟩ := h.read b
    simp only [hitems]
    split
    · exact ⟨hread.control, hread.screen, rfl⟩
    · exact hread
  | some held =>
    obtain ⟨count, reversed⟩ := held
    simp only
    split
    · exact h.release (b :: reversed)
    · exact ⟨h.control, h.screen, rfl⟩

theorem feed (h : e.Alike e') (bytes : List UInt8) : (e.feed bytes).Alike (e'.feed bytes) := by
  induction bytes generalizing e e' with
  | nil => exact h
  | cons b bytes ih => exact ih (h.step b)

end Alike

end Emulator

end ShellTranscript
