import Mathlib.Tactic.Common
import ShellTranscript.Proofs.Screen.Replies
import ShellTranscript.Proofs.Signal.Told
import ShellTranscript.Session.Reading

-- Readings whose terminals show the same and that are as far with their commands. What they do next
-- differs at most in how the command that starts is named, and in the exit code of one that is broken
-- off: these come from what the shell told.
namespace ShellTranscript

theorem Screen.Alike.trans {s s' s'' : Screen} (h : s.Alike s') (h' : s'.Alike s'') :
    s.Alike s'' := by
  obtain ⟨_, rfl⟩ := h
  obtain ⟨replies, rfl⟩ := h'
  exact ⟨replies, rfl⟩

theorem Screen.Alike.symm {s s' : Screen} (h : s.Alike s') : s'.Alike s := by
  obtain ⟨_, rfl⟩ := h
  exact ⟨s.replies, rfl⟩

theorem Emulator.Alike.symm {e e' : Emulator} (h : e.Alike e') : e'.Alike e :=
  ⟨h.control.symm, h.screen.symm, h.held.symm⟩

theorem Emulator.Alike.trans {e e' e'' : Emulator} (h : e.Alike e') (h' : e'.Alike e'') :
    e.Alike e'' :=
  ⟨h'.control.trans h.control, h.screen.trans h'.screen, h'.held.trans h.held⟩

namespace Terminal

-- Terminals may differ in their replies and in how often they changed.
structure Alike (t t' : Terminal) : Prop where
  emulator : t.emulator.Alike t'.emulator
  epoch : t'.epoch = t.epoch

namespace Alike

variable {t t' t'' : Terminal}

theorem refl (t : Terminal) : t.Alike t := ⟨.refl t.emulator, rfl⟩

theorem trans (h : t.Alike t') (h' : t'.Alike t'') : t.Alike t'' :=
  ⟨h.emulator.trans h'.emulator, h'.epoch.trans h.epoch⟩

theorem symm (h : t.Alike t') : t'.Alike t := ⟨h.emulator.symm, h.epoch.symm⟩

theorem snapshot (h : t.Alike t') : t'.snapshot = t.snapshot := by
  obtain ⟨replies, hscreen⟩ := h.emulator.screen
  simp only [Terminal.snapshot, Terminal.isAlternate, Terminal.screen, hscreen, h.epoch]
  rfl

theorem plainText (h : t.Alike t') : t'.plainText = t.plainText := by
  obtain ⟨replies, hscreen⟩ := h.emulator.screen
  simp only [Terminal.plainText, Terminal.screen, hscreen]
  rfl

theorem textToCursor (h : t.Alike t') : t'.textToCursor = t.textToCursor := by
  obtain ⟨replies, hscreen⟩ := h.emulator.screen
  simp only [Terminal.textToCursor, Terminal.screen, hscreen]
  rfl

theorem write (h : t.Alike t') (bytes : List UInt8) : (t.write bytes).Alike (t'.write bytes) := by
  unfold Terminal.write
  split
  · exact h
  · exact ⟨h.emulator.feed bytes, h.epoch⟩

theorem clearAll (h : t.Alike t') : t.clearAll.Alike t'.clearAll :=
  ⟨h.emulator.feed resetSequence, congrArg (· + 1) h.epoch⟩

theorem takeReplies (t : Terminal) : t.Alike t.takeReplies.2 := ⟨⟨rfl, ⟨[], rfl⟩, rfl⟩, rfl⟩

end Alike

theorem write_emulator (t : Terminal) (bytes : List UInt8) :
    (t.write bytes).emulator = t.emulator.feed bytes := by
  unfold Terminal.write
  split
  · rename_i hempty
    rw [List.isEmpty_iff.mp hempty]
    rfl
  · rfl

theorem write_epoch (t : Terminal) (bytes : List UInt8) : (t.write bytes).epoch = t.epoch := by
  unfold Terminal.write
  split <;> rfl

-- It does not matter how a text is cut when it is written.
theorem alike_write_append (t : Terminal) (front back : List UInt8) :
    ((t.write front).write back).Alike (t.write (front ++ back)) := by
  refine ⟨?_, by simp only [write_epoch]⟩
  rw [write_emulator, write_emulator, write_emulator, Emulator.feed_append]
  exact .refl _

end Terminal

namespace Reading

structure Alike (r r' : Reading) : Prop where
  terminal : r.terminal.Alike r'.terminal
  prompt : r'.prompt = r.prompt
  isRunning : r'.isRunning = r.isRunning
  sentCommand : r'.sentCommand = r.sentCommand

-- The reading without the command that still runs.
def interrupted (r : Reading) : Reading :=
  if r.isRunning then { r with isRunning := false }.reset else r

theorem interrupted_of_idle {r : Reading} (h : r.isRunning = false) : r.interrupted = r := by
  simp [interrupted, h]

-- The name of the command that would start now if the shell had reported none.
def unreportedCommand (r : Reading) : Option Text :=
  typedCommand r.interrupted.terminal.plainText r.prompt <|> r.sentCommand

-- The name of the command that would start now.
def nextCommand (r : Reading) : Option Text :=
  r.decoder.shell.reportedCommand <|> r.unreportedCommand

-- The exit code of the command that would be broken off now.
def brokenExit (r : Reading) : Int := r.decoder.shell.lastExit.getD 0

-- The reading after a command has started.
def started (r : Reading) : Reading :=
  { r.interrupted with
    decoder := r.decoder.takeReportedCommand.2
    prompt := none
    isRunning := true
    sentCommand := none
    echo := r.echo.clear }.reset

theorem startCommand_fst (r : Reading) : r.startCommand.1 = r.started := by
  unfold startCommand finishCommand started interrupted
  cases hrunning : r.isRunning <;> rfl

theorem startCommand_events (r : Reading) : r.startCommand.2.map Notice.event =
    (if r.isRunning then [.commandFinished r.brokenExit r.terminal.snapshot] else []) ++
      [.commandStarted r.nextCommand r.prompt r.started.terminal.epoch] := by
  unfold startCommand finishCommand started nextCommand unreportedCommand interrupted brokenExit
  cases hrunning : r.isRunning <;> rfl

-- Only a start takes what the shell reported.
theorem act_decoder (r : Reading) (notice : ShellNotice) : (r.act notice).1.decoder =
    if notice = .commandExecuted then r.decoder.takeReportedCommand.2 else r.decoder := by
  cases notice with
  | commandExecuted =>
    simp only [act, startCommand_fst]
    rfl
  | commandFinished exitCode =>
    simp only [act, finishCommand]
    split <;> rfl
  | _ => rfl

namespace Alike

variable {r r' r'' : Reading}

theorem refl (r : Reading) : r.Alike r := ⟨.refl r.terminal, rfl, rfl, rfl⟩

theorem trans (h : r.Alike r') (h' : r'.Alike r'') : r.Alike r'' :=
  ⟨h.terminal.trans h'.terminal, h'.prompt.trans h.prompt, h'.isRunning.trans h.isRunning,
    h'.sentCommand.trans h.sentCommand⟩

theorem symm (h : r.Alike r') : r'.Alike r :=
  ⟨h.terminal.symm, h.prompt.symm, h.isRunning.symm, h.sentCommand.symm⟩

theorem print (h : r.Alike r') (bytes : List UInt8) : (r.print bytes).Alike (r'.print bytes) :=
  ⟨h.terminal.write bytes, h.prompt, h.isRunning, h.sentCommand⟩

theorem interrupted (h : r.Alike r') : r.interrupted.Alike r'.interrupted := by
  unfold Reading.interrupted
  rw [h.isRunning]
  split
  · exact ⟨h.terminal.clearAll, h.prompt, rfl, h.sentCommand⟩
  · exact h

theorem unreportedCommand (h : r.Alike r') : r'.unreportedCommand = r.unreportedCommand := by
  rw [Reading.unreportedCommand, Reading.unreportedCommand, h.interrupted.terminal.plainText,
    h.prompt, h.sentCommand]

theorem started (h : r.Alike r') : r.started.Alike r'.started :=
  ⟨h.interrupted.terminal.clearAll, rfl, rfl, rfl⟩

theorem notePrompt (h : r.Alike r') : r.notePrompt.Alike r'.notePrompt := by
  refine ⟨h.terminal, ?_, h.isRunning, h.sentCommand⟩
  simp only [Reading.notePrompt, h.terminal.textToCursor]

theorem finishCommand (h : r.Alike r') (exitCode : Int) :
    (r.finishCommand exitCode).1.Alike (r'.finishCommand exitCode).1 ∧
      (r'.finishCommand exitCode).2.map Notice.event =
        (r.finishCommand exitCode).2.map Notice.event := by
  unfold Reading.finishCommand
  rw [h.isRunning]
  split
  · refine ⟨⟨h.terminal.clearAll, h.prompt, rfl, h.sentCommand⟩, ?_⟩
    simp only [List.map_cons, List.map_nil, Notice.event, h.terminal.snapshot]
  · exact ⟨h, rfl⟩

-- What the shell told before makes no difference to where a notice leads.
theorem act (h : r.Alike r') (notice : ShellNotice) :
    (r.act notice).1.Alike (r'.act notice).1 ∧
      (r'.act notice).2.length = (r.act notice).2.length := by
  cases notice with
  | commandStart => exact ⟨h.notePrompt, rfl⟩
  | commandExecuted =>
    have hlength : ∀ r : Reading, r.startCommand.2.length = if r.isRunning then 2 else 1 := by
      intro r
      rw [← List.length_map Notice.event, startCommand_events]
      split <;> rfl
    simp only [Reading.act, startCommand_fst, hlength, h.isRunning, and_true]
    exact h.started
  | commandFinished exitCode =>
    obtain ⟨halike, hevents⟩ := h.finishCommand exitCode
    have hlength := congrArg List.length hevents
    simp only [List.length_map] at hlength
    exact ⟨halike, hlength⟩
  | alternateBuffer enabled => exact ⟨⟨h.terminal, h.prompt, h.isRunning, h.sentCommand⟩, rfl⟩
  | _ => exact ⟨h, rfl⟩

-- It makes one to what is told of a start.
theorem act_events (h : r.Alike r') (notice : ShellNotice)
    (hname : notice = .commandExecuted → r'.nextCommand = r.nextCommand)
    (hexit : notice = .commandExecuted → r.isRunning = true → r'.brokenExit = r.brokenExit) :
    (r'.act notice).2.map Notice.event = (r.act notice).2.map Notice.event := by
  cases notice with
  | commandExecuted =>
    simp only [Reading.act, startCommand_events, h.isRunning, h.prompt, hname rfl,
      h.terminal.snapshot, h.started.terminal.epoch]
    split
    · rename_i hrunning
      rw [hexit rfl hrunning]
    · rfl
  | commandFinished exitCode => exact (h.finishCommand exitCode).2
  | _ => rfl

end Alike

end Reading

end ShellTranscript
