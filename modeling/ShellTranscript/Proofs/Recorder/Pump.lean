import Mathlib.Tactic.Common
import ShellTranscript.Proofs.Recorder.Backstage
import ShellTranscript.Proofs.Sampler.Watched

-- The mailbox: what is posted to it, and how a recorder works through it. Whatever a recorder is
-- told, it leaves the terminal and the mailbox alone, so that a pump handles the tasks that are there
-- in their order, and leaves none.
namespace ShellTranscript

def Mailbox.postAll (m : Mailbox) (events : List Event) : Mailbox :=
  { m with tasks := m.tasks ++ events.map Task.event }

theorem Mailbox.postAll_nil (m : Mailbox) : m.postAll [] = m := by
  simp [postAll]

theorem Mailbox.postAll_postAll (m : Mailbox) (front back : List Event) :
    (m.postAll front).postAll back = m.postAll (front ++ back) := by
  simp [postAll]

theorem Mailbox.postEvent_eq {m : Mailbox} (h : m.isClosed = false) (e : Event) :
    m.postEvent e = m.postAll [e] := by
  simp [postEvent, post, postAll, h]

theorem Mailbox.foldl_postEvent {α : Type} {m : Mailbox} (h : m.isClosed = false) (e : Event)
    (listeners : List α) : listeners.foldl (fun m _ => m.postEvent e) m =
      m.postAll (List.replicate listeners.length e) := by
  induction listeners generalizing m with
  | nil => exact m.postAll_nil.symm
  | cons listener listeners ih =>
    rw [List.foldl_cons, postEvent_eq h, ih (m := m.postAll [e]) h, postAll_postAll]
    rfl

namespace Desk

structure SameOutside (d d' : Desk) : Prop where
  terminal : d'.stage.terminal = d.stage.terminal
  mailbox : d'.stage.mailbox = d.stage.mailbox

section Outside

variable {d d' d'' : Desk}

theorem SameOutside.refl (d : Desk) : d.SameOutside d := ⟨rfl, rfl⟩

theorem SameOutside.trans (h : d.SameOutside d') (h' : d'.SameOutside d'') : d.SameOutside d'' :=
  ⟨h'.terminal.trans h.terminal, h'.mailbox.trans h.mailbox⟩

theorem Backstage.sameOutside (h : d.Backstage d') : d.SameOutside d' := by
  cases h
  exact ⟨rfl, rfl⟩

theorem sameOutside_closeCurrentScope (d : Desk) : d.SameOutside d.closeCurrentScope :=
  (backstage_closeCurrentScope d).sameOutside

theorem sameOutside_applyOutput (d : Desk) (output : Snapshot) :
    d.SameOutside (d.applyOutput output).state := by
  rcases applyOutput_cases d output with hsame | ⟨t, caret, hwritten⟩
  · rw [hsame]
    exact .refl d
  · rw [hwritten]
    exact ⟨rfl, rfl⟩

theorem sameOutside_startBlock (d : Desk) (command prompt : Option Text) (epoch : Nat) :
    d.SameOutside (d.startBlock command prompt epoch).state := by
  unfold startBlock
  split
  · exact .refl d
  · rename_i id t _
    have hopened := (backstage_openScope ((((d.withTranscript t).modifyRecorder fun r =>
      { r with state := .running, epoch := some epoch })).showCaret
        (((d.withTranscript t).modifyRecorder fun r =>
          { r with state := .running, epoch := some epoch }).stopOf id)) id).sameOutside
    exact SameOutside.trans ⟨hopened.terminal, hopened.mailbox⟩ (sameOutside_applyOutput _ _)

theorem sameOutside_finishBlock (d : Desk) (exitCode : Int) (output : Option Snapshot) :
    d.SameOutside (d.finishBlock exitCode output).state := by
  refine Outcome.state_andThen ?_ fun d' h => h.trans ?_
  · split
    · exact (sameOutside_closeCurrentScope d).trans (sameOutside_applyOutput _ _)
    · exact sameOutside_closeCurrentScope d
  · split
    · exact ⟨rfl, rfl⟩
    · dsimp only
      split <;> exact ⟨rfl, rfl⟩

theorem sameOutside_changeAlternate (d : Desk) (enabled : Bool) :
    d.SameOutside (d.changeAlternate enabled).state := by
  unfold changeAlternate
  split
  · exact (sameOutside_closeCurrentScope d).trans ⟨rfl, rfl⟩
  · split
    · exact ⟨rfl, rfl⟩
    · rename_i id _
      have hopened := (backstage_openScope d id).sameOutside
      have hrunning : d.SameOutside ((d.openScope id).modifyRecorder fun r =>
          { r with state := .running }) := ⟨hopened.terminal, hopened.mailbox⟩
      exact hrunning.trans (sameOutside_applyOutput _ _)
  · exact .refl d

theorem sameOutside_handleEvent (d : Desk) (e : Event) : d.SameOutside (d.handleEvent e).state := by
  cases e with
  | outputChanged output =>
    simp only [handleEvent]
    split
    · exact sameOutside_applyOutput d output
    · exact .refl d
  | commandStarted command prompt epoch =>
    refine Outcome.state_andThen ?_ fun d' h =>
      h.trans (sameOutside_startBlock d' command prompt epoch)
    split
    · exact .refl d
    · exact sameOutside_finishBlock d 0 none
  | commandFinished exitCode output =>
    simp only [handleEvent]
    split
    · exact .refl d
    · exact sameOutside_finishBlock d exitCode (some output)
  | cleared => exact (sameOutside_closeCurrentScope d).trans ⟨rfl, rfl⟩
  | alternateChanged enabled => exact sameOutside_changeAlternate d enabled
  | terminated => exact (sameOutside_closeCurrentScope d).trans ⟨rfl, rfl⟩
  | disposed => exact (sameOutside_closeCurrentScope d).trans ⟨rfl, rfl⟩

theorem sameOutside_handle (d : Desk) (e : Event) : d.SameOutside (d.handle e).state :=
  Outcome.state_restoring (.refl d) (sameOutside_handleEvent d e)

theorem sameOutside_runTask (d : Desk) (task : Task) : d.SameOutside (d.runTask task) := by
  cases task with
  | event e => exact sameOutside_handle d e
  | invoke label => exact (backstage_note d (.ran label)).sameOutside

end Outside

def withMailbox (d : Desk) (mailbox : Mailbox) : Desk := { d with stage := { d.stage with mailbox } }

def nextEvent? (d : Desk) : Option Event :=
  match d.stage.mailbox.tasks with
  | .event e :: _ => some e
  | _ => none

theorem mem_nextEvent? {d : Desk} {e : Event} {rest : List Task}
    (htasks : d.stage.mailbox.tasks = .event e :: rest) : e ∈ d.nextEvent? := by
  simp only [nextEvent?, htasks, Option.mem_def]

def handleNext (d : Desk) : Desk :=
  match d.stage.mailbox.next? with
  | none => d
  | some (task, mailbox) => (d.withMailbox mailbox).runTask task

def poll (d : Desk) : Desk := { d with stage := d.stage.poll.1 }

-- A poll posts what the terminal shows now to everyone who listens, or does nothing.
theorem poll_of_sample {d : Desk} (hopen : d.stage.mailbox.isClosed = false) {output : Snapshot}
    (hsample : d.stage.sampler.sample d.stage.terminal = some output) :
    d.poll = { d with stage := { d.stage with
      sampler := d.stage.sampler.send d.stage.terminal.snapshot
      mailbox := d.stage.mailbox.postAll (List.replicate d.stage.sampler.listeners.members.length
        (.outputChanged d.stage.terminal.snapshot)) } } := by
  obtain rfl := Sampler.eq_snapshot_of_sample hsample
  simp only [poll, Stage.poll, hsample, Mailbox.foldl_postEvent hopen]

theorem poll_of_no_sample {d : Desk} (hsample : d.stage.sampler.sample d.stage.terminal = none) :
    d.poll = d := by
  simp only [poll, Stage.poll, hsample]

theorem terminal_poll (d : Desk) : d.poll.stage.terminal = d.stage.terminal := by
  unfold poll Stage.poll
  split <;> rfl

theorem listeners_poll (d : Desk) :
    d.poll.stage.sampler.listeners = d.stage.sampler.listeners := by
  unfold poll Stage.poll
  split <;> rfl

theorem handleNext_cases (d : Desk) : d.handleNext = d ∧ d.stage.mailbox.tasks = [] ∨
    ∃ task rest, d.stage.mailbox.tasks = task :: rest ∧
      d.handleNext = (d.withMailbox { d.stage.mailbox with tasks := rest }).runTask task := by
  cases htasks : d.stage.mailbox.tasks with
  | nil =>
    refine .inl ⟨?_, rfl⟩
    simp only [handleNext, Mailbox.next?, htasks]
  | cons task rest =>
    refine .inr ⟨task, rest, rfl, ?_⟩
    simp only [handleNext, Mailbox.next?, htasks]

theorem mailbox_handleNext {d : Desk} {task : Task} {rest : List Task}
    (htasks : d.stage.mailbox.tasks = task :: rest) :
    d.handleNext.stage.mailbox = { d.stage.mailbox with tasks := rest } := by
  simp only [handleNext, Mailbox.next?, htasks]
  exact (sameOutside_runTask _ task).mailbox

theorem terminal_handleNext (d : Desk) : d.handleNext.stage.terminal = d.stage.terminal := by
  rcases handleNext_cases d with ⟨hsame, -⟩ | ⟨task, rest, -, hnext⟩
  · rw [hsame]
  · rw [hnext]
    exact (sameOutside_runTask _ task).terminal

-- What every task keeps, whatever waits behind it, holds at the end of a pump.
theorem pump_induction {P : List Task → Desk → Prop}
    (hstep : ∀ task rest d, P (task :: rest) d → P rest (d.runTask task))
    (hmailbox : ∀ tasks d mailbox, P tasks d → P tasks (d.withMailbox mailbox))
    {d : Desk} (h : P d.stage.mailbox.tasks d) :
    P [] d.pump.1 ∧ d.pump.1.stage.terminal = d.stage.terminal ∧
      d.pump.1.stage.mailbox = { d.stage.mailbox with tasks := [] } := by
  suffices hfor : ∀ tasks (d : Desk), d.stage.mailbox.tasks = tasks → P tasks d →
      P [] (d.pumpFor tasks.length).1 ∧
        (d.pumpFor tasks.length).1.stage.terminal = d.stage.terminal ∧
        (d.pumpFor tasks.length).1.stage.mailbox = { d.stage.mailbox with tasks := [] } from
    hfor _ d rfl h
  intro tasks
  induction tasks with
  | nil =>
    intro d htasks hd
    have hempty : d.stage.mailbox = { d.stage.mailbox with tasks := [] } := by rw [← htasks]
    exact ⟨hd, rfl, hempty⟩
  | cons task rest ih =>
    intro d htasks hd
    have hnext : d.stage.mailbox.next? = some (task, { d.stage.mailbox with tasks := rest }) := by
      rw [Mailbox.next?, htasks]
    have hout := sameOutside_runTask (d.withMailbox { d.stage.mailbox with tasks := rest }) task
    have hrun := hstep task rest _ (hmailbox _ d { d.stage.mailbox with tasks := rest } hd)
    obtain ⟨hP, hterminal, hbox⟩ := ih _ (congrArg Mailbox.tasks hout.mailbox) hrun
    simp only [List.length_cons, pumpFor, hnext]
    refine ⟨hP, hterminal.trans hout.terminal, hbox.trans ?_⟩
    rw [hout.mailbox]
    rfl

end Desk

end ShellTranscript
