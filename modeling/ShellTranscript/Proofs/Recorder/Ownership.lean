import Mathlib.Tactic.Common
import ShellTranscript.Proofs.Recorder.Standing
import ShellTranscript.Proofs.Session.Lifecycle

-- Whose output a block shows. A block is opened without output and for the snapshots of one epoch; it
-- shows nothing but what those snapshots have brought, and less of it when it is trimmed. So what the
-- snapshots of an epoch may tell of a command is all that the block of that command ever tells.
namespace ShellTranscript

open Text Transcript

-- What a block is known by: its number, and what its command was started with.
structure Title where
  number : Nat
  command : Option Text
  prompt : Option Text
deriving DecidableEq, Repr

namespace Block

def title (b : Block) : Title := ⟨b.id, b.command, b.prompt⟩

-- The output of a block is there, and it is one that the command may have.
def Shows (P : Title → Text → Prop) (t : Text) (b : Block) : Prop :=
  ∃ output, slice? t b.outputStart b.stop = some output ∧ P b.title output

section Shows

variable {P P' : Title → Text → Prop} {t before prompt command output : Text} {b : Block}

theorem local_shows : Local (Shows P) := by
  intro front more more' b hstop ⟨output, hslice, houtput⟩
  rw [slice?_append_of_le hstop] at hslice
  exact ⟨output, by rw [slice?_append_of_le hstop, hslice], houtput⟩

theorem Shows.mono (h : b.Shows P t) (hP : ∀ title output, P title output → P' title output) :
    b.Shows P' t := by
  obtain ⟨output, hslice, houtput⟩ := h
  exact ⟨output, hslice, hP _ _ houtput⟩

theorem Covers.slice?_output (h : b.Covers before prompt command output) :
    Text.slice? (before ++ prompt ++ command ++ output) b.outputStart b.stop = some output := by
  have hslice := slice?_append (before ++ prompt ++ command) output []
  rwa [List.append_nil, ← h.outputStart, ← h.stop] at hslice

theorem Covers.shows (h : b.Covers before prompt command output) (hP : P b.title output) :
    b.Shows P (before ++ prompt ++ command ++ output) := ⟨output, h.slice?_output, hP⟩

theorem Covers.of_shows (h : b.Covers before prompt command output)
    (hshows : b.Shows P (before ++ prompt ++ command ++ output)) : P b.title output := by
  obtain ⟨shown, hslice, hshown⟩ := hshows
  obtain rfl : shown = output := Option.some.inj (hslice.symm.trans h.slice?_output)
  exact hshown

theorem title_concludedBlock (b : Block) (body : Text) (exitCode : Int) (isFirst : Bool) :
    (concludedBlock b body exitCode isFirst).title = b.title := by
  obtain ⟨hprompt, hcommand, -⟩ := concludedBlock_fields b body exitCode isFirst
  rw [title, concludedBlock_id, hcommand, hprompt]
  rfl

end Shows

end Block

namespace Desk

-- What the blocks show is theirs, and the open one waits for snapshots of an epoch of its own.
structure Owned (shown : Title → Text → Prop) (awaited : Title → Nat → Prop) (d : Desk) : Prop where
  shows : d.recorder.transcript.Every (Block.Shows shown)
  awaits : ∀ b, d.recorder.transcript.activeBlock? = some b →
    ∀ epoch, d.recorder.epoch = some epoch → awaited b.title epoch

-- The title of the block that comes next.
def nextTitle (d : Desk) (command prompt : Option Text) : Title :=
  ⟨d.recorder.transcript.nextId, notEmpty command, notEmpty prompt⟩

-- A snapshot may be told of every command that waits for snapshots of its epoch.
def Authentic (shown : Title → Text → Prop) (awaited : Title → Nat → Prop) (output : Snapshot) :
    Prop := ∀ title, awaited title output.epoch → shown title output.text

-- The acts that open no block and write nothing false.
def Act.Honest (shown : Title → Text → Prop) (awaited : Title → Nat → Prop) : Act → Prop
  | start _ _ _ => False
  | write output => Authentic shown awaited output
  | _ => True

section Ownership

variable {shown shown' : Title → Text → Prop} {awaited awaited' : Title → Nat → Prop} {d d' : Desk}
  {a : Act}

theorem Owned.mono (h : d.Owned shown awaited)
    (hshown : ∀ title output, shown title output → shown' title output)
    (hawaited : ∀ title epoch, awaited title epoch → awaited' title epoch) :
    d.Owned shown' awaited' :=
  ⟨fun b hb => (h.shows b hb).mono hshown,
    fun b hactive epoch hepoch => hawaited _ _ (h.awaits b hactive epoch hepoch)⟩

theorem owned_new (stage : Stage) : Owned shown awaited { stage } :=
  ⟨fun _ hb => (List.not_mem_nil hb).elim, fun _ hactive => by cases hactive⟩

theorem Owned.of_still (h : d.Owned shown awaited) (hstill : d.Still d') :
    d'.Owned shown awaited := by
  refine ⟨h.shows.of_sameRecord hstill.record, fun b hactive epoch hepoch => ?_⟩
  refine h.awaits b ?_ epoch (hstill.epoch epoch hepoch)
  rwa [activeBlock?, lastBlock?, hstill.record.blocks] at hactive

-- With no block open there is nothing to wait for.
theorem Resting.owned (h : d.Resting) (hshows : d.recorder.transcript.Every (Block.Shows shown)) :
    d.Owned shown awaited :=
  ⟨hshows, fun b hactive => by cases h.activeBlock?.symm.trans hactive⟩

theorem Recording.owned {before prompt command output : Text} {closed : List Block} {b : Block}
    (h : d.Recording before prompt command output closed b)
    (hshows : d.recorder.transcript.Every (Block.Shows shown))
    (hawaited : ∀ epoch, d.recorder.epoch = some epoch → awaited b.title epoch) :
    d.Owned shown awaited := by
  refine ⟨hshows, fun c hactive => ?_⟩
  obtain rfl := Option.some.inj (h.activeBlock?.symm.trans hactive)
  exact hawaited

-- A start opens a block that shows nothing yet.
theorem Does.owned_start {command prompt : Option Text} {epoch : Nat}
    (h : d.Does (.start command prompt epoch) d') (howned : d.Owned shown awaited)
    (hshown : shown (d.nextTitle command prompt) [])
    (hawaited : awaited (d.nextTitle command prompt) epoch) :
    d'.Owned shown awaited ∧ d'.recorder.transcript.nextId = d.recorder.transcript.nextId + 1 := by
  cases h with
  | start _ _ _ resting recording hepoch hnext =>
    refine ⟨recording.owned ?_ fun epoch' hepoch' => ?_, hnext⟩
    · exact resting.every_started Block.local_shows howned.shows recording
        (recording.covers.shows hshown)
    · obtain rfl := Option.some.inj (hepoch.symm.trans hepoch')
      exact hawaited

-- Nothing else lets a block show what is not its own.
theorem Does.owned (h : d.Does a d') (ha : a.Honest shown awaited)
    (hcut : ∀ title output part, shown title output → part <+: output → shown title part)
    (howned : d.Owned shown awaited) :
    d'.Owned shown awaited ∧ d'.recorder.transcript.nextId = d.recorder.transcript.nextId := by
  cases h with
  | start => exact ha.elim
  | write output recording _ hcurrent recording' hepoch hnext =>
    have hawaits := howned.awaits _ recording.activeBlock?
    have hwritten := recording'.covers.shows (ha _ (hawaits _ hcurrent))
    exact ⟨recording'.owned
      (recording.every_written Block.local_shows howned.shows recording' hwritten)
      fun epoch hepoch' => hawaits epoch (hepoch.symm.trans hepoch'), hnext⟩
  | conclude exitCode recording resting htext hblocks hnext =>
    refine ⟨resting.owned ?_, hnext⟩
    refine recording.every_concluded Block.local_shows howned.shows htext hblocks ?_
    obtain ⟨prompt, command, output, hparts, hprefix, hcovers⟩ :=
      concludedBlock_covers recording.covers exitCode _
    rw [hparts, ← List.append_assoc, ← List.append_assoc]
    refine hcovers.shows ?_
    rw [Block.title_concludedBlock]
    exact hcut _ _ _ (recording.covers.of_shows (recording.of_every howned.shows)) hprefix
  | breakLine shaped resting htext hblocks hnext =>
    exact ⟨resting.owned (shaped.every_broken Block.local_shows howned.shows htext hblocks
      fun _ _ => id), hnext⟩
  | clear resting hblocks hnext =>
    refine ⟨resting.owned fun b hb => ?_, hnext⟩
    rw [hblocks] at hb
    cases hb

theorem Through.owned (h : d.Through (Act.Honest shown awaited) d')
    (hcut : ∀ title output part, shown title output → part <+: output → shown title part)
    (howned : d.Owned shown awaited) :
    d'.Owned shown awaited ∧ d'.recorder.transcript.nextId = d.recorder.transcript.nextId := by
  induction h with
  | here => exact ⟨howned, rfl⟩
  | still _ hstill ih => exact ⟨ih.1.of_still hstill, hstill.record.nextId.trans ih.2⟩
  | act _ ha hdoes ih =>
    obtain ⟨hafter, hnext⟩ := hdoes.owned ha hcut ih.1
    exact ⟨hafter, hnext.trans ih.2⟩

variable {e : Event}

-- What an event may bring, and what may be seen when it is handled.
structure Admits (shown : Title → Text → Prop) (awaited : Title → Nat → Prop) (d : Desk)
    (e : Event) : Prop where
  brought : ∀ output, e.snapshot? = some output → Authentic shown awaited output
  seen : d.glances e = true → Authentic shown awaited d.stage.terminal.snapshot
  started : ∀ command prompt epoch, e = .commandStarted command prompt epoch →
    shown (d.nextTitle command prompt) [] ∧ awaited (d.nextTitle command prompt) epoch

theorem Act.Follows.honest (h : a.Follows d e) (hadmits : d.Admits shown awaited e)
    (hstart : e.isStart = false) : a.Honest shown awaited := by
  cases a with
  | start command prompt epoch => cases e <;> simp_all [Act.Follows, Event.isStart]
  | write output =>
    rcases h.written with hbrings | ⟨hglance, rfl⟩
    · exact hadmits.brought output hbrings
    · exact hadmits.seen hglance
  | _ => exact trivial

-- Every start is given a number of its own.
theorem Owned.handle (howned : d.Owned shown awaited) (h : d.Shaped)
    (hready : d.recorder.state = .idle → d.Resting) (hfits : (Call.handle e).Fits d)
    (hcut : ∀ title output part, shown title output → part <+: output → shown title part)
    (hadmits : d.Admits shown awaited e) :
    (d.handle e).state.Owned shown awaited ∧ (d.handle e).state.recorder.transcript.nextId =
      d.recorder.transcript.nextId + if e.isStart then 1 else 0 := by
  cases hstart : e.isStart with
  | false =>
    have hhonest := (h.through_handleEvent hfits).mono fun a ha => ha.honest hadmits hstart
    exact Outcome.state_restoring (P := fun d' : Desk => d'.Owned shown awaited ∧
      d'.recorder.transcript.nextId = d.recorder.transcript.nextId + 0) ⟨howned, rfl⟩
        (hhonest.owned hcut howned)
  | true =>
    obtain ⟨command, prompt, epoch, rfl⟩ : ∃ command prompt epoch,
        e = .commandStarted command prompt epoch := by
      cases e with
      | commandStarted command prompt epoch => exact ⟨_, _, _, rfl⟩
      | _ => cases hstart
    obtain ⟨d₁, d₂, hbefore, hdoes, hafter⟩ := h.started_does hready hfits
    obtain ⟨howned₁, hnext₁⟩ := (hbefore.mono fun a ha => ha ▸ trivial).owned hcut howned
    obtain ⟨hshown, hawaited⟩ := hadmits.started command prompt epoch rfl
    rw [nextTitle, ← hnext₁] at hshown hawaited
    obtain ⟨howned₂, hnext₂⟩ := hdoes.owned_start howned₁ hshown hawaited
    obtain ⟨howned₃, hnext₃⟩ := (hafter.mono fun a ha => ha ▸ hadmits.seen rfl).owned hcut howned₂
    have hsafe := h.handleEvent (e := .commandStarted command prompt epoch) trivial hfits
    rw [Desk.handle, hsafe.restoring]
    exact ⟨howned₃, by rw [hnext₃, hnext₂, hnext₁]; rfl⟩

end Ownership

end Desk

end ShellTranscript
