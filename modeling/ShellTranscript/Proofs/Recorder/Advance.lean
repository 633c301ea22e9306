import Mathlib.Tactic.Common
import ShellTranscript.Proofs.Recorder.Coherence
import ShellTranscript.Proofs.Transcript.Runs

-- What a recorder does to its transcript in a step. Whatever the step is and whatever is refused,
-- there are four operations that it is made of, and at most one block is started, with the heading
-- that the step asks for.
namespace ShellTranscript

open Transcript

-- What a block is started with.
structure Heading where
  command : Option Text
  prompt : Option Text
deriving DecidableEq

namespace Transcript

-- Output and conclusions of the open block, empty lines, and clearings.
inductive Continues (t : Transcript) : Transcript → Prop where
  | here : Continues t t
  | write {t' t'' : Transcript} {id : Nat} (output : Snapshot) : Continues t t' →
      t'.activeBlock?.map Block.id = some id → t'.writeOutput id output = .ok t'' → Continues t t''
  | conclude {t' t'' : Transcript} {id : Nat} (exitCode : Int) : Continues t t' →
      t'.activeBlock?.map Block.id = some id → t'.conclude id exitCode = .ok t'' → Continues t t''
  | breakLine {t' : Transcript} : Continues t t' → Continues t t'.closeLast.appendLineBreak
  | clear {t' : Transcript} : Continues t t' → Continues t t'.clear

-- The same with a start, if one is asked for.
inductive Advances (asked : Option Heading) (t : Transcript) : Transcript → Prop where
  | continues {t' : Transcript} : t.Continues t' → Advances asked t t'
  | starts {t₁ t₂ t' : Transcript} {heading : Heading} {id : Nat} : asked = some heading →
      t.Continues t₁ → t₁.start heading.command heading.prompt = .ok (id, t₂) → t₂.Continues t' →
        Advances asked t t'

variable {t t' : Transcript} {asked : Option Heading}

theorem Continues.runs (h : t.Continues t') : t.Runs t' := by
  induction h with
  | here => exact .here
  | write output _ _ hwritten ih => exact ih.trans (runs_writeOutput _ _ output _ hwritten)
  | conclude exitCode _ _ hconcluded ih => exact ih.trans (runs_conclude _ _ exitCode _ hconcluded)
  | breakLine _ ih => exact (ih.trans (runs_closeLast _)).trans (runs_appendLineBreak _)
  | clear _ ih => exact ih.trans (runs_clear _)

theorem Advances.runs (h : t.Advances asked t') : t.Runs t' := by
  cases h with
  | continues hcontinues => exact hcontinues.runs
  | starts _ hbefore hstarted hafter =>
    exact (hbefore.runs.trans (runs_start _ _ _ _ hstarted)).trans hafter.runs

end Transcript

def Event.heading? : Event → Option Heading
  | .commandStarted command prompt _ => some { command, prompt }
  | _ => none

def Task.heading? : Task → Option Heading
  | event e => e.heading?
  | invoke _ => none

def Call.heading? : Call → Option Heading
  | startCommand command prompt => some { command, prompt }
  | handle e => e.heading?
  | _ => none

namespace Desk

-- The heading of the block that a step asks for.
def Step.heading? (d : Desk) : Step → Option Heading
  | call c => c.heading?
  | next => d.stage.mailbox.tasks.head?.bind Task.heading?
  | _ => none

def Continues (d d' : Desk) : Prop := d.recorder.transcript.Continues d'.recorder.transcript

def Advances (asked : Option Heading) (d d' : Desk) : Prop :=
  d.recorder.transcript.Advances asked d'.recorder.transcript

variable {d d' d'' : Desk}

namespace Continues

variable (h : d.Continues d')
include h

theorem backstage (hback : d'.Backstage d'') : d.Continues d'' := by
  rw [Continues, hback.transcript]
  exact h

theorem closeCurrentScope : d.Continues d'.closeCurrentScope :=
  h.backstage (backstage_closeCurrentScope d')

theorem openScope (block : Nat) : d.Continues (d'.openScope block) :=
  h.backstage (backstage_openScope d' block)

theorem applyOutput (output : Snapshot) : d.Continues (d'.applyOutput output).state := by
  unfold Desk.applyOutput
  split
  · exact h
  split
  · exact h
  · rename_i id hactive
    split
    · exact h
    split
    · exact h
    · rename_i t hwritten
      exact Transcript.Continues.write output h hactive hwritten

theorem finishBlock (exitCode : Int) (output : Option Snapshot) :
    d.Continues (d'.finishBlock exitCode output).state := by
  unfold Desk.finishBlock
  have hclosed := h.closeCurrentScope
  generalize d'.closeCurrentScope = c at hclosed
  -- The last output leaves the block that is concluded the open one.
  refine Outcome.state_andThen_of (P := fun w => d.Continues w ∧ w.activeId? = c.activeId?) ?_
    (fun w hw => hw.1) fun w ⟨hw, hactive⟩ => ?_
  · split
    · exact ⟨hclosed.applyOutput _, (sameFace_applyOutput c _).1.activeId?⟩
    · exact ⟨hclosed, rfl⟩
  · dsimp only
    split
    · exact hw
    · rename_i id hid
      split
      · exact hw
      · rename_i t hconcluded
        exact Transcript.Continues.conclude exitCode hw (hactive.trans hid) hconcluded

theorem finishCommand (exitCode : Int) : d.Continues (d'.finishCommand exitCode).state :=
  Outcome.state_restoring h (h.closeCurrentScope.finishBlock exitCode _)

theorem insertEmptyLine : d.Continues d'.insertEmptyLine :=
  Transcript.Continues.breakLine h.closeCurrentScope

theorem changeAlternate (enabled : Bool) : d.Continues (d'.changeAlternate enabled).state := by
  unfold Desk.changeAlternate
  split
  · exact h.closeCurrentScope
  · split
    · exact h
    · rename_i id _
      refine applyOutput ?_ _
      exact h.openScope id
  · exact h

theorem clearBlocks : d.Continues d'.clearBlocks := Transcript.Continues.clear h.closeCurrentScope

end Continues

theorem advances_startBlock (h : d.Continues d') (command prompt : Option Text) (epoch : Nat) :
    d.Advances (some ⟨command, prompt⟩) (d'.startBlock command prompt epoch).state := by
  unfold Desk.startBlock
  split
  · exact .continues h
  · rename_i id t hstarted
    refine .starts rfl h hstarted ?_
    have hbegun : (d'.withTranscript t).Continues (d'.withTranscript t) := Transcript.Continues.here
    dsimp only
    refine Continues.applyOutput (d := d'.withTranscript t) (Continues.openScope ?_ id) _
    exact hbegun

theorem advances_handle (d : Desk) (e : Event) : d.Advances e.heading? (d.handle e).state := by
  have hhere : d.Continues d := Transcript.Continues.here
  apply Outcome.state_restoring (.continues hhere)
  cases e with
  | outputChanged output =>
    simp only [handleEvent]
    split
    · exact .continues (hhere.applyOutput output)
    · exact .continues hhere
  | commandStarted command prompt epoch =>
    simp only [handleEvent]
    refine Outcome.state_andThen_of (P := d.Continues) ?_ (fun _ => .continues)
      fun ready hready => advances_startBlock hready command prompt epoch
    split
    · exact hhere
    · exact hhere.finishBlock 0 none
  | commandFinished exitCode output =>
    simp only [handleEvent]
    split
    · exact .continues hhere
    · exact .continues (hhere.finishBlock exitCode (some output))
  | cleared => exact .continues hhere.clearBlocks
  | alternateChanged enabled => exact .continues (hhere.changeAlternate enabled)
  | terminated | disposed => exact .continues hhere.closeCurrentScope

theorem advances_call (d : Desk) (c : Call) : d.Advances c.heading? (c.run d).state := by
  have hhere : d.Continues d := Transcript.Continues.here
  cases c with
  | startCommand command prompt =>
    simp only [Call.run, Desk.startCommand]
    split
    · exact .continues hhere
    · refine Outcome.state_restoring (.continues hhere) (advances_startBlock ?_ command prompt _)
      exact hhere
  | finishCommand exitCode => exact .continues (hhere.finishCommand exitCode)
  | insertEmptyLine => exact .continues hhere.insertEmptyLine
  | changeAlternate enabled => exact .continues (hhere.changeAlternate enabled)
  | clearBlocks => exact .continues hhere.clearBlocks
  | dispose => exact .continues hhere.closeCurrentScope
  | handle e => exact d.advances_handle e

theorem advances_runTask (d : Desk) (task : Task) :
    d.Advances task.heading? (d.runTask task) := by
  cases task with
  | event e => exact d.advances_handle e
  | invoke label => exact .continues .here

theorem Step.advances (s : Step) (d : Desk) : d.Advances (s.heading? d) (s.play d) := by
  have hhere : d.Continues d := Transcript.Continues.here
  cases s with
  | call c => exact d.advances_call c
  | next =>
    rcases handleNext_cases d with ⟨hsame, -⟩ | ⟨task, rest, htasks, hnext⟩
    · rw [Step.play, hsame]
      exact .continues hhere
    · have hread := advances_runTask (d.withMailbox { d.stage.mailbox with tasks := rest }) task
      rw [Step.play, hnext, Step.heading?, htasks]
      exact hread
  | closeScope index => exact .continues (hhere.backstage (backstage_withScope d index Scope.close))
  | deferNote label => exact .continues (hhere.backstage (backstage_deferNote d label))
  | change | poll | post | setRouter => exact .continues hhere

end Desk

end ShellTranscript
