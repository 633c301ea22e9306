import ShellTranscript.Proofs.Recorder.Advance
import ShellTranscript.Proofs.Transcript.Reports

-- A copy of the text. Whatever is done to a transcript, alone or by a recorder, a listener that makes
-- the edits that it is told of in its copy has the text at all times, and comes back to the text that
-- it began with when it takes them back.
namespace ShellTranscript

open Text Transcript

namespace Desk

def Reports (d d' : Desk) : Prop := d.recorder.transcript.Reports d'.recorder.transcript

theorem Reports.refl (d : Desk) : d.Reports d := Transcript.Reports.refl d.recorder.transcript

namespace Reports

variable {d d' : Desk} (h : d.Reports d')
include h

theorem transcript {t : Transcript} (ht : d'.recorder.transcript.Reports t) :
    d.Reports (d'.withTranscript t) :=
  Transcript.Reports.trans h ht

theorem runTask (task : Task) : d.Reports (d'.runTask task) :=
  Transcript.Reports.trans h (advances_runTask d' task).runs.reports

theorem play (s : Step) : d.Reports (s.play d') := Transcript.Reports.trans h (s.advances d').runs.reports

theorem pump : d.Reports d'.pump.1 :=
  (pump_induction (fun task _ _ hbefore => runTask hbefore task) (fun _ _ _ hbefore => hbefore) h).1

theorem drainFor (fuel : Nat) : d.Reports (d'.drainFor fuel).1 := by
  induction fuel generalizing d' with
  | zero => exact h
  | succ fuel ih =>
    unfold Desk.drainFor
    split
    · exact h
    · rename_i task mailbox _
      have hrun : d.Reports ((d'.withMailbox mailbox).runTask task) := by
        refine runTask ?_ task
        exact h
      dsimp only
      split
      · exact hrun
      · exact ih hrun

end Reports

def document (d : Desk) : Document := d.recorder.transcript.document

def withDocument (d : Desk) (document : Document) : Desk :=
  d.withTranscript { d.recorder.transcript with document }

def listen (d : Desk) (name : Text) : Desk := d.withDocument (d.document.addListener name).1

-- What may be done while someone listens: an operation on the transcript alone, a step of the recorder
-- or a run through its mailbox, and others may come and go.
inductive Deed where
  | operate (o : Operation)
  | play (s : Step)
  | pump
  | drain
  | listen (name : Text)
  | unlisten (id : Nat)

namespace Deed

-- What is refused changes nothing.
def run (d : Desk) : Deed → Desk
  | operate o =>
    match o.run d.recorder.transcript with
    | .ok t => d.withTranscript t
    | .error _ => d
  | play s => s.play d
  | pump => d.pump.1
  | drain => d.drain.1
  | listen name => d.listen name
  | unlisten id => d.withDocument (d.document.removeListener id).1

-- A listener's name is its own, and it is not sent away.
def Leaves (name : Text) (id : Nat) : Deed → Prop
  | listen other => other ≠ name
  | unlisten other => other ≠ id
  | _ => True

instance (name : Text) (id : Nat) : (deed : Deed) → Decidable (deed.Leaves name id)
  | listen other => inferInstanceAs (Decidable (other ≠ name))
  | unlisten other => inferInstanceAs (Decidable (other ≠ id))
  | operate _ | play _ | pump | drain => .isTrue trivial

end Deed

section Deeds

variable {d d' : Desk} {name : Text} {id : Nat} {deed : Deed}

theorem mirrors_run (h : d.document.Mirrors name id d'.document) (hdeed : deed.Leaves name id) :
    d.document.Mirrors name id (deed.run d').document := by
  have hhere : d'.Reports d' := .refl d'
  cases deed with
  | operate o =>
    simp only [Deed.run]
    split
    · rename_i t hrun
      exact h.reports (hhere.transcript (reports_run _ o t hrun))
    · exact h
  | play s => exact h.reports (hhere.play s)
  | pump => exact h.reports hhere.pump
  | drain => exact h.reports (hhere.drainFor _)
  | listen other => exact h.addListener hdeed
  | unlisten other => exact h.removeListener hdeed

theorem mirrors_foldl {deeds : List Deed} (h : d.document.Mirrors name id d'.document)
    (hdeeds : ∀ deed ∈ deeds, deed.Leaves name id) :
    d.document.Mirrors name id (deeds.foldl Deed.run d').document := by
  induction deeds generalizing d' with
  | nil => exact h
  | cons deed deeds ih =>
    obtain ⟨hdeed, hrest⟩ := List.forall_mem_cons.mp hdeeds
    exact ih (mirrors_run h hdeed) hrest

end Deeds

-- Whatever is done to a transcript while a listener is registered, its copy of the text follows by what
-- it hears, and goes back to the start when that is undone.
theorem copy_follows {d : Desk} {name : Text} (hname : name ∉ d.document.listeners.members)
    {deeds : List Deed} (hdeeds : ∀ deed ∈ deeds, deed.Leaves name (d.document.addListener name).2) :
    ∃ news, (deeds.foldl Deed.run (d.listen name)).document.notices = d.document.notices ++ news ∧
      Edit.replay? d.document.text (Document.heardBy name news) =
        some (deeds.foldl Deed.run (d.listen name)).document.text ∧
      Edit.undo? (deeds.foldl Deed.run (d.listen name)).document.text
        (Document.heardBy name news) = some d.document.text := by
  have hlisten : d.document.Mirrors name (d.document.addListener name).2 (d.listen name).document :=
    .listen hname
  obtain ⟨news, hnotices, hcopy⟩ := (mirrors_foldl hlisten hdeeds).heard
  exact ⟨news, hnotices, hcopy, Edit.undo?_of_replay? hcopy⟩

-- A command's block is written, finished and taken out behind another one, while others come and go.
theorem copy_follows_command :
    let d : Desk := { stage := { terminal := .new ⟨10, 4⟩ 10 }
                      recorder := { transcript := oneTwo.closeLast } }
    let deeds : List Deed := [.play (.call (.startCommand (some ['c']) none)), .listen ['n'],
      .play (.change fun t => t.write [0x78]), .play .poll, .pump, .unlisten 2,
      .play (.call (.finishCommand 1)), .operate (.remove 1)]
    let d' := deeds.foldl Deed.run (d.listen ['m'])
    d'.document.text = "one\nc\nx".toList ∧
      ∃ news, d'.document.notices = d.document.notices ++ news ∧
        Edit.replay? d.document.text (Document.heardBy ['m'] news) = some d'.document.text ∧
        Edit.undo? d'.document.text (Document.heardBy ['m'] news) = some d.document.text := by
  exact ⟨by decide +kernel, copy_follows (by decide) (by decide)⟩

end Desk

end ShellTranscript
