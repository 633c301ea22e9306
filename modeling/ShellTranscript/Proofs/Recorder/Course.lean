import Mathlib.Tactic.Common
import ShellTranscript.Proofs.Recorder.Flush

-- The course of a recorder that is told of commands. What it has written between two commands, and
-- the header of the one that runs, come from what it was told alone; the snapshots that it was shown
-- meanwhile leave no trace.
namespace ShellTranscript

open Text Transcript

-- How far a recorder is. During a command it takes snapshots of one epoch.
inductive Course where
  | between (text : Text)
  | during (before prompt command : Text) (epoch : Nat)
deriving DecidableEq, Repr

namespace Course

-- Where an event leads.
def tell : Course → Event → Course
  | between text, .commandStarted command prompt epoch =>
    let parts := headerParts (notEmpty prompt) (notEmpty command)
    during (if text.isEmpty then [] else text ++ ['\n']) parts.1 parts.2 epoch
  | during before prompt command _, .commandFinished _ output =>
    between (concludedText before (prompt ++ command ++ output.text))
  | _, .cleared => between []
  | course, _ => course

-- A command starts when none is running, and the snapshot that it finishes with is one of its own.
inductive Hears : Course → Event → Prop where
  | started {text : Text} (command prompt : Option Text) (epoch : Nat) :
      Hears (between text) (.commandStarted command prompt epoch)
  | finished {before prompt command : Text} (exitCode : Int) {output : Snapshot} :
      output.RangesInside → output.alternate = false →
      Hears (during before prompt command output.epoch) (.commandFinished exitCode output)
  | stray {text : Text} (exitCode : Int) (output : Snapshot) :
      Hears (between text) (.commandFinished exitCode output)
  | cleared {course : Course} : Hears course .cleared
  | alternate {course : Course} (enabled : Bool) : Hears course (.alternateChanged enabled)

def follow (course : Course) (events : List Event) : Course := events.foldl tell course

def HearsAll : Course → List Event → Prop
  | _, [] => True
  | course, e :: events => course.Hears e ∧ (course.tell e).HearsAll events

theorem follow_append (course : Course) (front back : List Event) :
    course.follow (front ++ back) = (course.follow front).follow back :=
  List.foldl_append

theorem HearsAll.append {course : Course} {front back : List Event} (h : course.HearsAll front)
    (h' : (course.follow front).HearsAll back) : course.HearsAll (front ++ back) := by
  induction front generalizing course with
  | nil => exact h'
  | cons e front ih => exact ⟨h.1, ih h.2 h'⟩

end Course

namespace Desk

inductive At (d : Desk) : Course → Prop where
  | between (resting : d.Resting) (noSeparator : d.recorder.transcript.separatorPending = false)
      (seen : d.recorder.viewport.disposed = false) :
      d.At (.between d.recorder.transcript.document.text)
  | during {before prompt command : Text} {closed : List Block} {started : Block} {epoch : Nat}
      (busy : d.Busy before prompt command closed started epoch) :
      d.At (.during before prompt command epoch)

section Events

variable {d d' : Desk} {course : Course} {e : Event}

theorem At.of_around (h : d.At course) (haround : d.Around d') : d'.At course := by
  cases h with
  | between hresting hpending hseen =>
    rw [← haround.record.text]
    refine .between (hresting.congr haround.record haround.state haround.caret) ?_ ?_
    · rw [haround.record.separatorPending, hpending]
    · rw [haround.disposed, hseen]
  | during hbusy => exact .during (hbusy.of_around haround)

theorem at_clearBlocks (hseen : d.recorder.viewport.disposed = false) :
    d.clearBlocks.At (.between []) := by
  have htext : d.clearBlocks.recorder.transcript.document.text = [] := clear_text _
  have hviewport := (backstage_closeCurrentScope d).viewport
  rw [← htext]
  refine .between (resting_clearBlocks d) rfl ?_
  exact (congrArg Viewport.disposed hviewport).trans hseen

theorem At.seen (h : d.At course) : d.recorder.viewport.disposed = false := by
  cases h with
  | between _ _ hseen => exact hseen
  | during hbusy => exact hbusy.seen

-- Snapshots and switches of the screen lead nowhere.
theorem At.handle_interim (h : d.At course) (hinterim : e.IsInterim) (hinside : e.RangesInside)
    (hfits : (Call.handle e).Fits d) : (d.handle e).state.At course := by
  cases h with
  | between hresting hpending hseen =>
    have hidle := hresting.idle
    have hsame : (d.handle e).state = d := by
      cases e with
      | outputChanged output => simp [Desk.handle, Desk.handleEvent, hidle, Outcome.restoring,
          Outcome.state]
      | alternateChanged enabled => simp [Desk.handle, Desk.handleEvent, Desk.changeAlternate,
          hidle, Outcome.restoring, Outcome.state]
      | _ => exact hinterim.elim
    rw [hsame]
    exact .between hresting hpending hseen
  | during hbusy => exact .during (hbusy.interim hinterim hinside hfits)

theorem At.handle_started {text : Text} (h : d.At (.between text)) {command prompt : Option Text}
    {epoch : Nat} (hfits : (Call.handle (.commandStarted command prompt epoch)).Fits d) :
    (d.handle (.commandStarted command prompt epoch)).state.At
      (Course.tell (.between text) (.commandStarted command prompt epoch)) := by
  cases h with
  | between hresting hpending hseen =>
    have hroom := start_fits d command prompt epoch hfits
    obtain ⟨d', hhandle, hbusy⟩ := hresting.handle_started hseen command prompt epoch (by
      rw [byteLength_append] at hroom
      omega) fun _ => hroom
    have hopening : d.recorder.transcript.opening =
        if d.recorder.transcript.document.text.isEmpty then []
        else d.recorder.transcript.document.text ++ ['\n'] := by
      rw [Transcript.opening, hpending, Bool.or_false]
      split
      · rename_i hempty
        exact List.isEmpty_iff.mp hempty
      · rfl
    rw [hopening] at hbusy
    rw [hhandle]
    exact .during hbusy

theorem At.handle_finished {before prompt command : Text} {output : Snapshot}
    (h : d.At (.during before prompt command output.epoch)) (hinside : output.RangesInside)
    (hmain : output.alternate = false) (exitCode : Int)
    (hfits : (Call.handle (.commandFinished exitCode output)).Fits d) :
    (d.handle (.commandFinished exitCode output)).state.At
      (.between (concludedText before (prompt ++ command ++ output.text))) := by
  cases h with
  | during hbusy =>
    have hlength := hbusy.byteLength_le output.text
    simp only [Call.Fits, Call.bytes, Event.bytes] at hfits
    obtain ⟨d', b, hhandle, hresting, htext, -, hpending, hseen, -⟩ :=
      hbusy.handle_finished hinside hmain rfl exitCode (by omega)
    rw [hhandle, ← htext]
    exact .between hresting hpending hseen

-- An event that can be heard leads where it says.
theorem At.handle (h : d.At course) (hears : course.Hears e) (hfits : (Call.handle e).Fits d) :
    (d.handle e).state.At (course.tell e) := by
  cases hears with
  | started command prompt epoch => exact h.handle_started hfits
  | finished exitCode hinside hmain => exact h.handle_finished hinside hmain exitCode hfits
  | stray exitCode output =>
    cases h with
    | between hresting hpending hseen =>
      rw [Desk.handle, Desk.handleEvent, if_pos hresting.idle]
      exact .between hresting hpending hseen
  | cleared =>
    have hcleared : course.tell .cleared = .between [] := by cases course <;> rfl
    rw [hcleared]
    exact at_clearBlocks h.seen
  | alternate enabled =>
    have hsame : course.tell (.alternateChanged enabled) = course := by cases course <;> rfl
    rw [hsame]
    exact h.handle_interim trivial trivial hfits

end Events

end Desk

end ShellTranscript
