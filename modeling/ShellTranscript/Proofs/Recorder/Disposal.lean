import Mathlib.Tactic.Common
import ShellTranscript.Proofs.Recorder.Coherence
import ShellTranscript.Proofs.Recorder.Standing

-- A recorder after its disposal. Snapshots are dropped from then on, but a start still opens a block
-- and listens for it, and a clear still empties the record. Whatever else is heard moves nothing.
namespace ShellTranscript

open Transcript

namespace Desk

-- Events handled one after the other.
def handleAll (d : Desk) (events : List Event) : Desk :=
  events.foldl (fun d e => (d.handle e).state) d

-- The record with its spans and frames is as it was, and no listener or router came or went.
structure Unmoved (d d' : Desk) : Prop where
  text : d'.transcript.document.text = d.transcript.document.text
  blocks : d'.transcript.blocks = d.transcript.blocks
  listeners : d'.stage.sampler.listeners = d.stage.sampler.listeners
  journal : d'.recorder.journal = d.recorder.journal

structure Dormant (d : Desk) : Prop where
  idle : d.recorder.state = .idle
  scope : d.recorder.scope = none

end Desk

-- The events that a recorder which nobody looks at still acts on: a start unless a block is open, and a
-- clear unless there is nothing to clear.
def Event.Stirs (d : Desk) : Event → Prop
  | .commandStarted _ _ _ => d.activeId? = none
  | .cleared => d.transcript.document.text ≠ [] ∨ d.transcript.blocks ≠ []
  | _ => False

namespace Desk

section Disposal

variable {d d' d'' : Desk} {e : Event}

theorem Unmoved.refl (d : Desk) : d.Unmoved d := ⟨rfl, rfl, rfl, rfl⟩

theorem Unmoved.symm (h : d.Unmoved d') : d'.Unmoved d :=
  ⟨h.text.symm, h.blocks.symm, h.listeners.symm, h.journal.symm⟩

theorem Unmoved.trans (h : d.Unmoved d') (h' : d'.Unmoved d'') : d.Unmoved d'' :=
  ⟨h'.text.trans h.text, h'.blocks.trans h.blocks, h'.listeners.trans h.listeners,
    h'.journal.trans h.journal⟩

theorem Unmoved.activeId? (h : d.Unmoved d') : d'.activeId? = d.activeId? := by
  simp only [Desk.activeId?, activeBlock?, lastBlock?, h.blocks]

theorem Unmoved.stirs_iff (h : d.Unmoved d') : e.Stirs d' ↔ e.Stirs d := by
  cases e <;> simp only [Event.Stirs, h.activeId?, h.text, h.blocks]

theorem dormant_dispose (d : Desk) : d.dispose.Dormant :=
  ⟨rfl, scope_closeCurrentScope d⟩

-- What the recorder does not act on leaves the stage alone as well.
theorem Dormant.handle (h : d.Dormant) (hquiet : ¬e.Stirs d) :
    (d.handle e).state.Dormant ∧ (d.handle e).state.stage = d.stage ∧
      d.Unmoved (d.handle e).state := by
  have hclose : d.closeCurrentScope = d := closeCurrentScope_of_none h.scope
  have hkept : (d.handle e).state = d → (d.handle e).state.Dormant ∧
      (d.handle e).state.stage = d.stage ∧ d.Unmoved (d.handle e).state := by
    intro hsame
    rw [hsame]
    exact ⟨h, rfl, .refl d⟩
  cases e with
  | outputChanged output =>
    apply hkept
    simp [Desk.handle, Desk.handleEvent, h.idle, Outcome.restoring, Outcome.state]
  | commandStarted command prompt epoch =>
    -- The block that is open refuses another one.
    obtain ⟨id, hactive⟩ := Option.ne_none_iff_exists'.mp hquiet
    obtain ⟨b, hb, rfl⟩ := Option.map_eq_some_iff.mp hactive
    have hstart : d.recorder.transcript.start command prompt = .error (.blockStillOpen b.id) :=
      start_of_active hb command prompt
    apply hkept
    simp [Desk.handle, Desk.handleEvent, h.idle, Outcome.andThen, Desk.startBlock, Desk.transcript,
      hstart, Outcome.restoring, Outcome.state]
  | commandFinished exitCode output =>
    apply hkept
    simp [Desk.handle, Desk.handleEvent, h.idle, Outcome.restoring, Outcome.state]
  | cleared =>
    have hcleared : (d.handle .cleared).state = d.clearBlocks := rfl
    obtain ⟨htext, hblocks⟩ := not_or.mp hquiet
    rw [not_not] at htext hblocks
    rw [hcleared, Desk.clearBlocks, hclose]
    refine ⟨⟨rfl, h.scope⟩, rfl, ⟨?_, hblocks.symm, rfl, rfl⟩⟩
    exact (clear_text _).trans htext.symm
  | alternateChanged enabled =>
    apply hkept
    simp [Desk.handle, Desk.handleEvent, Desk.changeAlternate, h.idle, Outcome.restoring, Outcome.state]
  | terminated =>
    have hterminated : (d.handle .terminated).state = d.terminate := rfl
    rw [hterminated, Desk.terminate, hclose]
    exact ⟨⟨h.idle, h.scope⟩, rfl, ⟨rfl, rfl, rfl, rfl⟩⟩
  | disposed =>
    have hdisposed : (d.handle .disposed).state = d.dispose := rfl
    rw [hdisposed, Desk.dispose, hclose]
    exact ⟨⟨rfl, h.scope⟩, rfl, ⟨rfl, rfl, rfl, rfl⟩⟩

-- A block that is started is listed behind the others.
theorem roll_startBlock (hactive : d.transcript.activeBlock? = none) (command prompt : Option Text)
    (epoch : Nat) : d.startBlock command prompt epoch = .refused .badOffset d ∨
      (d.startBlock command prompt epoch).state.transcript.roll =
        d.transcript.roll ++ [(d.transcript.nextId, true)] := by
  have hstart := yields_start hactive command prompt
  unfold Desk.startBlock
  split
  · rename_i reason hrefused
    rw [hstart.of_error hrefused]
    exact .inl rfl
  · rename_i id t hok
    obtain ⟨rfl, hroll, -⟩ := hstart.of_ok hok
    refine .inr ?_
    dsimp only
    rw [(sameFace_applyOutput _ _).1.roll.roll, (backstage_openScope _ _).sameFace.roll.roll]
    exact hroll

-- What the recorder acts on shows at once.
theorem Shaped.not_unmoved (h : d.Shaped) (hidle : d.recorder.state = .idle) (hstirs : e.Stirs d)
    (hfits : (Call.handle e).Fits d) : ¬d.Unmoved (d.handle e).state := by
  intro hunmoved
  cases e with
  | commandStarted command prompt epoch =>
    have hactive : d.transcript.activeBlock? = none := Option.map_eq_none_iff.mp hstirs
    have hsafe : Safe (d.startBlock command prompt epoch) := by
      apply h.startBlock
      simp only [Call.Fits, Call.bytes, Event.bytes] at hfits
      omega
    have hstarted : (d.handle (.commandStarted command prompt epoch)) =
        d.startBlock command prompt epoch := by
      simp only [Desk.handle, Desk.handleEvent, hidle, if_true, Outcome.andThen]
      exact hsafe.restoring d
    rcases d.roll_startBlock hactive command prompt epoch with hrefused | hroll
    · have hreason := hsafe.2 .badOffset (by rw [hrefused]; rfl)
      simp [Refusable] at hreason
    · have hlength := congrArg List.length hroll
      rw [← hstarted, roll, hunmoved.blocks] at hlength
      simp [roll] at hlength
  | cleared =>
    have hcleared : (d.handle .cleared).state.transcript = d.closeCurrentScope.transcript.clear := rfl
    rcases hstirs with htext | hblocks
    · apply htext
      rw [← hunmoved.text, hcleared, clear_text]
    · apply hblocks
      rw [← hunmoved.blocks, hcleared]
      rfl
  | _ => exact hstirs

-- Up to the first event that stirs it, a dormant recorder is as it was.
theorem Dormant.unmoved_iff (hdormant : d.Dormant) (hshaped : d.Shaped) (events : List Event)
    (hfits : ∀ e ∈ events, (Call.handle e).Fits d) :
    (∀ heard, heard <+: events → d.Unmoved (d.handleAll heard)) ↔ ∀ e ∈ events, ¬e.Stirs d := by
  induction events generalizing d with
  | nil =>
    constructor
    · intro _ e he
      cases he
    · intro _ heard hprefix
      rw [List.prefix_nil.mp hprefix]
      exact .refl d
  | cons e events ih =>
    have hfirst := hfits e List.mem_cons_self
    by_cases hstirs : e.Stirs d
    · constructor
      · intro hunmoved
        have hone : [e] <+: e :: events := ⟨events, rfl⟩
        exact absurd (hunmoved [e] hone) (hshaped.not_unmoved hdormant.idle hstirs hfirst)
      · intro hquiet
        exact absurd hstirs (hquiet e List.mem_cons_self)
    · obtain ⟨hdormant', hstage, hunmoved⟩ := hdormant.handle hstirs
      have hshaped' := (hshaped.through_call (.handle e) hfirst).shaped hshaped
      have hrest := ih hdormant' hshaped' (by
        intro e' he'
        have hfits' := hfits e' (List.mem_cons_of_mem e he')
        have htext : (d.handle e).state.recorder.transcript.document.text =
            d.recorder.transcript.document.text := hunmoved.text
        simpa only [Call.Fits, Call.bytes, Document.length, hstage, htext] using hfits')
      constructor
      · intro hall e' he'
        rcases List.mem_cons.mp he' with rfl | he'
        · exact hstirs
        · rw [← hunmoved.stirs_iff]
          refine hrest.mp (fun heard hprefix => ?_) e' he'
          exact hunmoved.symm.trans (hall (e :: heard) (List.cons_prefix_cons.mpr ⟨rfl, hprefix⟩))
      · intro hquiet heard hprefix
        cases heard with
        | nil => exact .refl d
        | cons e' heard =>
          obtain ⟨rfl, hheard⟩ := List.cons_prefix_cons.mp hprefix
          refine hunmoved.trans (hrest.mpr (fun later hlater => ?_) heard hheard)
          rw [hunmoved.stirs_iff]
          exact hquiet later (List.mem_cons_of_mem _ hlater)

end Disposal

-- Once a recorder has been disposed of, a sequence of events leaves the record alone and installs
-- nothing all along just if it has no start while no block is open and no clear of what is there.
theorem Reachable.unmoved_after_dispose_iff {d d' : Desk} (h : d.Reachable) {c : Call}
    (hdispose : c = .dispose ∨ c = .handle .disposed) (hd' : d' = (c.run d).state)
    (events : List Event) (hfits : ∀ e ∈ events, (Call.handle e).Fits d') :
    (∀ heard, heard <+: events → d'.Unmoved (d'.handleAll heard)) ↔ ∀ e ∈ events, ¬e.Stirs d' := by
  have hdisposed : d' = d.dispose := by
    rcases hdispose with rfl | rfl <;> exact hd'
  subst hdisposed
  exact (dormant_dispose d).unmoved_iff h.shaped.dispose events hfits

-- A block that was open at the disposal stays as it was, whatever else is told.
theorem Reachable.unmoved_with_open_block :
    let d := ((Call.startCommand (some ['l', 's']) none).run
      { stage := { terminal := .new ⟨10, 4⟩ 10 } }).state
    let d' := (Call.dispose.run d).state
    let events : List Event := [.outputChanged ⟨['x'], [], 1, false⟩,
      .commandStarted (some ['c']) none 2, .commandFinished 0 ⟨['y'], [], 2, false⟩,
      .alternateChanged false, .terminated, .disposed]
    d'.transcript.document.text = ['l', 's', '\n'] ∧ d'.Unmoved (d'.handleAll events) := by
  intro d d' events
  have hreachable : d.Reachable := (Reachable.new _).call (.startCommand (some ['l', 's']) none) trivial
    (by unfold Call.Fits; decide +kernel)
  have hiff : (∀ heard, heard <+: events → d'.Unmoved (d'.handleAll heard)) ↔
      ∀ e ∈ events, ¬e.Stirs d' :=
    hreachable.unmoved_after_dispose_iff (.inl rfl) rfl events (by unfold Call.Fits; decide +kernel)
  refine ⟨by decide +kernel, hiff.mpr ?_ events (List.prefix_refl _)⟩
  intro e he
  have hactive : d'.activeId? = some 0 := by decide +kernel
  simp only [events, List.mem_cons, List.not_mem_nil, or_false] at he
  rcases he with rfl | rfl | rfl | rfl | rfl | rfl <;> simp [Event.Stirs, hactive]

-- A start after the disposal writes the command and listens to the sampler again.
theorem Reachable.started_after_dispose : ∃ d : Desk, d.Reachable ∧
    d.dispose.stage.sampler.listeners.entries = [] ∧ d.dispose.transcript.document.text = [] ∧
    (d.dispose.handleAll [.commandStarted (some ['c']) none 0]).transcript.document.text =
      ['c', '\n'] ∧
    (d.dispose.handleAll [.commandStarted (some ['c']) none 0]).stage.sampler.listeners.entries =
      [(1, .recorder)] :=
  ⟨_, .new { terminal := .new ⟨10, 4⟩ 10 }, by decide +kernel, by decide +kernel, by decide +kernel,
    by decide +kernel⟩

end Desk

end ShellTranscript
