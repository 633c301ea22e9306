import Mathlib.Tactic.Common
import ShellTranscript.Proofs.Recorder.Watching
import ShellTranscript.Proofs.Recorder.Wiring
import ShellTranscript.Proofs.Transcript.Roll

-- The state of a recorder, its open block, its epoch and its scopes fit together, whatever is done to
-- it and whatever is refused: offsets play no part in this.
namespace ShellTranscript

open Transcript

namespace Outcome

variable {σ : Type} {P Q : σ → Prop} {o : Outcome σ}

-- What holds at the end, unless a bad offset was met.
def Spares (P : σ → Prop) (o : Outcome σ) : Prop := o.refusal? = some .badOffset ∨ P o.state

theorem Spares.restoring {before : σ} (h : Spares P o) (hbefore : P before) :
    P (o.restoring before).state := by
  cases o with
  | done s => exact h.resolve_left (by simp [refusal?])
  | refused reason s =>
    cases reason with
    | badOffset => exact hbefore
    | _ => exact h.resolve_left (by simp [refusal?])

theorem Spares.andThen {next : σ → Outcome σ} (h : P o.state) (hrefused : ∀ s, P s → Q s)
    (hnext : ∀ s, P s → (next s).Spares Q) : (o.andThen next).Spares Q := by
  cases o with
  | done s => exact hnext s h
  | refused reason s => exact .inr (hrefused s h)

end Outcome

namespace Desk

-- A scope that was returned by a start: the block it was opened for, and whether that block has been
-- finished, cleared, suspended or disposed of since.
structure Returned where
  block : Nat
  ended : Bool := false
deriving DecidableEq

-- A block goes on as long as it is the open one and its command runs.
def Returned.seenAt (d : Desk) (r : Returned) : Returned :=
  { r with ended := r.ended || !(d.recorder.state = .running && d.activeId? = some r.block) }

structure Coherent (d : Desk) (returned : List Returned) : Prop where
  rolled : d.transcript.Rolled
  engaged : d.recorder.state ≠ .idle → d.activeId? ≠ none ∧ d.recorder.epoch ≠ none
  watched : d.activeId? ≠ none → d.recorder.state ≠ .idle ∨ d.recorder.viewport.disposed = true
  paired : returned.length = d.recorder.scopes.length
  wired : d.Unplugged ∨ d.Plugged ∧ d.recorder.state = .running ∧
    ∃ id, d.activeId? = some id ∧ returned.getLast? = some { block := id }

structure SameFace (d d' : Desk) : Prop where
  roll : d.transcript.SameRoll d'.transcript
  state : d'.recorder.state = d.recorder.state
  epoch : d'.recorder.epoch = d.recorder.epoch
  disposed : d'.recorder.viewport.disposed = d.recorder.viewport.disposed

-- At most one scope is opened, and that for the block that is open in the end.
def Proceeds (d : Desk) (returned : List Returned) : Prop :=
  d.Coherent returned ∨ ∃ id, d.activeId? = some id ∧ d.Coherent (returned ++ [{ block := id }])

section Coherence

variable {d d' : Desk} {returned : List Returned} {id : Nat}

theorem SameFace.activeId? (h : d.SameFace d') : d'.activeId? = d.activeId? := h.roll.activeId?

theorem Backstage.sameFace (h : d.Backstage d') : d.SameFace d' := by
  refine ⟨?_, h.state, h.epoch, congrArg Viewport.disposed h.viewport⟩
  rw [Desk.transcript, Desk.transcript, h.transcript]
  exact .refl _

theorem Coherent.isWired (h : d.Coherent returned) : d.Wired := h.wired.imp_right And.left

-- What is open may be closed meanwhile.
theorem Coherent.congr (h : d.Coherent returned) (hface : d.SameFace d')
    (hlength : d'.recorder.scopes.length = d.recorder.scopes.length)
    (hunplugged : d.Unplugged → d'.Unplugged)
    (hplugged : d.Plugged → d'.Unplugged ∨ d'.Plugged) : d'.Coherent returned := by
  refine ⟨hface.roll.rolled h.rolled, ?_, ?_, h.paired.trans hlength.symm, ?_⟩
  · rw [hface.state, hface.activeId?, hface.epoch]
    exact h.engaged
  · rw [hface.state, hface.activeId?, hface.disposed]
    exact h.watched
  · rw [hface.state, hface.activeId?]
    rcases h.wired with h | ⟨h, hrunning⟩
    · exact .inl (hunplugged h)
    · exact (hplugged h).imp_right fun h => ⟨h, hrunning⟩

theorem Coherent.of_same (h : d.Coherent returned) (hface : d.SameFace d')
    (hwires : d.SameWires d') : d'.Coherent returned :=
  h.congr hface (congrArg List.length hwires.scopes) (fun h => h.of_sameWires hwires)
    fun h => .inr (h.of_sameWires hwires)

theorem Coherent.closeCurrentScope (h : d.Coherent returned) :
    d.closeCurrentScope.Coherent returned ∧ d.closeCurrentScope.Unplugged := by
  have hunplugged := h.isWired.closeCurrentScope
  exact ⟨h.congr (backstage_closeCurrentScope d).sameFace (length_closeCurrentScope d)
    (fun _ => hunplugged) fun _ => .inl hunplugged, hunplugged⟩

theorem Coherent.closeScope (h : d.Coherent returned) (index : Nat) :
    (d.closeScope index).Coherent returned := by
  rcases h.isWired.closeScope index with hunplugged | hsame
  · exact h.congr (backstage_withScope d index Scope.close).sameFace (length_closeScope d index)
      (fun _ => hunplugged) fun _ => .inl hunplugged
  · rw [hsame]
    exact h

theorem Coherent.deferNote (h : d.Coherent returned) (label : Text) :
    (d.deferNote label).1.Coherent returned := by
  refine h.congr (backstage_deferNote d label).sameFace ?_ (fun h => h.deferNote label)
    fun h => .inr (h.deferNote label)
  unfold Desk.deferNote
  split
  · rfl
  · rename_i index _
    cases hs : d.recorder.scopes[index]? with
    | none => rw [withScope_none hs]
    | some s => rw [(recorder_withScope hs).1, List.length_set]

theorem sameFace_applyOutput (d : Desk) (output : Snapshot) :
    d.SameFace (d.applyOutput output).state ∧ d.SameWires (d.applyOutput output).state := by
  have hdropped : d.SameFace d ∧ d.SameWires d := ⟨⟨.refl _, rfl, rfl, rfl⟩, rfl, rfl, rfl, rfl⟩
  unfold applyOutput
  split
  · exact hdropped
  · split
    · exact hdropped
    · rename_i id hactive
      split
      · exact hdropped
      · split
        · exact hdropped
        · rename_i t hwrite
          have hwritten := (lists_of_active hactive).yields_writeOutput output
          rw [hwrite] at hwritten
          exact ⟨⟨hwritten, rfl, rfl, rfl⟩, rfl, rfl, rfl, rfl⟩

theorem Coherent.applyOutput (h : d.Coherent returned) (output : Snapshot) :
    (d.applyOutput output).state.Coherent returned := by
  obtain ⟨hface, hwires⟩ := sameFace_applyOutput d output
  exact h.of_same hface hwires

theorem Proceeds.applyOutput (h : d.Proceeds returned) (output : Snapshot) :
    (d.applyOutput output).state.Proceeds returned := by
  obtain ⟨hface, -⟩ := sameFace_applyOutput d output
  rcases h with h | ⟨id, hactive, h⟩
  · exact .inl (h.applyOutput output)
  · exact .inr ⟨id, hface.activeId?.trans hactive, h.applyOutput output⟩

-- A scope that is opened for the open block while its command runs.
theorem proceeds_openScope (hwired : d.Wired) (hrolled : d.transcript.Rolled)
    (hactive : d.activeId? = some id) (hpaired : returned.length = d.recorder.scopes.length)
    (hwires : (d.openScope id).SameWires d') (hroll : d.transcript.SameRoll d'.transcript)
    (hrunning : d'.recorder.state = .running) (hepoch : d'.recorder.epoch ≠ none) :
    d'.Proceeds returned := by
  have hplugged := (Unplugged.openScope hwired.closeCurrentScope id).of_sameWires hwires
  have hactive' : d'.activeId? = some id := hroll.activeId?.trans hactive
  have hlength : returned.length + 1 = d'.recorder.scopes.length := by
    rw [hpaired, hwires.scopes, length_openScope]
  refine .inr ⟨id, hactive', ⟨hroll.rolled hrolled, fun _ => ⟨?_, hepoch⟩, fun _ => .inl ?_,
    List.length_append.trans hlength, .inr ⟨hplugged, hrunning, id, hactive', ?_⟩⟩⟩
  · rw [hactive']
    exact Option.some_ne_none id
  · rw [hrunning]
    exact RecorderState.noConfusion
  · exact List.getLast?_concat

-- At rest there is nothing open, except for a block that nobody looks at any more.
theorem Unplugged.coherent (h : d.Unplugged) (hrolled : d.transcript.Rolled)
    (hidle : d.recorder.state = .idle)
    (hunseen : d.activeId? = none ∨ d.recorder.viewport.disposed = true)
    (hpaired : returned.length = d.recorder.scopes.length) : d.Coherent returned :=
  ⟨hrolled, fun hbusy => absurd hidle hbusy, fun hactive => .inr (hunseen.resolve_left hactive),
    hpaired, .inl h⟩

theorem Coherent.startBlock (h : d.Coherent returned) (command prompt : Option Text) (epoch : Nat) :
    (d.startBlock command prompt epoch).state.Proceeds returned := by
  unfold Desk.startBlock
  cases hactive : d.transcript.activeBlock? with
  | some b =>
    rw [start_of_active hactive]
    exact .inl h
  | none =>
    have hstart := yields_start hactive command prompt
    split
    · exact .inl h
    · rename_i id t hok
      obtain ⟨rfl, hroll, hnext⟩ := hstart.of_ok hok
      have hrolled : t.Rolled := h.rolled.concat hactive hroll hnext
      have hwired : (((d.withTranscript t).modifyRecorder fun r =>
          { r with state := .running, epoch := some epoch }).showCaret
            (((d.withTranscript t).modifyRecorder fun r =>
              { r with state := .running, epoch := some epoch }).stopOf d.transcript.nextId)).Wired :=
        h.isWired.imp (fun h => h.of_sameWires ⟨rfl, rfl, rfl, rfl⟩)
          fun h => h.of_sameWires ⟨rfl, rfl, rfl, rfl⟩
      have hback := backstage_openScope (((d.withTranscript t).modifyRecorder fun r =>
          { r with state := .running, epoch := some epoch }).showCaret
            (((d.withTranscript t).modifyRecorder fun r =>
              { r with state := .running, epoch := some epoch }).stopOf d.transcript.nextId))
        d.transcript.nextId
      refine Proceeds.applyOutput (proceeds_openScope hwired hrolled (activeId?_concat hroll) h.paired
        ⟨rfl, rfl, rfl, rfl⟩ hback.sameFace.roll hback.state ?_) _
      rw [hback.epoch]
      exact Option.some_ne_none epoch

theorem Coherent.finishBlock (h : d.Coherent returned) (exitCode : Int) (output : Option Snapshot) :
    (d.finishBlock exitCode output).Spares fun d => d.Coherent returned := by
  obtain ⟨hclosed, hunplugged⟩ := h.closeCurrentScope
  unfold Desk.finishBlock
  generalize d.closeCurrentScope = c at hclosed hunplugged
  refine Outcome.Spares.andThen (P := fun w => c.SameFace w ∧ c.SameWires w) ?_
    (fun w hw => hclosed.of_same hw.1 hw.2) fun w ⟨hface, hwires⟩ => ?_
  · split
    · exact sameFace_applyOutput c _
    · exact ⟨⟨.refl _, rfl, rfl, rfl⟩, rfl, rfl, rfl, rfl⟩
  · have hrolled := hface.roll.rolled hclosed.rolled
    have hshut := hunplugged.of_sameWires hwires
    have hpaired := (hclosed.of_same hface hwires).paired
    dsimp only
    split
    · rename_i hactive
      exact .inr (Unplugged.coherent (hshut.of_sameWires ⟨rfl, rfl, rfl, rfl⟩) hrolled rfl
        (.inl (hface.activeId?.trans hactive)) hpaired)
    · rename_i id hactive
      obtain ⟨entries, hroll⟩ := exists_roll_of_active (hface.activeId?.trans hactive)
      have hconclude := hrolled.conclude hroll exitCode
      split
      · rename_i reason hrefused
        exact .inl (congrArg some (hconclude.of_error hrefused))
      · rename_i t hok
        obtain ⟨hnext, hroll'⟩ := hconclude.of_ok hok
        obtain ⟨hrolled', hactive'⟩ := hrolled.of_front hroll hnext hroll'
        exact .inr (Unplugged.coherent (hshut.of_sameWires ⟨rfl, rfl, rfl, rfl⟩) hrolled' rfl
          (.inl hactive') hpaired)

theorem Coherent.startCommand (h : d.Coherent returned) (command prompt : Option Text) :
    (d.startCommand command prompt).state.Proceeds returned := by
  unfold Desk.startCommand
  split
  · exact .inl h
  · have hcleared : ({ d with stage := { d.stage with
        terminal := d.stage.terminal.clearAll } } : Desk).Coherent returned :=
      h.of_same ⟨.refl _, rfl, rfl, rfl⟩ ⟨rfl, rfl, rfl, rfl⟩
    exact Outcome.state_restoring (P := (Proceeds · returned)) (.inl h)
      (hcleared.startBlock command prompt _)

theorem Coherent.finishCommand (h : d.Coherent returned) (exitCode : Int) :
    (d.finishCommand exitCode).state.Coherent returned :=
  (h.closeCurrentScope.1.finishBlock exitCode _).restoring h

theorem Coherent.insertEmptyLine (h : d.Coherent returned) :
    d.insertEmptyLine.Coherent returned := by
  obtain ⟨hclosed, hunplugged⟩ := h.closeCurrentScope
  obtain ⟨hrolled, hactive⟩ := hclosed.rolled.closeLast
  have hsame : d.closeCurrentScope.transcript.closeLast.SameRoll
      d.closeCurrentScope.transcript.closeLast.appendLineBreak := ⟨rfl, rfl⟩
  exact Unplugged.coherent (hunplugged.of_sameWires ⟨rfl, rfl, rfl, rfl⟩) (hsame.rolled hrolled) rfl
    (.inl (hsame.activeId?.trans hactive)) hclosed.paired

theorem Coherent.clearBlocks (h : d.Coherent returned) : d.clearBlocks.Coherent returned := by
  obtain ⟨hclosed, hunplugged⟩ := h.closeCurrentScope
  obtain ⟨hrolled, hactive⟩ := rolled_clear d.closeCurrentScope.transcript
  exact Unplugged.coherent (hunplugged.of_sameWires ⟨rfl, rfl, rfl, rfl⟩) hrolled rfl (.inl hactive)
    hclosed.paired

theorem Coherent.dispose (h : d.Coherent returned) : d.dispose.Coherent returned := by
  obtain ⟨hclosed, hunplugged⟩ := h.closeCurrentScope
  exact Unplugged.coherent (hunplugged.of_sameWires ⟨rfl, rfl, rfl, rfl⟩) hclosed.rolled rfl
    (.inr rfl) hclosed.paired

theorem Coherent.terminate (h : d.Coherent returned) : d.terminate.Coherent returned :=
  h.closeCurrentScope.1.of_same ⟨.refl _, rfl, rfl, rfl⟩ ⟨rfl, rfl, rfl, rfl⟩

theorem Coherent.suspend (h : d.Coherent returned) (hrunning : d.recorder.state = .running) :
    (d.closeCurrentScope.modifyRecorder fun r => { r with state := .suspended }).Coherent
      returned := by
  obtain ⟨hclosed, hunplugged⟩ := h.closeCurrentScope
  have hstate := (backstage_closeCurrentScope d).state.trans hrunning
  have hengaged := hclosed.engaged (by rw [hstate]; exact RecorderState.noConfusion)
  exact ⟨hclosed.rolled, fun _ => hengaged, fun _ => .inl RecorderState.noConfusion, hclosed.paired,
    .inl (hunplugged.of_sameWires ⟨rfl, rfl, rfl, rfl⟩)⟩

theorem Coherent.changeAlternate (h : d.Coherent returned) (enabled : Bool) :
    (d.changeAlternate enabled).state.Proceeds returned := by
  unfold Desk.changeAlternate
  split
  · rename_i hrunning
    exact .inl (h.suspend hrunning)
  · rename_i hsuspended
    obtain ⟨hactive, hepoch⟩ := h.engaged (by rw [hsuspended]; exact RecorderState.noConfusion)
    split
    · rename_i hnone
      exact absurd hnone hactive
    · rename_i id hactive
      have hback := backstage_openScope d id
      have hopened : ((d.openScope id).modifyRecorder fun r =>
          { r with state := .running }).Proceeds returned :=
        proceeds_openScope h.isWired h.rolled hactive h.paired ⟨rfl, rfl, rfl, rfl⟩
          hback.sameFace.roll rfl (hback.epoch ▸ hepoch)
      exact hopened.applyOutput _
  · exact .inl h

theorem Coherent.handle (h : d.Coherent returned) (e : Event) :
    (d.handle e).state.Proceeds returned := by
  have hnone : d.Proceeds returned := .inl h
  refine Outcome.Spares.restoring (P := (Proceeds · returned)) ?_ hnone
  cases e with
  | outputChanged output =>
    simp only [handleEvent]
    split
    · exact .inr (.inl (h.applyOutput output))
    · exact .inr hnone
  | commandStarted command prompt epoch =>
    simp only [handleEvent]
    split
    · exact .inr (h.startBlock command prompt epoch)
    · cases hfinish : d.finishBlock 0 none with
      | refused reason d₁ =>
        have hfinished := h.finishBlock 0 none
        rw [hfinish] at hfinished
        exact hfinished.imp_right .inl
      | done d₁ =>
        have hfinished := h.finishBlock 0 none
        rw [hfinish] at hfinished
        have hready : d₁.Coherent returned := hfinished.resolve_left (by simp [Outcome.refusal?])
        exact .inr (hready.startBlock command prompt epoch)
  | commandFinished exitCode output =>
    simp only [handleEvent]
    split
    · exact .inr hnone
    · exact (h.finishBlock exitCode (some output)).imp_right .inl
  | cleared => exact .inr (.inl h.clearBlocks)
  | alternateChanged enabled => exact .inr (h.changeAlternate enabled)
  | terminated => exact .inr (.inl h.terminate)
  | disposed => exact .inr (.inl h.dispose)

theorem Coherent.call (h : d.Coherent returned) (c : Call) : (c.run d).state.Proceeds returned := by
  cases c with
  | startCommand command prompt => exact h.startCommand command prompt
  | finishCommand exitCode => exact .inl (h.finishCommand exitCode)
  | insertEmptyLine => exact .inl h.insertEmptyLine
  | changeAlternate enabled => exact h.changeAlternate enabled
  | clearBlocks => exact .inl h.clearBlocks
  | dispose => exact .inl h.dispose
  | handle e => exact h.handle e

theorem Coherent.play (h : d.Coherent returned) (s : Step) : (s.play d).Proceeds returned := by
  cases s with
  | change f => exact .inl (h.of_same ⟨.refl _, rfl, rfl, rfl⟩ ⟨rfl, rfl, rfl, rfl⟩)
  | poll =>
    exact .inl (h.of_same ⟨.refl _, rfl, rfl, rfl⟩ ⟨listeners_poll d, rfl, rfl, rfl⟩)
  | post task => exact .inl (h.of_same ⟨.refl _, rfl, rfl, rfl⟩ ⟨rfl, rfl, rfl, rfl⟩)
  | call c => exact h.call c
  | next =>
    rcases handleNext_cases d with ⟨hsame, -⟩ | ⟨task, rest, -, hnext⟩
    · rw [Step.play, hsame]
      exact .inl h
    · have hread : (d.withMailbox { d.stage.mailbox with tasks := rest }).Coherent returned :=
        h.of_same ⟨.refl _, rfl, rfl, rfl⟩ ⟨rfl, rfl, rfl, rfl⟩
      rw [Step.play, hnext]
      cases task with
      | event e => exact hread.handle e
      | invoke label =>
        refine .inl (hread.congr (backstage_note _ _).sameFace rfl ?_ ?_)
        · exact fun h => ⟨h.closed, h.silent, h.routed.ran label⟩
        · rintro ⟨earlier, labels, router, id, h, hscope⟩
          exact .inr ⟨earlier, labels, router, id,
            ⟨h.scopes, h.closed, h.heard, h.routed.ran label⟩, hscope⟩
  | closeScope index => exact .inl (h.closeScope index)
  | deferNote label => exact .inl (h.deferNote label)
  | setRouter router => exact .inl (h.of_same ⟨.refl _, rfl, rfl, rfl⟩ ⟨rfl, rfl, rfl, rfl⟩)

-- The scopes that a step returns.
def returnedBy (d d' : Desk) : List Returned :=
  if d.recorder.scopes.length < d'.recorder.scopes.length then
    d'.activeId?.toList.map fun block => { block }
  else []

def returnsAfter (d : Desk) (returned : List Returned) (s : Step) : List Returned :=
  returned.map (Returned.seenAt (s.play d)) ++ returnedBy d (s.play d)

-- Whatever can be done to a recorder from its beginning, with the scopes that were returned.
inductive Operated : Desk → List Returned → Prop where
  | new (terminal : Terminal) : Operated { stage := { terminal } } []
  | step {d : Desk} {returned : List Returned} (s : Step) : Operated d returned →
      Operated (s.play d) (d.returnsAfter returned s)

-- The scope that is open, if there is one, is that of a block that goes on.
theorem Coherent.seen {fresh : List Returned} (h : d.Coherent (returned ++ fresh)) :
    d.Coherent (returned.map (Returned.seenAt d) ++ fresh) := by
  have hlength : (returned.map (Returned.seenAt d) ++ fresh).length = (returned ++ fresh).length := by
    simp
  refine ⟨h.rolled, h.engaged, h.watched, hlength.trans h.paired, ?_⟩
  refine h.wired.imp_right fun ⟨hplugged, hrunning, id, hactive, hlast⟩ =>
    ⟨hplugged, hrunning, id, hactive, ?_⟩
  rw [List.getLast?_append] at hlast ⊢
  cases hfresh : fresh.getLast? with
  | some r => rwa [hfresh] at hlast
  | none =>
    rw [hfresh, Option.none_or] at hlast
    rw [Option.none_or, List.getLast?_map, hlast]
    simp [Returned.seenAt, hrunning, hactive]

theorem Operated.coherent (h : Operated d returned) : d.Coherent returned := by
  induction h with
  | new terminal =>
    refine ⟨⟨⟨.nil, fun b hb => (List.not_mem_nil hb).elim⟩, fun b hb => (List.not_mem_nil hb).elim⟩,
      fun hbusy => absurd rfl hbusy, fun hactive => absurd rfl hactive, rfl, .inl ⟨?_, rfl, .empty⟩⟩
    exact fun s hs => (List.not_mem_nil hs).elim
  | @step d returned s _ ih =>
    refine Coherent.seen ?_
    unfold returnedBy
    rcases ih.play s with h | ⟨id, hactive, h⟩
    · have hlength := h.paired.symm.trans ih.paired
      rwa [if_neg (by omega), List.append_nil]
    · have hlength := h.paired.symm
      rw [List.length_append, ih.paired, List.length_singleton] at hlength
      rwa [if_pos (by omega), hactive]

end Coherence

-- Only a running command has an open scope, and only that scope holds something.
structure Coherence (d : Desk) (returned : List Returned) : Prop where
  engaged : d.recorder.state ≠ .idle → d.activeId? ≠ none ∧ d.recorder.epoch ≠ none
  watched : d.activeId? ≠ none → d.recorder.state ≠ .idle ∨ d.recorder.viewport.disposed = true
  running : ∀ s ∈ d.recorder.scopes, s.isClosed = false → d.recorder.state = .running
  returns : returned.length = d.recorder.scopes.length
  ended : ∀ (index : Nat) (r : Returned) (s : Scope ScopeEffect), returned[index]? = some r →
    d.recorder.scopes[index]? = some s →
      r.ended = true ∨ ¬(d.recorder.state = .running ∧ d.activeId? = some r.block) →
        s.isClosed = true
  listeners : d.stage.sampler.listeners.size =
    if d.recorder.scopes.any fun s => !s.isClosed then 1 else 0
  routed : ∃ outstanding, Routed d.recorder.journal outstanding ∧
    (outstanding ≠ none → ∃ s ∈ d.recorder.scopes, s.isClosed = false)

theorem Operated.coherence {d : Desk} {returned : List Returned} (h : Operated d returned) :
    d.Coherence returned := by
  have hcoherent := h.coherent
  rcases hcoherent.wired with hclosed | ⟨⟨earlier, labels, router, id, hholds, -⟩, hrunning, block,
    hactive, hlast⟩
  · refine ⟨hcoherent.engaged, hcoherent.watched, ?_, hcoherent.paired, ?_, ?_, ?_⟩
    · intro s hs hopen
      rw [hclosed.closed s hs] at hopen
      cases hopen
    · intro index r s _ hs _
      exact hclosed.closed s (List.mem_of_getElem? hs)
    · have hnone : ¬(d.recorder.scopes.any fun s => !s.isClosed) = true := by
        rw [List.any_eq_true]
        rintro ⟨s, hs, hopen⟩
        rw [hclosed.closed s hs] at hopen
        cases hopen
      rw [if_neg hnone, Registry.size, hclosed.silent, List.length_nil]
    · exact ⟨none, hclosed.routed, fun h => absurd rfl h⟩
  · have hopen : { pending := (teardown labels router id).map .once } ∈ d.recorder.scopes :=
      hholds.scopes ▸ List.mem_concat_self
    refine ⟨hcoherent.engaged, hcoherent.watched, fun _ _ _ => hrunning, hcoherent.paired, ?_, ?_, ?_⟩
    · intro index r s hr hs hended
      have hlength := hcoherent.paired
      rw [hholds.scopes, List.length_append, List.length_singleton] at hlength
      rw [hholds.scopes] at hs
      by_cases hindex : index < earlier.length
      · rw [List.getElem?_append_left hindex] at hs
        exact hholds.closed s (List.mem_of_getElem? hs)
      · -- The newest scope is that of the block that goes on.
        have hlt := (List.getElem?_eq_some_iff.mp hr).1
        obtain rfl : index = returned.length - 1 := by omega
        rw [List.getLast?_eq_getElem?, hr, Option.some.injEq] at hlast
        subst hlast
        rcases hended with hended | hended
        · cases hended
        · exact absurd ⟨hrunning, hactive⟩ hended
    · have hany : (d.recorder.scopes.any fun s => !s.isClosed) = true :=
        List.any_eq_true.mpr ⟨_, hopen, rfl⟩
      rw [if_pos hany, Registry.size, hholds.heard, List.length_singleton]
    · exact ⟨router, hholds.routed, fun _ => ⟨_, hopen, rfl⟩⟩

-- A command that is suspended and resumed has a scope for each time.
def resumed : Desk × List Returned :=
  [.setRouter ['r'], .call (.startCommand none none), .call (.changeAlternate true),
    .call (.changeAlternate false)].foldl (fun (d, returned) s => (s.play d, d.returnsAfter returned s))
      ({ stage := { terminal := .new ⟨4, 2⟩ 0 } }, [])

theorem coherence_resumed : resumed.1.Coherence resumed.2 ∧ resumed.2 = [⟨0, true⟩, ⟨0, false⟩] ∧
    resumed.1.recorder.scopes.map Scope.isClosed = [true, false] ∧
      resumed.1.recorder.journal = [.routerInstalled ['r'] 0, .routerUninstalled ['r'] 0,
        .routerInstalled ['r'] 0] :=
  ⟨Operated.coherence (((((Operated.new (.new ⟨4, 2⟩ 0)).step (.setRouter ['r'])).step
    (.call (.startCommand none none))).step (.call (.changeAlternate true))).step
      (.call (.changeAlternate false))), by decide +kernel, by decide +kernel, by decide +kernel⟩

end Desk

end ShellTranscript
