import Mathlib.Tactic.Common
import ShellTranscript.Proofs.Recorder.Settled
import ShellTranscript.Proofs.Recorder.Watching
import ShellTranscript.Proofs.Studio.Schedules

-- The life of commands, from the reader to the recorder. What the reader tells waits in the mailbox
-- among snapshots and other tasks, and the recorder handles it when it comes to it. Starts and
-- finishes arrive as they were told, in turns, so that every start finds the block before it closed.
namespace ShellTranscript

open Text Transcript

namespace Desk

-- Only the reader says that commands start and finish, and nobody else starts one.
def Step.IsQuiet : Step → Prop
  | post task => ∀ e, task = .event e → e.isLifecycle = false
  | call c => c.IsQuiet
  | _ => True

-- The runs of a recorder from its beginning, with what a reader has told it. The reader posts one
-- notice after the other; in between, everything else may happen, to the terminal too.
inductive Attends : Desk → List Notice → Prop where
  | new (terminal : Terminal) : Attends { stage := { terminal } } []
  | tell {d : Desk} {posted : List Notice} (n : Notice) : Attends d posted →
      Attends ((Step.post (.event n.event)).play d) (posted ++ [n])
  | step {d : Desk} {posted : List Notice} (s : Step) : Attends d posted → s.Allowed d → s.IsQuiet →
      Attends (s.play d) posted

section Attending

variable {d d' : Desk} {posted : List Notice} {s : Step}

theorem allowed_tell (d : Desk) (n : Notice) : (Step.post (.event n.event)).Allowed d := by
  intro e he
  obtain rfl := Task.event.inj he
  obtain ⟨happening, terminal⟩ := n
  cases happening with
  | finished exitCode => exact ⟨fun output heq => (by cases heq), terminal.snapshot_rangesInside⟩
  | _ => exact ⟨fun output heq => (by cases heq), trivial⟩

theorem Attends.goes (h : d.Attends posted) : ∃ a, Goes d a := by
  induction h with
  | new terminal => exact ⟨_, .new terminal⟩
  | @tell d posted n _ ih =>
    obtain ⟨a, hgoes⟩ := ih
    exact ⟨_, hgoes.step _ (allowed_tell d n)⟩
  | step s _ hs _ ih =>
    obtain ⟨a, hgoes⟩ := ih
    exact ⟨_, hgoes.step s hs⟩

theorem Attends.tells (h : d.Attends posted) (notices : List Notice) :
    Attends (notices.foldl (fun d n => (Step.post (.event n.event)).play d) d) (posted ++ notices) := by
  induction notices generalizing d posted with
  | nil =>
    rw [List.append_nil]
    exact h
  | cons n notices ih =>
    have htold := ih (h.tell n)
    rwa [List.append_assoc] at htold

theorem pending_of_mailbox (h : d'.stage.mailbox = d.stage.mailbox) : d'.pending = d.pending := by
  rw [pending, h, pending]

theorem pending_post (hopen : d.stage.mailbox.isClosed = false) (task : Task) :
    ((Step.post task).play d).pending = d.pending ++ task.told?.toList := by
  simp only [Step.play, withMailbox, Mailbox.post, hopen, Bool.false_eq_true, if_false, pending,
    List.filterMap_append, List.filterMap_cons, List.filterMap_nil]
  cases task.told? <;> rfl

theorem lifecycle_told (e : Event) : lifecycle (Task.told? (.event e)).toList = lifecycle [e] := by
  cases e <;> rfl

-- All steps but one leave the starts and finishes in the mailbox as they are.
theorem lifecycle_pending_play (hopen : d.stage.mailbox.isClosed = false) (hs : s.Allowed d)
    (hquiet : s.IsQuiet) (hnext : s ≠ .next) :
    lifecycle (s.play d).pending = lifecycle d.pending := by
  cases s with
  | change f => rfl
  | poll => rw [Step.play, pending_poll hopen]
  | post task =>
    rw [pending_post hopen, lifecycle_append]
    cases task with
    | invoke label => exact List.append_nil _
    | event e =>
      have hnone : lifecycle [e] = [] := by simp [lifecycle, hquiet e rfl]
      rw [lifecycle_told, hnone, List.append_nil]
  | call c => exact congrArg lifecycle (pending_of_mailbox (turns_call d hs.1).mail.1)
  | next => exact absurd rfl hnext
  | closeScope index =>
    exact congrArg lifecycle (pending_of_mailbox (backstage_withScope d index Scope.close).mailbox)
  | deferNote label =>
    exact congrArg lifecycle (pending_of_mailbox (backstage_deferNote d label).mailbox)
  | setRouter router => rfl

theorem Shaped.lulls_play (h : d.Shaped) (hs : s.Allowed d) (hquiet : s.IsQuiet) (hnext : s ≠ .next) :
    d.Lulls (s.play d) := by
  by_cases hcall : ∃ c, s = .call c
  · obtain ⟨c, rfl⟩ := hcall
    exact h.lulls_call hquiet hs.2.2
  · exact (around_play d (not_exists.mp hcall) hnext).lulls

-- The starts and finishes that were told: some the recorder has heard, the others still wait. A command
-- runs for the recorder if the last that it heard was a start.
structure Heeds (d : Desk) (told heard : List Event) : Prop where
  told : told = heard ++ lifecycle d.pending
  settled : d.Settled (heard.length % 2 = 1)

variable {told heard : List Event} {epoch : Nat}

theorem Heeds.tell (h : d.Heeds told heard) (hopen : d.stage.mailbox.isClosed = false) (n : Notice) :
    ((Step.post (.event n.event)).play d).Heeds (told ++ lifecycle [n.event]) heard := by
  refine ⟨?_, h.settled.of_lulls (d.around_stage _).lulls⟩
  rw [pending_post hopen, lifecycle_append, lifecycle_told, ← List.append_assoc, ← h.told]

-- The next task is heard, and it is in turn.
theorem Heeds.next (h : d.Heeds told heard) (hturns : TakeTurns epoch told) (hshaped : d.Shaped)
    (hinside : ∀ e, Task.event e ∈ d.stage.mailbox.tasks → e.RangesInside)
    (hs : Step.next.Allowed d) : ∃ heard', (Step.next.play d).Heeds told heard' := by
  rcases handleNext_cases d with ⟨hsame, -⟩ | ⟨task, rest, htasks, hnext⟩
  · rw [Step.play, hsame]
    exact ⟨heard, h⟩
  · have hread : d.Around (d.withMailbox { d.stage.mailbox with tasks := rest }) := d.around_stage _
    have hsettled := h.settled.of_lulls hread.lulls
    have hshaped' := hshaped.of_around hread
    have htold := h.told
    rw [pending_handleNext htasks, lifecycle_append] at htold
    have hquiet : lifecycle task.told?.toList = [] →
        (d.withMailbox { d.stage.mailbox with tasks := rest }).Lulls d.handleNext →
        (Step.next.play d).Heeds told heard := by
      intro hnone hlulls
      rw [hnone] at htold
      exact ⟨htold, hsettled.of_lulls hlulls⟩
    rw [hnext] at hquiet
    cases task with
    | invoke label => exact ⟨heard, hquiet rfl (backstage_note _ _).around.lulls⟩
    | event e =>
      rw [lifecycle_told] at htold hquiet
      cases hlife : e.isLifecycle with
      | false =>
        have hnone : lifecycle [e] = [] := by simp [lifecycle, hlife]
        exact ⟨heard, hquiet hnone (hshaped'.lulls_handle hlife)⟩
      | true =>
        have hone : lifecycle [e] = [e] := by simp [lifecycle, hlife]
        rw [hone] at htold
        have hturn : e.InTurn epoch heard.length := hturns.next htold
        have hmem : Task.event e ∈ d.stage.mailbox.tasks := by
          rw [htasks]
          exact List.mem_cons_self
        refine ⟨heard ++ [e], by rw [List.append_assoc]; exact htold, ?_⟩
        rw [Step.play, hnext, List.length_append, List.length_singleton]
        exact hsettled.handle_inTurn hshaped' hturn (hinside e hmem) (hs e (mem_nextEvent? htasks))

theorem Attends.heeds (h : d.Attends posted)
    (hturns : TakeTurns epoch (lifecycle (posted.map Notice.event))) :
    ∃ heard, d.Heeds (lifecycle (posted.map Notice.event)) heard := by
  induction h with
  | new terminal => exact ⟨[], rfl, fun _ _ => resting_new _⟩
  | @tell d posted n h ih =>
    obtain ⟨a, hgoes⟩ := h.goes
    rw [List.map_append, lifecycle_append] at hturns ⊢
    obtain ⟨heard, hheeds⟩ := ih (hturns.of_prefix (List.prefix_append _ _))
    exact ⟨heard, hheeds.tell hgoes.accounted.isOpen n⟩
  | @step d posted s h hs hquiet ih =>
    obtain ⟨a, hgoes⟩ := h.goes
    have haccounted := hgoes.accounted
    obtain ⟨heard, hheeds⟩ := ih hturns
    by_cases hnext : s = .next
    · subst hnext
      exact hheeds.next hturns haccounted.reachable.shaped haccounted.inside hs
    · refine ⟨heard, ?_, hheeds.settled.of_lulls
        (haccounted.reachable.shaped.lulls_play hs hquiet hnext)⟩
      rw [lifecycle_pending_play haccounted.isOpen hs hquiet hnext]
      exact hheeds.told

-- A start finds no block open.
theorem Attends.closed_at_start (h : d.Attends posted)
    (hturns : TakeTurns epoch (lifecycle (posted.map Notice.event)))
    (hseen : d.recorder.viewport.disposed = false) {command prompt : Option Text} {started : Nat}
    (hnext : d.nextEvent? = some (.commandStarted command prompt started)) :
    d.recorder.transcript.activeBlock? = none := by
  obtain ⟨heard, htold, hsettled⟩ := h.heeds hturns
  have hpending : d.pending =
      .commandStarted command prompt started :: d.handleNext.pending := by
    unfold nextEvent? at hnext
    split at hnext
    · rename_i e rest htasks
      obtain rfl := Option.some.inj hnext
      exact pending_handleNext htasks
    · cases hnext
  rw [hpending] at htold
  have heven := (hturns.next htold).1
  exact (hsettled hseen (.inr (by omega))).activeBlock?

-- Where a reader's moves come about in any schedule, what it tells is attended to.
theorem Plays.attends {moves : List Move} (h : d.Plays moves d') (hattends : d.Attends posted) :
    ∃ notices, d'.Attends (posted ++ notices) ∧
      notices.map Notice.event = Move.told d.stage.terminal moves := by
  induction h generalizing posted with
  | done d =>
    refine ⟨[], ?_, rfl⟩
    rw [List.append_nil]
    exact hattends
  | @move d d' move moves _ ih =>
    cases move with
    | print bytes => exact ih (hattends.step (.change fun t => t.write bytes) trivial trivial)
    | reset => exact ih (hattends.step (.change Terminal.clearAll) trivial trivial)
    | takeReplies =>
      exact ih (hattends.step (.change fun t => t.takeReplies.2) trivial trivial)
    | tell happening =>
      obtain ⟨notices, hrest, htold⟩ := ih (hattends.tell ⟨happening, d.stage.terminal⟩)
      refine ⟨⟨happening, d.stage.terminal⟩ :: notices, ?_, ?_⟩
      · rwa [List.append_assoc] at hrest
      · rw [List.map_cons, htold]
        rfl
  | @poll d d' moves _ ih =>
    rw [← terminal_poll d]
    exact ih (hattends.step .poll trivial trivial)
  | @next d d' moves hfits _ ih =>
    rw [← terminal_handleNext d]
    exact ih (hattends.step .next hfits trivial)

end Attending

end Desk

namespace Reading

-- Starts and finishes are told in turns, beginning with a start, and the epochs of the starts increase.
-- A command finishes with a snapshot of the epoch that it started in. And a recorder that is told all
-- this in the order of the telling, and is not disposed of, has no open block when it comes to a start.
theorem Reads.lifecycle_protocol {r r' : Reading} {chunks : List (List UInt8)}
    {notices : List Notice} (h : r.Reads chunks notices r') (hidle : r.isRunning = false) :
    (∀ (place : Nat) (e : Event), (lifecycle (notices.map Notice.event))[place]? = some e →
      (e.isStart = true ↔ place % 2 = 0)) ∧
    ((lifecycle (notices.map Notice.event)).filterMap Event.startEpoch?).Pairwise (· < ·) ∧
    (∀ (place : Nat) (command prompt : Option Text) (epoch : Nat) (exitCode : Int)
      (output : Snapshot),
      (lifecycle (notices.map Notice.event))[place]? = some (.commandStarted command prompt epoch) →
      (lifecycle (notices.map Notice.event))[place + 1]? = some (.commandFinished exitCode output) →
      output.epoch = epoch) ∧
    ∀ (d : Desk) (posted : List Notice), posted <+: notices → d.Attends posted →
      d.recorder.viewport.disposed = false →
      ∀ (command prompt : Option Text) (epoch : Nat),
        d.nextEvent? = some (.commandStarted command prompt epoch) →
        d.recorder.transcript.activeBlock? = none := by
  have hturns := h.takeTurns hidle
  refine ⟨fun place e he => (hturns place e he).isStart_iff, hturns.epochs_increase, ?_, ?_⟩
  · intro place command prompt epoch exitCode output hstart hfinish
    exact hturns.same_epoch hstart hfinish
  · intro d posted hposted hattends hseen command prompt epoch hnext
    refine hattends.closed_at_start (hturns.of_prefix ?_) hseen hnext
    exact (hposted.map Notice.event).filter Event.isLifecycle

def startingTwice : List (List UInt8) :=
  [Utf8.encode "\x1B]133;C\x07a".toList, Utf8.encode "\x1B]133;D;1\x07".toList,
    Utf8.encode "\x1B]133;C\x07".toList]

-- The second command starts when the block of the first is closed.
theorem lifecycle_of_startingTwice :
    (lifecycle ((Studio.smallSession.reading.readAll startingTwice).2.map Notice.event)).filterMap
        Event.startEpoch? = [1, 3] ∧
      ∃ d : Desk, d.Attends (Studio.smallSession.reading.readAll startingTwice).2 ∧
        d.nextEvent? = some (.commandStarted none none 3) ∧
        d.recorder.transcript.blocks.length = 1 ∧
        d.recorder.transcript.activeBlock? = none := by
  obtain ⟨-, -, -, hclosed⟩ :=
    (Studio.smallSession.reading.reads_readAll startingTwice).lifecycle_protocol rfl
  have htold := (Desk.Attends.new Studio.smallSession.reading.terminal).tells
    (Studio.smallSession.reading.readAll startingTwice).2
  have hheard := (htold.step .next (by unfold Desk.Step.Allowed Call.Fits; decide +kernel)
    trivial).step .next (by unfold Desk.Step.Allowed Call.Fits; decide +kernel) trivial
  refine ⟨by decide +kernel, _, hheard, by decide +kernel, by decide +kernel, ?_⟩
  exact hclosed _ _ (List.prefix_refl _) hheard (by decide +kernel) none none 3 (by decide +kernel)

end Reading

end ShellTranscript
