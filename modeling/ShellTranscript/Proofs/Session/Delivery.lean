import Mathlib.Tactic.Common
import ShellTranscript.Proofs.Recorder.Pump
import ShellTranscript.Session.Timing

-- What a session that a recorder listens to posts: everything that is told, in its order, and for
-- every poll any number of snapshots of the terminal. Nothing else of the session is changed by it,
-- but for the connections and the sampler.
namespace ShellTranscript

namespace Session

-- The recorder alone listens, the reader is there, and nothing waits for it or for a connection.
structure Relays (s : Session) : Prop where
  commands : s.commandListeners.members = [.relay]
  screens : s.screenListeners.members = [.relay]
  reader : ∃ connector, s.reader = .attached connector
  arrivals : s.arrivals = []
  requests : s.requests = []
  mailbox : s.mailbox.isClosed = false

section Posting

variable {s : Session}

theorem Relays.postAll (h : s.Relays) (events : List Event) :
    { s with mailbox := s.mailbox.postAll events }.Relays :=
  ⟨h.commands, h.screens, h.reader, h.arrivals, h.requests, h.mailbox⟩

theorem Relays.deliver_eq (h : s.Relays) (n : Notice) :
    s.deliver n = { s with mailbox := s.mailbox.postAll [n.event] } := by
  have hlisteners : (s.listenersOf n.happening).members = [.relay] := by
    cases n.happening with
    | alternateChanged enabled => exact h.screens
    | _ => exact h.commands
  rw [← Mailbox.postEvent_eq h.mailbox, deliver, hlisteners]
  rfl

theorem Relays.foldl_deliver (h : s.Relays) (notices : List Notice) :
    notices.foldl deliver s = { s with mailbox := s.mailbox.postAll (notices.map Notice.event) } := by
  induction notices generalizing s with
  | nil => simp [Mailbox.postAll_nil]
  | cons n notices ih =>
    rw [List.foldl_cons, h.deliver_eq, ih (h.postAll _), Mailbox.postAll_postAll]
    rfl

theorem foldl_callConnector (s : Session) (connector : Nat) (replies : List Text) :
    ∃ connectors, replies.foldl (fun s reply =>
      (s.callConnector connector fun c => c.write none reply).1) s = { s with connectors } := by
  induction replies generalizing s with
  | nil => exact ⟨s.connectors, rfl⟩
  | cons reply replies ih =>
    obtain ⟨first, hfirst⟩ : ∃ connectors,
        (s.callConnector connector fun c => c.write none reply).1 = { s with connectors } := by
      unfold callConnector
      split
      · exact ⟨s.connectors, rfl⟩
      · exact ⟨_, rfl⟩
    obtain ⟨connectors, hrest⟩ := ih { s with connectors := first }
    exact ⟨connectors, by rw [List.foldl_cons, hfirst, hrest]⟩

-- A read posts what is told in it.
theorem Relays.posts_read (h : s.Relays) (connector : Nat) (bytes : List UInt8) :
    (s.read connector bytes).reading = (s.reading.read bytes).1 ∧
      (s.read connector bytes).mailbox =
        s.mailbox.postAll ((s.reading.read bytes).2.1.map Notice.event) ∧
      (s.read connector bytes).sampler = s.sampler ∧ (s.read connector bytes).Relays := by
  have hrelays : { s with reading := (s.reading.read bytes).1 }.Relays :=
    ⟨h.commands, h.screens, h.reader, h.arrivals, h.requests, h.mailbox⟩
  have hread : s.read connector bytes = (s.reading.read bytes).2.2.foldl
      (fun s reply => (s.callConnector connector fun c => c.write none reply).1)
      ((s.reading.read bytes).2.1.foldl deliver { s with reading := (s.reading.read bytes).1 }) := rfl
  rw [hread, hrelays.foldl_deliver]
  obtain ⟨connectors, hreplies⟩ := foldl_callConnector _ connector (s.reading.read bytes).2.2
  rw [hreplies]
  exact ⟨rfl, rfl, rfl, h.commands, h.screens, h.reader, h.arrivals, h.requests, h.mailbox⟩

theorem Relays.receive_eq (h : s.Relays) (bytes : List UInt8) :
    ∃ connector, s.receive (.output bytes) =
      (reads bytes).foldl (fun s bytes => s.read connector bytes) s := by
  obtain ⟨connector, hreader⟩ := h.reader
  have hwaiting : ({ s with arrivals := [] } : Session) = s := by
    rw [← h.arrivals]
  rw [hreader] at hwaiting
  refine ⟨connector, ?_⟩
  simp only [receive, h.arrivals, List.nil_append, takeWaiting, hreader, List.foldl_cons,
    List.foldl_nil, hwaiting, take]

-- Snapshots of what the terminal shows are posted; of the reading, only predictions may change.
structure Samples (s s' : Session) : Prop where
  reading : ∃ echo, s'.reading = { s.reading with echo }
  mailbox : ∃ n, s'.mailbox =
    s.mailbox.postAll (List.replicate n (.outputChanged s.terminal.snapshot))
  relays : s'.Relays

theorem Relays.samples_refl (h : s.Relays) : s.Samples s :=
  ⟨⟨s.reading.echo, rfl⟩, ⟨0, s.mailbox.postAll_nil.symm⟩, h⟩

theorem Samples.trans {s' s'' : Session} (h : s.Samples s') (h' : s'.Samples s'') :
    s.Samples s'' := by
  obtain ⟨⟨echo, hreading⟩, ⟨n, hmailbox⟩, -⟩ := h
  obtain ⟨⟨echo', hreading'⟩, ⟨n', hmailbox'⟩, hrelays⟩ := h'
  have hterminal : s'.terminal = s.terminal := by
    rw [Session.terminal, hreading]
    rfl
  refine ⟨⟨echo', by rw [hreading', hreading]⟩, ⟨n + n', ?_⟩, hrelays⟩
  rw [hmailbox', hmailbox, hterminal, Mailbox.postAll_postAll, List.replicate_append_replicate]

-- Changes of what has to do with time alone.
theorem Relays.samples_timed (h : s.Relays) (echo : EchoPredictor)
    (samplingLoop : Option SamplingLoop) (nextTick : Option Nat) (now : Nat) :
    s.Samples { s with reading := { s.reading with echo }, samplingLoop, nextTick, now } :=
  ⟨⟨echo, rfl⟩, ⟨0, s.mailbox.postAll_nil.symm⟩,
    ⟨h.commands, h.screens, h.reader, h.arrivals, h.requests, h.mailbox⟩⟩

-- A poll posts the snapshot once for everyone who listens to the sampler, if it posts it.
theorem Relays.samples_poll (h : s.Relays) : s.Samples s.poll.1 := by
  have hpoll : s.poll.1 = s.withStage s.stage.poll.1 := rfl
  rw [hpoll, Stage.poll]
  cases hsample : s.stage.sampler.sample s.stage.terminal with
  | none => exact h.samples_refl
  | some output =>
    have houtput := Sampler.eq_snapshot_of_sample hsample
    have hposted := Mailbox.foldl_postEvent h.mailbox (.outputChanged output)
      s.stage.sampler.listeners.members
    refine ⟨⟨s.reading.echo, rfl⟩, ⟨s.stage.sampler.listeners.members.length, ?_⟩, ?_⟩
    · rw [houtput] at hposted
      exact houtput ▸ hposted
    · refine ⟨h.commands, h.screens, h.reader, h.arrivals, h.requests, ?_⟩
      exact (congrArg Mailbox.isClosed hposted).trans h.mailbox

theorem Relays.samples_stepLoop (h : s.Relays) : s.Samples s.stepLoop := by
  unfold stepLoop
  split
  · exact h.samples_refl
  · rename_i l _
    have hstepped := h.samples_timed s.reading.echo (some (l.step s.terminal s.now).1) s.nextTick s.now
    dsimp only
    split
    · exact hstepped.trans hstepped.relays.samples_poll
    · exact hstepped

theorem Relays.samples_runLoop (h : s.Relays) : s.Samples s.runLoop := by
  suffices hsteps : ∀ steps : List Nat, ∀ s : Session, s.Relays →
      s.Samples (steps.foldl (fun s _ => s.stepLoop) s) from hsteps _ s h
  intro steps
  induction steps with
  | nil => exact fun s h => h.samples_refl
  | cons step steps ih =>
    intro s h
    exact h.samples_stepLoop.trans (ih _ h.samples_stepLoop.relays)

theorem Relays.samples_tick (h : s.Relays) : s.Samples s.tick := by
  unfold tick
  split
  · exact h.samples_refl
  · split
    · exact h.samples_timed _ s.samplingLoop _ s.now
    · exact h.samples_refl

theorem Relays.samples_settle (h : s.Relays) : s.Samples s.settle := by
  have hrequests : s.finishRequests = s := by
    rw [finishRequests, h.requests]
    rfl
  rw [settle, hrequests]
  exact h.samples_runLoop.trans h.samples_runLoop.relays.samples_tick

theorem Relays.samples_advanceTo (h : s.Relays) (target fuel : Nat) :
    s.Samples (advanceTo target fuel s) := by
  induction fuel generalizing s with
  | zero =>
    have hmoved := h.samples_timed s.reading.echo s.samplingLoop s.nextTick target
    exact hmoved.trans hmoved.relays.samples_settle
  | succ fuel ih =>
    have hsettled := h.samples_settle
    simp only [advanceTo]
    split
    · rename_i moment _
      have hmoved := hsettled.trans (hsettled.relays.samples_timed s.settle.reading.echo
        s.settle.samplingLoop s.settle.nextTick moment)
      exact hmoved.trans (ih hmoved.relays)
    · exact hsettled.trans (hsettled.relays.samples_timed s.settle.reading.echo
        s.settle.samplingLoop s.settle.nextTick target)

end Posting

end Session

end ShellTranscript
