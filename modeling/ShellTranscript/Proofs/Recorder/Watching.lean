import ShellTranscript.Proofs.Recorder.Listening
import ShellTranscript.Proofs.Recorder.Pump

-- A recorder that watches a terminal through a sampler. The sampler does not broadcast what it
-- broadcast last, and a recorder that begins to listen writes what it sees then without telling the
-- sampler. So the running block shows the screen when all has been handled just if the recorder was
-- caught up with the sampler: it agreed with the last broadcast when it began to listen, or there has
-- been one since.
namespace ShellTranscript

open Text Transcript

namespace Desk

-- What the open block shows of its output.
def shownOutput? (d : Desk) : Option Text :=
  d.transcript.activeBlock?.bind fun b => d.transcript.document.slice? b.outputStart b.stop

-- A snapshot that a block of this epoch would take.
def snapshotFor? (epoch : Option Nat) : Task → Option Snapshot
  | .event (.outputChanged output) =>
    if output.alternate = false ∧ epoch = some output.epoch then some output else none
  | _ => none

theorem snapshotFor?_eq_none {task : Task} (htask : ∀ output, task ≠ .event (.outputChanged output))
    (epoch : Option Nat) : snapshotFor? epoch task = none := by
  cases task with
  | invoke label => rfl
  | event e =>
    cases e with
    | outputChanged output => exact absurd rfl (htask output)
    | _ => rfl

-- The snapshots for the open block that are still to be handled.
def waiting (d : Desk) : List Snapshot :=
  d.stage.mailbox.tasks.filterMap (snapshotFor? d.recorder.epoch)

-- What the open block will show of its output when they are handled.
def expectedOutput? (d : Desk) : Option Text :=
  match d.waiting.getLast? with
  | some output => some output.text
  | none => d.shownOutput?

-- The open block agrees with the last broadcast, if that was of its epoch.
def Seamless (d : Desk) : Prop :=
  ∀ sent, d.stage.sampler.lastSent = some sent → d.recorder.epoch = some sent.epoch →
    d.expectedOutput? = some sent.text

-- A change of the terminal, a poll, something posted, a call, a task of the mailbox handled, and what
-- else may be done to a recorder from outside.
inductive Step where
  | change (f : Terminal → Terminal)
  | poll
  | post (task : Task)
  | call (c : Call)
  | next
  | closeScope (index : Nat)
  | deferNote (label : Text)
  | setRouter (router : Text)

namespace Step

def play (d : Desk) : Step → Desk
  | change f => { d with stage := { d.stage with terminal := f d.stage.terminal } }
  | poll => d.poll
  | post task => d.withMailbox (d.stage.mailbox.post task).1
  | call c => (c.run d).state
  | next => d.handleNext
  | closeScope index => d.closeScope index
  | deferNote label => (d.deferNote label).1
  | setRouter router => d.setRouter router

-- Snapshots come from the sampler alone, and the texts are in memory together with the document.
def Allowed (d : Desk) : Step → Prop
  | post task => ∀ e, task = .event e → (∀ output, e ≠ .outputChanged output) ∧ e.RangesInside
  | call c => (∀ output, c ≠ .handle (.outputChanged output)) ∧ c.RangesInside ∧ c.Fits d
  | next => ∀ e ∈ d.nextEvent?, (Call.handle e).Fits d
  | _ => True

-- A poll that has something to broadcast.
def Broadcasts (d : Desk) : Step → Prop
  | poll => d.stage.poll.2 = true
  | _ => False

end Step

-- What has come of the terminal's last change: whether it was polled, and whether the mailbox was
-- empty after that. And whether the recorder is caught up with the sampler.
structure Account where
  polled : Prop
  emptied : Prop
  caughtUp : Prop

def Account.after (a : Account) (d : Desk) (s : Step) : Account :=
  let unchanged := (s.play d).stage.terminal = d.stage.terminal
  let polled := unchanged ∧ (a.polled ∨ s = .poll)
  { polled
    emptied := unchanged ∧ (a.emptied ∨ polled ∧ (s.play d).stage.mailbox.tasks = [])
    caughtUp :=
      if d.recorder.scopes.length < (s.play d).recorder.scopes.length then (s.play d).Seamless
      else a.caughtUp ∨ s.Broadcasts d }

-- The runs of a recorder from its beginning, with their accounts.
inductive Goes : Desk → Account → Prop where
  | new (terminal : Terminal) :
      Goes { stage := { terminal } } { polled := False, emptied := False, caughtUp := False }
  | step {d : Desk} {a : Account} (s : Step) : Goes d a → s.Allowed d → Goes (s.play d) (a.after d s)

-- A running block that takes what is broadcast.
structure Watches (d : Desk) : Prop where
  running : d.recorder.state = .running
  seen : d.recorder.viewport.disposed = false
  listens : d.Listens

structure Accounted (d : Desk) (a : Account) : Prop where
  reachable : d.Reachable
  scopes : d.Scoped
  isOpen : d.stage.mailbox.isClosed = false
  inside : ∀ e, Task.event e ∈ d.stage.mailbox.tasks → e.RangesInside
  polled : a.polled → d.stage.terminal.disposed = false → d.stage.terminal.isAlternate = false →
    d.stage.sampler.lastSent = some d.stage.terminal.snapshot
  emptied : a.emptied → a.polled ∧ ∀ output, .event (.outputChanged output) ∉ d.stage.mailbox.tasks
  caughtUp : d.Watches → (a.caughtUp ↔ d.Seamless)

section Steps

variable {d d' : Desk} {a : Account} {s : Step}

theorem Recording.shownOutput? {before prompt command output : Text} {closed : List Block} {b : Block}
    (h : d.Recording before prompt command output closed b) : d.shownOutput? = some output := by
  have hslice := slice?_append (before ++ prompt ++ command) output []
  rw [List.append_nil] at hslice
  rw [Desk.shownOutput?, Desk.transcript, h.activeBlock?, Option.bind_some, Document.slice?,
    h.ends.text, h.covers.outputStart, h.covers.stop]
  exact hslice

theorem SameShow.seamless_iff (h : d.SameShow d')
    (hsent : d'.stage.sampler.lastSent = d.stage.sampler.lastSent)
    (hwaiting : d'.waiting = d.waiting) : d'.Seamless ↔ d.Seamless := by
  rw [Seamless, Seamless, expectedOutput?, expectedOutput?, hsent, h.epoch, hwaiting,
    Desk.shownOutput?, Desk.shownOutput?, Desk.transcript, Desk.transcript, h.transcript]

theorem Account.polled_after_poll (a : Account) (d : Desk) : (a.after d .poll).polled :=
  ⟨terminal_poll d, .inr rfl⟩

-- Without a new scope and a broadcast the recorder is as caught up as before.
theorem Account.caughtUp_after (hlength : (s.play d).recorder.scopes.length =
    d.recorder.scopes.length) (hsilent : ¬s.Broadcasts d) :
    (a.after d s).caughtUp ↔ a.caughtUp := by
  simp only [after, hlength, Nat.lt_irrefl, if_false, hsilent, or_false]

theorem lastSent_runTask (d : Desk) (task : Task) :
    (d.runTask task).stage.sampler.lastSent = d.stage.sampler.lastSent := by
  by_cases htask : ∃ output, task = .event (.outputChanged output)
  · obtain ⟨output, rfl⟩ := htask
    exact congrArg Sampler.lastSent (sameWings_snapshot d output).sampler
  · exact (turns_runTask d (not_exists.mp htask)).mail.2

theorem backstage_deferNote (d : Desk) (label : Text) : d.Backstage (d.deferNote label).1 := by
  unfold deferNote
  split
  · exact .refl d
  · rename_i index _
    exact d.backstage_withScope index fun s => s.register (.once (.note label))

theorem broadcasts_poll_iff :
    Step.poll.Broadcasts d ↔ d.stage.sampler.sample d.stage.terminal ≠ none := by
  unfold Step.Broadcasts Stage.poll
  cases d.stage.sampler.sample d.stage.terminal with
  | none => simp
  | some output => simp

theorem lastSent_play (hs : s.Allowed d) (hsilent : ¬s.Broadcasts d) :
    (s.play d).stage.sampler.lastSent = d.stage.sampler.lastSent := by
  cases s with
  | poll =>
    rw [broadcasts_poll_iff, not_not] at hsilent
    rw [Step.play, poll_of_no_sample hsilent]
  | call c => exact (turns_call d hs.1).mail.2
  | next =>
    rcases handleNext_cases d with ⟨hsame, -⟩ | ⟨task, rest, -, hnext⟩
    · rw [Step.play, hsame]
    · rw [Step.play, hnext]
      exact lastSent_runTask _ task
  | closeScope index => exact (backstage_withScope d index Scope.close).lastSent
  | deferNote label => exact (backstage_deferNote d label).lastSent
  | _ => rfl

theorem mailbox_play (hopen : d.stage.mailbox.isClosed = false) (hs : s.Allowed d) :
    (s.play d).stage.mailbox.isClosed = false ∧ ∀ task ∈ (s.play d).stage.mailbox.tasks,
      task ∈ d.stage.mailbox.tasks ∨ s = .post task ∨
        s.Broadcasts d ∧ task = .event (.outputChanged d.stage.terminal.snapshot) := by
  have hsame : (s.play d).stage.mailbox = d.stage.mailbox →
      (s.play d).stage.mailbox.isClosed = false ∧ ∀ task ∈ (s.play d).stage.mailbox.tasks,
        task ∈ d.stage.mailbox.tasks ∨ s = .post task ∨
          s.Broadcasts d ∧ task = .event (.outputChanged d.stage.terminal.snapshot) := by
    intro hmailbox
    rw [hmailbox]
    exact ⟨hopen, fun task htask => .inl htask⟩
  cases s with
  | change f => exact hsame rfl
  | poll =>
    cases hsample : d.stage.sampler.sample d.stage.terminal with
    | none => exact hsame (by rw [Step.play, poll_of_no_sample hsample])
    | some output =>
      have hbroadcasts : Step.poll.Broadcasts d := by
        rw [broadcasts_poll_iff, hsample]
        exact Option.some_ne_none output
      rw [Step.play, poll_of_sample hopen hsample]
      refine ⟨hopen, fun task htask => ?_⟩
      simp only [Mailbox.postAll, List.map_replicate, List.mem_append] at htask
      rcases htask with htask | htask
      · exact .inl htask
      · exact .inr (.inr ⟨hbroadcasts, (List.mem_replicate.mp htask).2⟩)
  | post task =>
    have hposted : (d.stage.mailbox.post task).1 =
        { d.stage.mailbox with tasks := d.stage.mailbox.tasks ++ [task] } := by
      rw [Mailbox.post, if_neg (by rw [hopen]; exact Bool.false_ne_true)]
    rw [Step.play, hposted]
    refine ⟨hopen, fun other hother => ?_⟩
    rcases List.mem_append.mp hother with hother | hother
    · exact .inl hother
    · exact .inr (.inl (congrArg Step.post (List.mem_singleton.mp hother).symm))
  | call c => exact hsame (turns_call d hs.1).mail.1
  | next =>
    rcases handleNext_cases d with ⟨hnone, -⟩ | ⟨task, rest, htasks, hnext⟩
    · exact hsame (by rw [Step.play, hnone])
    · have hmailbox := (sameOutside_runTask
        (d.withMailbox { d.stage.mailbox with tasks := rest }) task).mailbox
      rw [Step.play, hnext, hmailbox]
      refine ⟨hopen, fun other hother => .inl ?_⟩
      rw [htasks]
      exact List.mem_cons_of_mem _ hother
  | closeScope index => exact hsame (backstage_withScope d index Scope.close).mailbox
  | deferNote label => exact hsame (backstage_deferNote d label).mailbox
  | setRouter router => exact hsame rfl

-- Calls and the tasks of the mailbox apart, a step leaves the record alone.
theorem around_play (d : Desk) (hcall : ∀ c, s ≠ .call c) (hnext : s ≠ .next) :
    d.Around (s.play d) := by
  cases s with
  | call c => exact absurd rfl (hcall c)
  | next => exact absurd rfl hnext
  | closeScope index => exact (backstage_withScope d index Scope.close).around
  | deferNote label => exact (backstage_deferNote d label).around
  | setRouter router => exact ⟨⟨rfl, rfl, rfl, rfl⟩, rfl, rfl, rfl, rfl⟩
  | change f => exact d.around_stage _
  | poll => exact d.around_stage _
  | post task => exact d.around_stage _

theorem Reachable.play (h : d.Reachable) (hinside : ∀ e, Task.event e ∈ d.stage.mailbox.tasks →
    e.RangesInside) (hs : s.Allowed d) : (s.play d).Reachable := by
  cases s with
  | call c => exact .call c h hs.2.1 hs.2.2
  | next =>
    rcases handleNext_cases d with ⟨hsame, -⟩ | ⟨task, rest, htasks, hnext⟩
    · rw [Step.play, hsame]
      exact h
    · have hread : (d.withMailbox { d.stage.mailbox with tasks := rest }).Reachable :=
        h.around (d.around_stage _)
      rw [Step.play, hnext]
      cases task with
      | event e =>
        have hfits : (Call.handle e).Fits d := hs e (mem_nextEvent? htasks)
        exact .call (.handle e) hread (hinside e (by rw [htasks]; exact List.mem_cons_self)) hfits
      | invoke label => exact hread.around (backstage_note _ _).around
  | _ => exact h.around (around_play d (by simp) (by simp))

theorem Scoped.play (h : d.Scoped) (hs : s.Allowed d) : (s.play d).Scoped := by
  cases s with
  | poll =>
    refine ⟨h.current, fun hlistens => ?_⟩
    rw [Step.play, listeners_poll]
    exact h.heard hlistens
  | call c => exact (turns_call d hs.1).scoped h
  | next =>
    rcases handleNext_cases d with ⟨hsame, -⟩ | ⟨task, rest, -, hnext⟩
    · rw [Step.play, hsame]
      exact h
    · have hread : (d.withMailbox { d.stage.mailbox with tasks := rest }).Scoped :=
        ⟨h.current, h.heard⟩
      rw [Step.play, hnext]
      by_cases htask : ∃ output, task = .event (.outputChanged output)
      · obtain ⟨output, rfl⟩ := htask
        exact hread.of_wings (sameWings_snapshot _ output)
      · exact (turns_runTask _ (not_exists.mp htask)).scoped hread
  | closeScope index => exact h.closeScope index
  | deferNote label => exact (h.deferNote label).1
  | change f => exact ⟨h.current, h.heard⟩
  | post task => exact ⟨h.current, h.heard⟩
  | setRouter router => exact ⟨h.current, h.heard⟩

theorem Accounted.polled_play (h : Accounted d a) (hs : s.Allowed d) (hpolled : (a.after d s).polled)
    (hlive : (s.play d).stage.terminal.disposed = false)
    (hmain : (s.play d).stage.terminal.isAlternate = false) :
    (s.play d).stage.sampler.lastSent = some (s.play d).stage.terminal.snapshot := by
  obtain ⟨hsame, hpolled⟩ := hpolled
  rw [hsame] at hlive hmain ⊢
  by_cases hpoll : s = .poll
  · subst hpoll
    cases hsample : d.stage.sampler.sample d.stage.terminal with
    | none =>
      rw [Step.play, poll_of_no_sample hsample]
      exact Sampler.lastSent_of_sample hsample hlive hmain
    | some output =>
      rw [Step.play, poll_of_sample h.isOpen hsample]
      rfl
  · have hsilent : ¬s.Broadcasts d := by
      cases s with
      | poll => exact absurd rfl hpoll
      | _ => exact not_false
    rw [lastSent_play hs hsilent]
    exact h.polled (hpolled.resolve_right hpoll) hlive hmain

theorem Accounted.emptied_play (h : Accounted d a) (hs : s.Allowed d)
    (hemptied : (a.after d s).emptied) : (a.after d s).polled ∧
      ∀ output, .event (.outputChanged output) ∉ (s.play d).stage.mailbox.tasks := by
  obtain ⟨hsame, hemptied | ⟨hpolled, hnone⟩⟩ := hemptied
  · obtain ⟨hpolled, hwaiting⟩ := h.emptied hemptied
    refine ⟨⟨hsame, .inl hpolled⟩, fun output hmem => ?_⟩
    rcases (mailbox_play h.isOpen hs).2 _ hmem with hbefore | rfl | ⟨hbroadcasts, -⟩
    · exact hwaiting output hbefore
    · exact (hs _ rfl).1 output rfl
    · cases s with
      | poll =>
        have hsample := Sampler.sample_eq_none (h.polled hpolled)
        exact broadcasts_poll_iff.mp hbroadcasts hsample
      | _ => exact hbroadcasts
  · refine ⟨hpolled, fun output hmem => ?_⟩
    rw [hnone] at hmem
    cases hmem

theorem Accounted.caughtUp_of_same (h : Accounted d a) (hsame : s.play d = d)
    (hsilent : ¬s.Broadcasts d) (hwatches : (s.play d).Watches) :
    (a.after d s).caughtUp ↔ (s.play d).Seamless := by
  have hlength : (s.play d).recorder.scopes.length = d.recorder.scopes.length := by rw [hsame]
  rw [hsame] at hwatches
  rw [Account.caughtUp_after hlength hsilent, hsame]
  exact h.caughtUp hwatches

-- A step other than a broadcast and a snapshot: either a scope is opened, or nothing of the record and
-- of what waits for it is changed.
theorem Accounted.caughtUp_of_quiet (h : Accounted d a) (hs : s.Allowed d)
    (hsilent : ¬s.Broadcasts d)
    (hwaiting : (s.play d).stage.mailbox.tasks.filterMap (snapshotFor? d.recorder.epoch) =
      d.waiting)
    (hwatches : (s.play d).Watches)
    (hquiet : d.recorder.scopes.length < (s.play d).recorder.scopes.length ∨
      d.Listens ∧ (s.play d).recorder.scopes.length = d.recorder.scopes.length ∧
        d.SameShow (s.play d)) :
    (a.after d s).caughtUp ↔ (s.play d).Seamless := by
  rcases hquiet with hopened | ⟨hlistens, hlength, hshow⟩
  · simp only [Account.after, hopened, if_true]
  · have hkept : (s.play d).waiting = d.waiting := by
      rw [waiting, hshow.epoch, hwaiting]
    rw [Account.caughtUp_after hlength hsilent, hshow.seamless_iff (lastSent_play hs hsilent) hkept]
    exact h.caughtUp ⟨hshow.state ▸ hwatches.running, hshow.disposed ▸ hwatches.seen, hlistens⟩

-- After a broadcast to a recorder that listens, the last snapshot to come is what was broadcast.
theorem Accounted.seamless_poll (h : Accounted d a) (hlistens : d.Listens) {output : Snapshot}
    (hsample : d.stage.sampler.sample d.stage.terminal = some output) : d.poll.Seamless := by
  obtain ⟨-, hmain, -, rfl⟩ := Sampler.sample_eq_some_iff.mp hsample
  have hheard := h.scopes.heard hlistens
  rw [poll_of_sample h.isOpen hsample]
  intro sent hsent hepoch
  obtain rfl := Option.some.inj hsent
  cases hmembers : d.stage.sampler.listeners.members with
  | nil => exact absurd hmembers hheard
  | cons listener listeners =>
    have htakes : snapshotFor? d.recorder.epoch
        (.event (.outputChanged d.stage.terminal.snapshot)) = some d.stage.terminal.snapshot :=
      if_pos ⟨hmain, hepoch⟩
    have hlast : (d.stage.mailbox.postAll (List.replicate (listeners.length + 1)
        (.outputChanged d.stage.terminal.snapshot))).tasks.filterMap
          (snapshotFor? d.recorder.epoch) =
        d.waiting ++ List.replicate (listeners.length + 1) d.stage.terminal.snapshot := by
      simp only [Mailbox.postAll, List.map_replicate, List.filterMap_append,
        List.filterMap_replicate, htakes]
      rfl
    simp only [expectedOutput?, waiting, List.length_cons, hlast]
    rw [List.replicate_succ', ← List.append_assoc, List.getLast?_concat]

-- A snapshot that is handled shows what was to come, and one that is dropped was not waited for.
theorem Shaped.handle_snapshot (h : d.Shaped) {output : Snapshot} {rest : List Task}
    (htasks : d.stage.mailbox.tasks = .event (.outputChanged output) :: rest)
    (hinside : output.RangesInside) (hfits : (Call.handle (.outputChanged output)).Fits d)
    (hhandled : (d.withMailbox { d.stage.mailbox with tasks := rest }).runTask
      (.event (.outputChanged output)) = d')
    (hrunning : d'.recorder.state = .running) (hseen : d'.recorder.viewport.disposed = false) :
    d.recorder.state = .running ∧ d.recorder.viewport.disposed = false ∧
      (d'.Seamless ↔ d.Seamless) := by
  generalize hread : d.withMailbox { d.stage.mailbox with tasks := rest } = read at hhandled
  have hshow : d.SameShow read := hread ▸ ⟨rfl, rfl, rfl, rfl⟩
  have hsent : read.stage.sampler.lastSent = d.stage.sampler.lastSent := hread ▸ rfl
  have hleft : read.stage.mailbox.tasks = rest := hread ▸ rfl
  have hshaped : read.Shaped := hread ▸ h.of_around (d.around_stage _)
  have hbusy : d.recorder.state = .running := by
    by_contra hidle
    have hsame : d' = read := by
      rw [← hhandled, runTask, handle, Desk.handleEvent, if_neg (hshow.state ▸ hidle)]
      rfl
    rw [hsame, hshow.state] at hrunning
    exact hidle hrunning
  rcases hshaped with hresting | ⟨before, prompt, command, old, closed, b, hrecording⟩
  · rw [← hshow.state, hresting.idle] at hbusy
    cases hbusy
  by_cases hcurrent : d.recorder.viewport.disposed = false ∧ output.alternate = false ∧
      d.recorder.epoch = some output.epoch
  · obtain ⟨hlooks, hmain, hepoch⟩ := hcurrent
    have hroom : read.recorder.transcript.document.length + byteLength output.text ≤ maxOffset := by
      rw [hshow.transcript]
      simp only [Call.Fits, Call.bytes, Event.bytes] at hfits
      omega
    obtain ⟨d'', happly, hcourse, hwritten⟩ := hrecording.applyOutput_current hinside
      (hrecording.fits_of_room hroom) (hshow.disposed.trans hlooks) hmain (hshow.epoch.trans hepoch)
    have hsame : d' = d'' := by
      rw [← hhandled, runTask, handle, Desk.handleEvent, if_pos (hshow.state.trans hbusy), happly]
      rfl
    have htakes : snapshotFor? d.recorder.epoch (.event (.outputChanged output)) = some output :=
      if_pos ⟨hmain, hepoch⟩
    have hbefore : d.waiting = output :: rest.filterMap (snapshotFor? d.recorder.epoch) := by
      rw [waiting, htasks, List.filterMap_cons, htakes]
    have hafter : d''.waiting = rest.filterMap (snapshotFor? d.recorder.epoch) := by
      rw [waiting, hcourse.stage, hleft, hcourse.epoch, hshow.epoch]
    have hexpected : d''.expectedOutput? = d.expectedOutput? := by
      rw [expectedOutput?, expectedOutput?, hbefore, hafter, hwritten.shownOutput?,
        List.getLast?_cons]
      cases (rest.filterMap (snapshotFor? d.recorder.epoch)).getLast? <;> rfl
    refine ⟨hbusy, hlooks, ?_⟩
    rw [hsame, Seamless, Seamless, hexpected, hcourse.stage, hcourse.epoch, hshow.epoch, hsent]
  · have hdropped : read.applyOutput output = .done read :=
      applyOutput_dropped (by rwa [hshow.disposed, hshow.epoch])
    have hsame : d' = read := by
      rw [← hhandled, runTask, handle, Desk.handleEvent, if_pos (hshow.state.trans hbusy), hdropped]
      rfl
    rw [hsame, hshow.disposed] at hseen
    have hpasses : snapshotFor? d.recorder.epoch (.event (.outputChanged output)) = none :=
      if_neg fun htakes => hcurrent ⟨hseen, htakes⟩
    refine ⟨hbusy, hseen, hsame ▸ hshow.seamless_iff hsent ?_⟩
    rw [waiting, waiting, hleft, htasks, hshow.epoch, List.filterMap_cons, hpasses]

theorem Accounted.caughtUp_poll (h : Accounted d a) (hwatches : d.poll.Watches) :
    (a.after d .poll).caughtUp ↔ d.poll.Seamless := by
  cases hsample : d.stage.sampler.sample d.stage.terminal with
  | none =>
    have hsilent : ¬Step.poll.Broadcasts d := by rw [broadcasts_poll_iff, hsample, not_not]
    exact h.caughtUp_of_same (poll_of_no_sample hsample) hsilent hwatches
  | some output =>
    have hbroadcasts : Step.poll.Broadcasts d := by
      rw [broadcasts_poll_iff, hsample]
      exact Option.some_ne_none output
    have hlength : (Step.poll.play d).recorder.scopes.length = d.recorder.scopes.length := rfl
    refine iff_of_true ?_ (h.seamless_poll hwatches.listens hsample)
    simp only [Account.after, hlength, Nat.lt_irrefl, if_false, hbroadcasts, or_true]

theorem Accounted.caughtUp_post (h : Accounted d a) {task : Task} (hs : Step.Allowed d (.post task))
    (hwatches : (Step.post task |>.play d).Watches) :
    (a.after d (.post task)).caughtUp ↔ (Step.post task |>.play d).Seamless := by
  refine h.caughtUp_of_quiet hs not_false ?_ hwatches
    (.inr ⟨hwatches.listens, rfl, ⟨rfl, rfl, rfl, rfl⟩⟩)
  have hnone := snapshotFor?_eq_none (fun output heq => (hs _ heq).1 output rfl) d.recorder.epoch
  show ((d.stage.mailbox.post task).1.tasks).filterMap _ = _
  rw [Mailbox.post, if_neg (by rw [h.isOpen]; exact Bool.false_ne_true)]
  simp only [List.filterMap_append, List.filterMap_cons, List.filterMap_nil, hnone,
    List.append_nil, waiting]

-- The first task of the mailbox is a snapshot, or it is something that a scope hears of.
theorem Accounted.caughtUp_next (h : Accounted d a) (hs : Step.next.Allowed d)
    (hwatches : (Step.next.play d).Watches) :
    (a.after d .next).caughtUp ↔ (Step.next.play d).Seamless := by
  rcases handleNext_cases d with ⟨hsame, -⟩ | ⟨task, rest, htasks, hnext⟩
  · exact h.caughtUp_of_same hsame not_false hwatches
  have hplay : Step.next.play d =
      (d.withMailbox { d.stage.mailbox with tasks := rest }).runTask task := hnext
  obtain ⟨hrunning, hseen, hlistens⟩ := hwatches
  by_cases htask : ∃ output, task = .event (.outputChanged output)
  · obtain ⟨output, rfl⟩ := htask
    have hwings := sameWings_snapshot (d.withMailbox { d.stage.mailbox with tasks := rest }) output
    have hinside := h.inside (.outputChanged output) (by rw [htasks]; exact List.mem_cons_self)
    have hfits := hs (.outputChanged output) (mem_nextEvent? htasks)
    obtain ⟨hbusy, hlooks, hseamless⟩ :=
      h.reachable.shaped.handle_snapshot htasks hinside hfits hplay.symm hrunning hseen
    rw [hplay] at hlistens
    have hlength : (Step.next.play d).recorder.scopes.length = d.recorder.scopes.length := by
      rw [hplay]
      exact congrArg List.length hwings.scopes
    rw [Account.caughtUp_after hlength not_false, hseamless]
    exact h.caughtUp ⟨hbusy, hlooks, hwings.listens hlistens⟩
  · have hturns := turns_runTask (d.withMailbox { d.stage.mailbox with tasks := rest })
      (not_exists.mp htask)
    have hread : (d.withMailbox { d.stage.mailbox with tasks := rest }).Scoped :=
      ⟨h.scopes.current, h.scopes.heard⟩
    have hnone := snapshotFor?_eq_none (not_exists.mp htask) d.recorder.epoch
    refine h.caughtUp_of_quiet hs not_false ?_ ⟨hrunning, hseen, hlistens⟩ ?_
    · rw [hplay, hturns.mail.1, waiting, htasks, List.filterMap_cons, hnone]
      rfl
    · rw [hplay] at hlistens hrunning ⊢
      refine (hturns.listening hread hlistens hrunning).imp_right fun ⟨hwings, hshow⟩ => ?_
      exact ⟨hwings.listens hlistens, congrArg List.length hwings.scopes,
        ⟨hshow.transcript, hshow.state, hshow.epoch, hshow.disposed⟩⟩

theorem Accounted.caughtUp_play (h : Accounted d a) (hs : s.Allowed d)
    (hwatches : (s.play d).Watches) : (a.after d s).caughtUp ↔ (s.play d).Seamless := by
  cases s with
  | change f =>
    exact h.caughtUp_of_quiet hs not_false rfl hwatches
      (.inr ⟨hwatches.listens, rfl, ⟨rfl, rfl, rfl, rfl⟩⟩)
  | poll => exact h.caughtUp_poll hwatches
  | post task => exact h.caughtUp_post hs hwatches
  | call c =>
    have hturns := turns_call d hs.1
    refine h.caughtUp_of_quiet hs not_false ?_ hwatches ?_
    · rw [Step.play, hturns.mail.1]
      rfl
    · refine (hturns.listening h.scopes hwatches.listens hwatches.running).imp_right
        fun ⟨hwings, hshow⟩ => ?_
      exact ⟨hwings.listens hwatches.listens, congrArg List.length hwings.scopes, hshow⟩
  | next => exact h.caughtUp_next hs hwatches
  | closeScope index =>
    have hback := backstage_withScope d index Scope.close
    have hbefore := listens_of_closeScope hwatches.listens
    exact h.caughtUp_of_quiet hs not_false (congrArg _ (congrArg Mailbox.tasks hback.mailbox))
      hwatches (.inr ⟨hbefore, length_closeScope d index, hback.sameShow⟩)
  | deferNote label =>
    have hback := backstage_deferNote d label
    obtain ⟨-, hbefore, hlength⟩ := h.scopes.deferNote label
    exact h.caughtUp_of_quiet hs not_false (congrArg _ (congrArg Mailbox.tasks hback.mailbox))
      hwatches (.inr ⟨hbefore hwatches.listens, hlength, hback.sameShow⟩)
  | setRouter router =>
    exact h.caughtUp_of_quiet hs not_false rfl hwatches
      (.inr ⟨hwatches.listens, rfl, ⟨rfl, rfl, rfl, rfl⟩⟩)

theorem Accounted.step (h : Accounted d a) (hs : s.Allowed d) :
    Accounted (s.play d) (a.after d s) := by
  obtain ⟨hopen, htasks⟩ := mailbox_play h.isOpen hs
  refine ⟨h.reachable.play h.inside hs, h.scopes.play hs, hopen, fun e he => ?_, h.polled_play hs,
    h.emptied_play hs, h.caughtUp_play hs⟩
  rcases htasks _ he with hbefore | rfl | ⟨-, hsnapshot⟩
  · exact h.inside e hbefore
  · exact (hs e rfl).2
  · obtain rfl := Task.event.inj hsnapshot
    exact d.stage.terminal.snapshot_rangesInside

theorem accounted_new (terminal : Terminal) :
    Accounted { stage := { terminal } } { polled := False, emptied := False, caughtUp := False } where
  reachable := .new _
  scopes := ⟨fun _ _ hs => (by cases hs), fun ⟨_, _, hscope, _⟩ => (by cases hscope)⟩
  isOpen := rfl
  inside := fun _ he => by cases he
  polled := False.elim
  emptied := False.elim
  caughtUp := fun hwatches => (by cases hwatches.running)

theorem Goes.accounted (h : Goes d a) : Accounted d a := by
  induction h with
  | new terminal => exact accounted_new terminal
  | step s _ hs ih => exact ih.step hs

end Steps

-- When the terminal was polled and all was handled since its last change, the running block shows the
-- screen just if the recorder is caught up with the sampler.
theorem Goes.shows_screen_iff {d : Desk} {a : Account} (h : Goes d a)
    (hrunning : d.recorder.state = .running) (hseen : d.recorder.viewport.disposed = false)
    (hlistens : d.Listens) (hlive : d.stage.terminal.disposed = false)
    (hmain : d.stage.terminal.isAlternate = false)
    (hepoch : d.recorder.epoch = some d.stage.terminal.epoch) (hemptied : a.emptied) :
    d.shownOutput? = some d.stage.terminal.snapshot.text ↔ a.caughtUp := by
  have haccounted := h.accounted
  obtain ⟨hpolled, hnone⟩ := haccounted.emptied hemptied
  have hsent := haccounted.polled hpolled hlive hmain
  have hwaiting : d.waiting = [] := by
    refine List.filterMap_eq_nil_iff.mpr fun task htask => snapshotFor?_eq_none ?_ _
    exact fun output heq => hnone output (heq ▸ htask)
  rw [haccounted.caughtUp ⟨hrunning, hseen, hlistens⟩, Seamless, expectedOutput?, hwaiting]
  constructor
  · intro hshown sent hlast _
    obtain rfl := Option.some.inj (hsent.symm.trans hlast)
    exact hshown
  · exact fun hseamless => hseamless _ hsent hepoch

-- Something is written, polled and handled.
theorem Goes.shows_screen_written :
    let started := (Step.call (.startCommand (some ['c']) none)).play
      { stage := { terminal := .new ⟨10, 4⟩ 10 } }
    let d := Step.next.play (Step.poll.play ((Step.change fun t => t.write [0x78]).play started))
    d.shownOutput? = some d.stage.terminal.snapshot.text := by
  have hstarted := (Goes.new (.new ⟨10, 4⟩ 10)).step (.call (.startCommand (some ['c']) none))
    ⟨fun output heq => (by cases heq), trivial, (by unfold Call.Fits; decide +kernel)⟩
  have hpolled := (hstarted.step (.change fun t => t.write [0x78]) trivial).step .poll trivial
  have hdone := hpolled.step .next (by unfold Step.Allowed Call.Fits; decide +kernel)
  refine (Goes.shows_screen_iff hdone (by decide +kernel) (by decide +kernel) (by decide +kernel)
    (by decide +kernel) (by decide +kernel) (by decide +kernel) ?_).mpr ?_
  · exact ⟨terminal_handleNext _, .inr
      ⟨⟨terminal_handleNext _, .inl (Account.polled_after_poll _ _)⟩, by decide +kernel⟩⟩
  · refine (Account.caughtUp_after (s := .next) (by decide +kernel) not_false).mpr ?_
    rw [Account.after, if_neg (by decide +kernel)]
    exact .inr (by unfold Step.Broadcasts; decide +kernel)

-- The recorder wrote more than was polled when it took up recording again. When that is undone, the
-- screen shows what was broadcast last, and the next poll is silent.
theorem Goes.falls_behind : ∃ d a, Goes d a ∧ d.recorder.state = .running ∧
    d.recorder.viewport.disposed = false ∧ d.Listens ∧ d.stage.terminal.disposed = false ∧
    d.stage.terminal.isAlternate = false ∧ d.recorder.epoch = some d.stage.terminal.epoch ∧
    a.emptied ∧ d.shownOutput? = some ['x', 'y'] ∧ d.stage.terminal.snapshot.text = ['x'] := by
  have hstarted := (Goes.new (.new ⟨10, 4⟩ 10)).step (.call (.startCommand (some ['c']) none))
    ⟨fun output heq => (by cases heq), trivial, (by unfold Call.Fits; decide +kernel)⟩
  have hshown := ((hstarted.step (.change fun t => t.write [0x78]) trivial).step .poll trivial).step
    .next (by unfold Step.Allowed Call.Fits; decide +kernel)
  have hsuspended := (hshown.step (.change fun t => t.write [0x79]) trivial).step
    (.call (.changeAlternate true))
    ⟨fun output heq => (by cases heq), trivial, (by unfold Call.Fits; decide +kernel)⟩
  have hresumed := hsuspended.step (.call (.changeAlternate false))
    ⟨fun output heq => (by cases heq), trivial, (by unfold Call.Fits; decide +kernel)⟩
  have hdone := (hresumed.step (.change fun t => t.write [0x08, 0x1B, 0x5B, 0x4B]) trivial).step
    .poll trivial
  refine ⟨_, _, hdone, by decide +kernel, by decide +kernel, by decide +kernel, by decide +kernel,
    by decide +kernel, by decide +kernel, ?_, by decide +kernel, by decide +kernel⟩
  exact ⟨terminal_poll _, .inr ⟨Account.polled_after_poll _ _, by decide +kernel⟩⟩

end Desk

end ShellTranscript
