import Mathlib.Tactic.Common
import ShellTranscript.Proofs.Recorder.Coherence
import ShellTranscript.Proofs.Recorder.Ownership
import ShellTranscript.Proofs.Studio.Lifecycle

-- Where output comes from. A reader resets the terminal before every start and after every finish, so
-- that the epoch of a snapshot tells which command the terminal showed when it was taken. However
-- long snapshots wait, and whenever the recorder looks at the terminal itself, the block of a command
-- shows nothing but what was taken between the two resets of that command.
namespace ShellTranscript

open Text Transcript

namespace Move

def isStart : Move → Bool
  | tell (.started _ _) => true
  | _ => false

-- What the moves tell of starts, when the terminal is in this epoch at first.
def starts (epoch : Nat) : List Move → List Event
  | [] => []
  | move :: moves =>
    match move with
    | reset => starts (epoch + 1) moves
    | tell (.started command prompt) => .commandStarted command prompt epoch :: starts epoch moves
    | _ => starts epoch moves

-- A start with this number, counted from zero, was told right after a reset at this place.
structure Began (moves : List Move) (title : Title) (place : Nat) : Prop where
  reset : moves[place]? = some .reset
  told : ∃ command prompt, moves[place + 1]? = some (.tell (.started command prompt)) ∧
    title.command = notEmpty command ∧ title.prompt = notEmpty prompt
  number : (moves.take place).countP isStart = title.number

-- After one reset and before any other.
structure During (moves : List Move) (start place : Nat) : Prop where
  later : start < place
  alone : ∀ between, start < between → between < place → moves[between]? ≠ some .reset

section Resets

variable {moves more : List Move} {epoch start place : Nat} {title : Title}

theorem starts_append (epoch : Nat) (moves more : List Move) :
    starts epoch (moves ++ more) =
      starts epoch moves ++ starts (epoch + moves.count .reset) more := by
  induction moves generalizing epoch with
  | nil => rfl
  | cons move moves ih =>
    cases move with
    | reset =>
      simp only [List.cons_append, starts, ih, List.count_cons_self]
      rw [Nat.add_assoc, Nat.add_comm 1]
    | tell happening => cases happening <;> simp [starts, ih]
    | _ => simp [starts, ih]

theorem Began.append (h : Began moves title place) (more : List Move) :
    Began (moves ++ more) title place := by
  obtain ⟨command, prompt, htold, hcommand, hprompt⟩ := h.told
  have hplace := (List.getElem?_eq_some_iff.mp h.reset).1
  have hnext := (List.getElem?_eq_some_iff.mp htold).1
  refine ⟨?_, ⟨command, prompt, ?_, hcommand, hprompt⟩, ?_⟩
  · rw [List.getElem?_append_left hplace, h.reset]
  · rw [List.getElem?_append_left hnext, htold]
  · rw [List.take_append_of_le_length (Nat.le_of_lt hplace), h.number]

theorem During.append (h : During moves start place) (hplace : place ≤ moves.length)
    (more : List Move) : During (moves ++ more) start place := by
  refine ⟨h.later, fun between hafter hbefore => ?_⟩
  rw [List.getElem?_append_left (by omega)]
  exact h.alone between hafter hbefore

theorem count_take_succ (h : moves[place]? = some .reset) :
    (moves.take (place + 1)).count .reset = (moves.take place).count .reset + 1 := by
  rw [List.take_add_one, h, List.count_append]
  rfl

theorem count_take_mono (moves : List Move) {earlier later : Nat} (h : earlier ≤ later) :
    (moves.take earlier).count .reset ≤ (moves.take later).count .reset :=
  (List.take_prefix_take_left h).sublist.count_le _

-- Between two resets their number tells the place.
theorem during_of_count (hreset : moves[start]? = some .reset)
    (hcount : (moves.take place).count .reset = (moves.take (start + 1)).count .reset) :
    During moves start place := by
  have hstart := count_take_succ hreset
  refine ⟨?_, fun between hafter hbefore hother => ?_⟩
  · by_contra hle
    have hearlier := count_take_mono moves (Nat.le_of_not_lt hle)
    omega
  · have hlater := count_take_mono moves (show start + 1 ≤ between from hafter)
    have hbetween := count_take_succ hother
    have hlast := count_take_mono moves (show between + 1 ≤ place from hbefore)
    omega

theorem length_starts (epoch : Nat) (moves : List Move) :
    (starts epoch moves).length = moves.countP isStart := by
  induction moves generalizing epoch with
  | nil => rfl
  | cons move moves ih =>
    rw [List.countP_cons]
    cases move with
    | tell happening => cases happening <;> simp [starts, isStart, ih]
    | _ => simp [starts, isStart, ih]

-- What is known of a start that was told, by its number.
theorem exists_told_of_starts {number : Nat} {command prompt : Option Text} {started : Nat}
    (h : (starts epoch moves)[number]? = some (.commandStarted command prompt started)) :
    ∃ place, moves[place]? = some (.tell (.started command prompt)) ∧
      (moves.take place).countP isStart = number ∧
      started = epoch + (moves.take place).count .reset := by
  induction moves using List.reverseRecOn with
  | nil => cases h
  | append_singleton front move ih =>
    rw [starts_append, List.getElem?_append, length_starts] at h
    split at h
    · obtain ⟨place, htold, hnumber, hstarted⟩ := ih h
      have hplace := (List.getElem?_eq_some_iff.mp htold).1
      have htake : (front ++ [move]).take place = front.take place :=
        List.take_append_of_le_length (Nat.le_of_lt hplace)
      refine ⟨place, ?_, ?_, ?_⟩
      · rw [List.getElem?_append_left hplace, htold]
      · rw [htake, hnumber]
      · rw [htake, hstarted]
    · -- The last move is the start.
      rename_i hlast
      refine ⟨front.length, ?_⟩
      rw [List.getElem?_concat_length, List.take_left]
      cases move with
      | tell happening =>
        cases happening with
        | started command' prompt' =>
          rw [starts, starts, List.getElem?_singleton] at h
          split at h
          · rename_i hnumber
            cases h
            exact ⟨rfl, by omega, rfl⟩
          · cases h
        | _ => cases h
      | _ => cases h

theorem exists_began_of_starts (hresets : StartsReset moves) {number : Nat}
    {command prompt : Option Text} {started : Nat}
    (h : (starts epoch moves)[number]? = some (.commandStarted command prompt started)) :
    ∃ place, Began moves ⟨number, notEmpty command, notEmpty prompt⟩ place ∧
      started = epoch + (moves.take (place + 1)).count .reset := by
  obtain ⟨next, htold, hnumber, hstarted⟩ := exists_told_of_starts h
  obtain ⟨place, rfl, hreset⟩ := hresets next command prompt htold
  refine ⟨place, ⟨hreset, ⟨command, prompt, htold, rfl, rfl⟩, ?_⟩, hstarted⟩
  rw [List.take_add_one, hreset, List.countP_append] at hnumber
  exact hnumber

end Resets

end Move

-- A snapshot, and after how many moves it was taken.
structure Shot where
  place : Nat
  output : Snapshot

def shotsAt (moves : List Move) (output : Option Snapshot) : List Shot :=
  output.toList.map (Shot.mk moves.length)

namespace Desk

-- What the recorder sees of the terminal when it comes to the next task.
def glimpse? (d : Desk) : Option Snapshot :=
  if d.nextEvent?.any d.glances then some d.stage.terminal.snapshot else none

-- The runs from a desk, with the moves that were made and the snapshots that were taken. A finish is
-- told with a snapshot, a poll broadcasts one, and the recorder looks for itself. The shell may end
-- and callbacks may wait, and the terminal may be resized, though not reset, by others.
inductive Films (d₀ : Desk) : List Move → List Shot → Desk → Prop where
  | start : Films d₀ [] [] d₀
  | move {d : Desk} {done : List Move} {taken : List Shot} (move : Move) : Films d₀ done taken d →
      Films d₀ (done ++ [move])
        (taken ++ shotsAt done ((move.event? d.stage.terminal).bind Event.snapshot?)) (d.perform move)
  | poll {d : Desk} {done : List Move} {taken : List Shot} : Films d₀ done taken d →
      Films d₀ done (taken ++ shotsAt done (d.stage.sampler.sample d.stage.terminal)) d.poll
  | next {d : Desk} {done : List Move} {taken : List Shot} : Films d₀ done taken d →
      (∀ e ∈ d.nextEvent?, (Call.handle e).Fits d) →
      Films d₀ done (taken ++ shotsAt done d.glimpse?) d.handleNext
  | post {d : Desk} {done : List Move} {taken : List Shot} (task : Task) : Films d₀ done taken d →
      (∀ e, task = .event e → e = .terminated) →
      Films d₀ done taken ((Step.post task).play d)
  | meanwhile {d : Desk} {done : List Move} {taken : List Shot} (terminal : Terminal) :
      Films d₀ done taken d → terminal.epoch = d.stage.terminal.epoch →
      Films d₀ done taken { d with stage := { d.stage with terminal } }

-- What a block may show: nothing, or a beginning of what was taken while its command had the terminal.
def Shown (done : List Move) (taken : List Shot) (title : Title) (output : Text) : Prop :=
  ∃ start, Move.Began done title start ∧
    (output = [] ∨ ∃ shot ∈ taken, Move.During done start shot.place ∧ output <+: shot.output.text)

-- The epoch that a command has the terminal in.
def Awaited (first : Nat) (done : List Move) (title : Title) (epoch : Nat) : Prop :=
  ∃ start, Move.Began done title start ∧ epoch = first + (done.take (start + 1)).count .reset

-- A snapshot was taken, and its epoch tells when.
structure Dated (first : Nat) (done : List Move) (shot : Shot) : Prop where
  place : shot.place ≤ done.length
  epoch : shot.output.epoch = first + (done.take shot.place).count .reset

structure Traced (first : Nat) (done : List Move) (taken : List Shot) (d : Desk) : Prop where
  epoch : d.stage.terminal.epoch = first + done.count .reset
  dated : ∀ shot ∈ taken, Dated first done shot
  isOpen : d.stage.mailbox.isClosed = false
  tasks : ∀ e, .event e ∈ d.stage.mailbox.tasks → e ≠ .disposed ∧
    ∀ output, e.snapshot? = some output → ∃ shot ∈ taken, shot.output = output
  starts : ∃ heard, Move.starts first done = heard ++ d.pending.filter Event.isStart ∧
    heard.length = d.recorder.transcript.nextId
  shaped : d.Shaped
  coherent : ∃ returned, d.Coherent returned
  seen : d.recorder.viewport.disposed = false
  owned : d.Owned (Shown done taken) (Awaited first done)

section Provenance

variable {first : Nat} {done more : List Move} {taken : List Shot} {d : Desk} {output : Snapshot}
  {title : Title}

theorem Shown.cut {output part : Text} (h : Shown done taken title output) (hpart : part <+: output) :
    Shown done taken title part := by
  obtain ⟨start, hbegan, rfl | ⟨shot, hshot, hduring, hprefix⟩⟩ := h
  · exact ⟨start, hbegan, .inl (List.prefix_nil.mp hpart)⟩
  · exact ⟨start, hbegan, .inr ⟨shot, hshot, hduring, hpart.trans hprefix⟩⟩

theorem Shown.film {output : Text} (h : Shown done taken title output) (shots : List Shot) :
    Shown done (taken ++ shots) title output := by
  obtain ⟨start, hbegan, hnone | ⟨shot, hshot, hduring⟩⟩ := h
  · exact ⟨start, hbegan, .inl hnone⟩
  · exact ⟨start, hbegan, .inr ⟨shot, List.mem_append_left _ hshot, hduring⟩⟩

theorem Shown.move {output : Text} (h : Shown done taken title output)
    (hdated : ∀ shot ∈ taken, Dated first done shot) (more : List Move) :
    Shown (done ++ more) taken title output := by
  obtain ⟨start, hbegan, hnone | ⟨shot, hshot, hduring, hprefix⟩⟩ := h
  · exact ⟨start, hbegan.append more, .inl hnone⟩
  · exact ⟨start, hbegan.append more,
      .inr ⟨shot, hshot, hduring.append (hdated shot hshot).place more, hprefix⟩⟩

theorem Awaited.move {epoch : Nat} (h : Awaited first done title epoch) (more : List Move) :
    Awaited first (done ++ more) title epoch := by
  obtain ⟨start, hbegan, hepoch⟩ := h
  have hstart := (List.getElem?_eq_some_iff.mp hbegan.reset).1
  exact ⟨start, hbegan.append more, by rw [List.take_append_of_le_length hstart, hepoch]⟩

theorem Dated.move {shot : Shot} (h : Dated first done shot) (more : List Move) :
    Dated first (done ++ more) shot :=
  ⟨Nat.le_trans h.place (by simp), by rw [List.take_append_of_le_length h.place, h.epoch]⟩

-- A snapshot of the epoch of a command was taken while the command had the terminal.
theorem Dated.authentic {shot : Shot} (h : Dated first done shot) (hshot : shot ∈ taken) :
    Authentic (Shown done taken) (Awaited first done) shot.output := by
  intro title ⟨start, hbegan, hepoch⟩
  have hcount := h.epoch.symm.trans hepoch
  exact ⟨start, hbegan, .inr ⟨shot, hshot, Move.during_of_count hbegan.reset (by omega),
    List.prefix_refl _⟩⟩

namespace Traced

theorem film (h : d.Traced first done taken) {output : Option Snapshot}
    (hepoch : ∀ shown ∈ output, shown.epoch = d.stage.terminal.epoch) :
    d.Traced first done (taken ++ shotsAt done output) := by
  refine ⟨h.epoch, fun shot hshot => ?_, h.isOpen, fun e he => ?_, h.starts, h.shaped, h.coherent,
    h.seen, h.owned.mono (fun _ _ hshown => hshown.film _) fun _ _ => id⟩
  · rcases List.mem_append.mp hshot with hshot | hshot
    · exact h.dated shot hshot
    · obtain ⟨shown, hshown, rfl⟩ := List.mem_map.mp hshot
      refine ⟨Nat.le_refl _, ?_⟩
      rw [List.take_length, ← h.epoch]
      exact hepoch shown (Option.mem_toList.mp hshown)
  · obtain ⟨hseen, hbrought⟩ := h.tasks e he
    refine ⟨hseen, fun output houtput => ?_⟩
    obtain ⟨shot, hshot, hsame⟩ := hbrought output houtput
    exact ⟨shot, List.mem_append_left _ hshot, hsame⟩

-- As long as the recorder and its listeners are left alone, only the terminal and the mailbox matter.
theorem restage (h : d.Traced first done taken) {stage : Stage} (more : List Move)
    (added : List Task) (hlisteners : stage.sampler.listeners = d.stage.sampler.listeners)
    (hepoch : stage.terminal.epoch = d.stage.terminal.epoch + more.count .reset)
    (hmailbox : stage.mailbox = { d.stage.mailbox with tasks := d.stage.mailbox.tasks ++ added })
    (hadded : ∀ e, .event e ∈ added → e ≠ .disposed ∧
      ∀ output, e.snapshot? = some output → ∃ shot ∈ taken, shot.output = output)
    (hstarts : Move.starts d.stage.terminal.epoch more =
      (added.filterMap Task.told?).filter Event.isStart) :
    Traced first (done ++ more) taken { d with stage } := by
  obtain ⟨heard, htold, hheard⟩ := h.starts
  obtain ⟨returned, hcoherent⟩ := h.coherent
  have haround := d.around_stage stage
  refine ⟨?_, fun shot hshot => (h.dated shot hshot).move more, ?_, fun e he => ?_,
    ⟨heard, ?_, hheard⟩, h.shaped.of_around haround,
    ⟨returned, hcoherent.of_same ⟨.refl _, rfl, rfl, rfl⟩ ⟨hlisteners, rfl, rfl, rfl⟩⟩, h.seen,
    (h.owned.mono (fun _ _ hshown => hshown.move h.dated more) fun _ _ hawaited =>
      hawaited.move more).of_still haround.still⟩
  · rw [hepoch, h.epoch, List.count_append, Nat.add_assoc]
  · rw [hmailbox]
    exact h.isOpen
  · rw [hmailbox] at he
    exact (List.mem_append.mp he).elim (h.tasks e) (hadded e)
  · have hpending : pending { d with stage } = d.pending ++ added.filterMap Task.told? := by
      rw [pending, hmailbox, List.filterMap_append]
      rfl
    rw [Move.starts_append, ← h.epoch, hstarts, htold, hpending, List.filter_append,
      List.append_assoc]

theorem perform (h : d.Traced first done taken) (move : Move)
    (htaken : ∀ output ∈ (move.event? d.stage.terminal).bind Event.snapshot?,
      ∃ shot ∈ taken, shot.output = output) :
    (d.perform move).Traced first (done ++ [move]) taken := by
  refine h.restage [move] ((move.event? d.stage.terminal).toList.map .event) rfl
    (Move.epoch_terminalAfter d.stage.terminal [move]) ?_ ?_ ?_
  · simp only [Stage.perform]
    cases move.event? d.stage.terminal with
    | none => simp
    | some e => exact Mailbox.postEvent_eq h.isOpen e
  · intro e he
    have hevent : move.event? d.stage.terminal = some e := by simpa using he
    refine ⟨?_, fun output houtput => htaken output ?_⟩
    · cases move with
      | tell happening => cases happening <;> cases hevent <;> exact Event.noConfusion
      | _ => cases hevent
    · rw [hevent]
      exact houtput
  · cases move with
    | tell happening => cases happening <;> rfl
    | _ => rfl

theorem poll (h : d.Traced first done taken)
    (htaken : ∀ output ∈ d.stage.sampler.sample d.stage.terminal, ∃ shot ∈ taken,
      shot.output = output) : d.poll.Traced first done taken := by
  cases hsample : d.stage.sampler.sample d.stage.terminal with
  | none =>
    rw [poll_of_no_sample hsample]
    exact h
  | some output =>
    obtain ⟨shot, hshot, rfl⟩ := htaken output hsample
    rw [← List.append_nil done, poll_of_sample h.isOpen hsample]
    refine h.restage [] (List.replicate d.stage.sampler.listeners.members.length
      (.event (.outputChanged d.stage.terminal.snapshot))) rfl rfl ?_ ?_ ?_
    · simp only [Mailbox.postAll, List.map_replicate]
    · intro e he
      obtain rfl := Task.event.inj (List.mem_replicate.mp he).2
      refine ⟨Event.noConfusion, fun output houtput => ⟨shot, hshot, ?_⟩⟩
      rw [← Option.some.inj houtput, Sampler.eq_snapshot_of_sample hsample]
    · rw [List.filterMap_replicate]
      rfl

theorem post (h : d.Traced first done taken) {task : Task}
    (htask : ∀ e, task = .event e → e = .terminated) :
    ((Step.post task).play d).Traced first done taken := by
  rw [← List.append_nil done]
  refine h.restage [] [task] rfl rfl ?_ ?_ ?_
  · simp only [Mailbox.post, h.isOpen, Bool.false_eq_true, if_false]
  · intro e he
    obtain rfl := htask e (List.mem_singleton.mp he).symm
    exact ⟨Event.noConfusion, fun output houtput => by cases houtput⟩
  · cases task with
    | invoke label => rfl
    | event e =>
      obtain rfl := htask e rfl
      rfl

-- A recorder that is idle has no open block, since the view is there.
theorem ready (h : d.Traced first done taken) (hidle : d.recorder.state = .idle) : d.Resting := by
  obtain ⟨returned, hcoherent⟩ := h.coherent
  rcases h.shaped with hresting | ⟨before, prompt, command, output, closed, b, hrecording⟩
  · exact hresting
  · have hactive : d.activeId? ≠ none := by
      rw [hrecording.activeId?]
      exact Option.some_ne_none b.id
    rcases hcoherent.watched hactive with hbusy | hgone
    · exact absurd hidle hbusy
    · cases h.seen.symm.trans hgone

-- The next start that is told is that of the next block.
theorem admits (h : d.Traced first done taken) (hresets : Move.StartsReset done) {e : Event}
    {rest : List Task} (htasks : d.stage.mailbox.tasks = .event e :: rest)
    (htaken : ∀ output ∈ d.glimpse?, ∃ shot ∈ taken, shot.output = output) :
    (d.withMailbox { d.stage.mailbox with tasks := rest }).Admits (Shown done taken)
      (Awaited first done) e := by
  have hauthentic : ∀ output, (∃ shot ∈ taken, shot.output = output) →
      Authentic (Shown done taken) (Awaited first done) output := by
    rintro output ⟨shot, hshot, rfl⟩
    exact (h.dated shot hshot).authentic hshot
  refine ⟨fun output hbrings => ?_, fun hglance => ?_, ?_⟩
  · exact hauthentic output ((h.tasks e (htasks ▸ List.mem_cons_self)).2 output hbrings)
  · have hlooks : d.glances e = true := hglance
    refine hauthentic d.stage.terminal.snapshot (htaken _ ?_)
    rw [glimpse?, Option.mem_def.mp (mem_nextEvent? htasks), Option.any_some, if_pos hlooks]
    rfl
  · rintro command prompt epoch rfl
    obtain ⟨heard, htold, hheard⟩ := h.starts
    rw [pending_handleNext htasks] at htold
    have hturn : (Move.starts first done)[heard.length]? =
        some (.commandStarted command prompt epoch) := by
      rw [htold, List.getElem?_append_right (Nat.le_refl _), Nat.sub_self]
      rfl
    obtain ⟨place, hbegan, hepoch⟩ := Move.exists_began_of_starts hresets hturn
    rw [hheard] at hbegan
    exact ⟨⟨place, hbegan, .inl rfl⟩, ⟨place, hbegan, hepoch⟩⟩

-- What the next task leaves in the mailbox is what was behind it.
theorem handled (h : d.Traced first done taken) {task : Task} {rest : List Task}
    (htasks : d.stage.mailbox.tasks = task :: rest) (hshaped : d.handleNext.Shaped)
    (hseen : d.handleNext.recorder.viewport.disposed = false)
    (howned : d.handleNext.Owned (Shown done taken) (Awaited first done))
    (hnumber : d.handleNext.recorder.transcript.nextId =
      d.recorder.transcript.nextId + (task.told?.toList.filter Event.isStart).length) :
    d.handleNext.Traced first done taken := by
  have hbox := mailbox_handleNext htasks
  obtain ⟨returned, hcoherent⟩ := h.coherent
  obtain ⟨heard, htold, hheard⟩ := h.starts
  rw [pending_handleNext htasks, List.filter_append, ← List.append_assoc] at htold
  refine ⟨?_, h.dated, ?_, fun e he => ?_, ⟨_, htold, ?_⟩, hshaped, ?_, hseen, howned⟩
  · rw [terminal_handleNext, h.epoch]
  · rw [hbox]
    exact h.isOpen
  · rw [hbox] at he
    exact h.tasks e (htasks ▸ List.mem_cons_of_mem task he)
  · rw [List.length_append, hheard, hnumber]
  · exact (hcoherent.play .next).elim (fun h => ⟨_, h⟩) fun ⟨_, _, h⟩ => ⟨_, h⟩

theorem handleNext (h : d.Traced first done taken) (hresets : Move.StartsReset done)
    (hfits : ∀ e ∈ d.nextEvent?, (Call.handle e).Fits d)
    (htaken : ∀ output ∈ d.glimpse?, ∃ shot ∈ taken, shot.output = output) :
    d.handleNext.Traced first done taken := by
  rcases handleNext_cases d with ⟨hsame, -⟩ | ⟨task, rest, htasks, hnext⟩
  · rw [hsame]
    exact h
  · have hread : d.Around (d.withMailbox { d.stage.mailbox with tasks := rest }) := d.around_stage _
    have hshaped := h.shaped.of_around hread
    have howned := h.owned.of_still hread.still
    cases task with
    | invoke label =>
      have hback := backstage_note (d.withMailbox { d.stage.mailbox with tasks := rest }) (.ran label)
      refine h.handled htasks ?_ ?_ ?_ ?_ <;> rw [hnext]
      · exact hshaped.of_backstage hback
      · exact h.seen
      · exact howned.of_still hback.still
      · rfl
    | event e =>
      have hfits := hfits e (mem_nextEvent? htasks)
      obtain ⟨howned', hnumber⟩ := howned.handle hshaped (fun hidle => (h.ready hidle).congr
        hread.record hread.state hread.caret) hfits (fun _ _ _ => Shown.cut)
          (h.admits hresets htasks htaken)
      refine h.handled htasks ?_ ?_ ?_ ?_ <;> rw [hnext]
      · exact (hshaped.through_call (.handle e) hfits).shaped hshaped
      · have hkept := (h.tasks e (htasks ▸ List.mem_cons_self)).1
        exact (disposed_handle _ hkept).trans h.seen
      · exact howned'
      · refine hnumber.trans ?_
        cases e <;> rfl

end Traced

-- A reader that nobody comes between.
theorem Films.moves {d₀ : Desk} (h : Films d₀ done taken d) (more : List Move) :
    ∃ taken', Films d₀ (done ++ more) taken' (more.foldl Desk.perform d) := by
  induction more generalizing done taken d with
  | nil => exact ⟨taken, by rwa [List.append_nil]⟩
  | cons move more ih =>
    obtain ⟨taken', hmoves⟩ := ih (h.move move)
    rw [List.append_assoc] at hmoves
    exact ⟨taken', hmoves⟩

theorem traced_new (terminal : Terminal) :
    Traced terminal.epoch [] [] { stage := { terminal } } :=
  ⟨rfl, fun _ hshot => (List.not_mem_nil hshot).elim, rfl, fun _ he => (List.not_mem_nil he).elim,
    ⟨[], rfl, rfl⟩, (resting_new _).shaped, ⟨[], (Operated.new terminal).coherent⟩, rfl, owned_new _⟩

theorem mem_shotsAt {output : Option Snapshot} {shown : Snapshot} (h : shown ∈ output) :
    ∃ shot ∈ taken ++ shotsAt done output, shot.output = shown :=
  ⟨⟨done.length, shown⟩, List.mem_append_right _ (List.mem_map_of_mem (Option.mem_toList.mpr h)),
    rfl⟩

theorem Films.traced {terminal : Terminal} (h : Films { stage := { terminal } } done taken d)
    (hresets : Move.StartsReset done) : d.Traced terminal.epoch done taken := by
  induction h with
  | start => exact traced_new terminal
  | @move d done taken move _ ih =>
    have hbefore := ih (Reading.startsReset_of_prefix hresets (List.prefix_append done [move]))
    refine (hbefore.film fun shown hshown => ?_).perform move fun _ => mem_shotsAt
    cases move with
    | tell happening =>
      cases happening with
      | finished exitCode =>
        cases hshown
        rfl
      | _ => cases hshown
    | _ => cases hshown
  | poll _ ih =>
    refine ((ih hresets).film fun shown hshown => ?_).poll fun _ => mem_shotsAt
    rw [Sampler.eq_snapshot_of_sample hshown]
    rfl
  | @next d done taken _ hfits ih =>
    refine ((ih hresets).film fun shown hshown => ?_).handleNext hresets hfits fun _ => mem_shotsAt
    unfold glimpse? at hshown
    split at hshown
    · cases hshown
      rfl
    · cases hshown
  | post task _ htask ih => exact (ih hresets).post htask
  | @meanwhile d done taken terminal' _ hepoch ih =>
    rw [← List.append_nil done]
    exact (ih hresets).restage [] [] rfl hepoch (by rw [List.append_nil])
      (fun _ he => (List.not_mem_nil he).elim) rfl

end Provenance

end Desk

namespace Studio

-- However the moves of a reader, the polls and the tasks follow each other, each block shows nothing or
-- a beginning of what was taken after the reset that its command started with and before any other.
theorem output_of_own_command {settings : Settings} {session : Session}
    (hnew : Session.new true settings = .ok session) {reading : Reading} {moves : List Move}
    (hmakes : session.reading.Makes moves reading) {done : List Move} (hdone : done <+: moves)
    {taken : List Shot} {d : Desk} (hfilms : (new (session.start {}).1).desk.Films done taken d) :
    ∀ b ∈ d.recorder.transcript.blocks, ∃ output,
      d.recorder.transcript.document.slice? b.outputStart b.stop = some output ∧
      ∃ start, Move.Began done b.title start ∧ (output = [] ∨
        ∃ shot ∈ taken, Move.During done start shot.place ∧ output <+: shot.output.text) := by
  rw [desk_new hnew] at hfilms
  exact (hfilms.traced (Reading.startsReset_of_prefix hmakes.startsReset hdone)).owned.shows

-- Two commands with some output each.
def twoCommands : List (List UInt8) :=
  [Utf8.encode "\x1B]133;C\x07a".toList, Utf8.encode "\x1B]133;D;1\x07".toList,
    Utf8.encode "\x1B]133;C\x07b".toList]

-- When the recorder comes to the first start, the terminal shows the second command. None of that gets
-- into the block of the first.
theorem output_of_twoCommands : ∃ taken d,
    (new (smallSession.start {}).1).desk.Films (smallSession.reading.movesAll twoCommands) taken d ∧
      (d.recorder.transcript.blocks.map fun b =>
        (b.title, d.recorder.transcript.document.slice? b.outputStart b.stop)) =
          [(⟨0, none, none⟩, some ['a']), (⟨1, none, none⟩, some ['b'])] ∧
      ∀ b ∈ d.recorder.transcript.blocks, ∃ output,
        d.recorder.transcript.document.slice? b.outputStart b.stop = some output ∧
        ∃ start, Move.Began (smallSession.reading.movesAll twoCommands) b.title start ∧
          (output = [] ∨ ∃ shot ∈ taken,
            Move.During (smallSession.reading.movesAll twoCommands) start shot.place ∧
              output <+: shot.output.text) := by
  have hstart : (new (smallSession.start {}).1).desk.Films [] [] (new (smallSession.start {}).1).desk :=
    .start
  obtain ⟨taken, hmoves⟩ := hstart.moves (smallSession.reading.movesAll twoCommands)
  rw [List.nil_append] at hmoves
  have hheard := ((hmoves.next (by unfold Call.Fits; decide +kernel)).next
    (by unfold Call.Fits; decide +kernel)).next (by unfold Call.Fits; decide +kernel)
  refine ⟨_, _, hheard, by decide +kernel, ?_⟩
  exact @output_of_own_command { columns := 4, rows := 2, scrollback := 0 } smallSession rfl _ _
    (smallSession.reading.makes_movesAll twoCommands) _ (List.prefix_refl _) _ _ hheard

end Studio

end ShellTranscript
