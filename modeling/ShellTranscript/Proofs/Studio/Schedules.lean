import Mathlib.Tactic.Common
import ShellTranscript.Proofs.Recorder.Course
import ShellTranscript.Proofs.Recorder.Pump
import ShellTranscript.Proofs.Session.Moves
import ShellTranscript.Studio

-- Schedules. Between the moves of a reader the terminal may be polled and the recorder may handle
-- what was posted, at any time and as often as anyone likes. When everything has been handled, the
-- text is the same for all schedules, as long as every command finishes on the main screen.
namespace ShellTranscript

open Text Transcript

-- What a task tells of commands and screens. Snapshots are shown, not told.
def Task.told? : Task → Option Event
  | .event (.outputChanged _) => none
  | .event e => some e
  | .invoke _ => none

theorem Task.eq_event_of_told? {task : Task} {e : Event} (h : task.told? = some e) :
    task = .event e := by
  cases task with
  | invoke label => cases h
  | event e' =>
    cases e' with
    | outputChanged output => cases h
    | _ => exact congrArg Task.event (Option.some.inj h)

theorem Move.told?_of_event? {t : Terminal} {move : Move} {e : Event} (h : move.event? t = some e) :
    Task.told? (.event e) = some e := by
  cases move with
  | tell happening =>
    obtain rfl := Option.some.inj h
    cases happening <;> rfl
  | _ => cases h

namespace Desk

def perform (d : Desk) (move : Move) : Desk := { d with stage := d.stage.perform move }

-- From one desk to another by these moves, with polls and tasks in between.
inductive Plays : Desk → List Move → Desk → Prop where
  | done (d : Desk) : Plays d [] d
  | move {d d' : Desk} {move : Move} {moves : List Move} :
      Plays (d.perform move) moves d' → Plays d (move :: moves) d'
  | poll {d d' : Desk} {moves : List Move} : Plays d.poll moves d' → Plays d moves d'
  | next {d d' : Desk} {moves : List Move} : (∀ e ∈ d.nextEvent?, (Call.handle e).Fits d) →
      Plays d.handleNext moves d' → Plays d moves d'

-- What the recorder is yet to be told.
def pending (d : Desk) : List Event := d.stage.mailbox.tasks.filterMap Task.told?

-- A poll only shows what is there.
theorem pending_poll {d : Desk} (hopen : d.stage.mailbox.isClosed = false) :
    d.poll.pending = d.pending := by
  cases hsample : d.stage.sampler.sample d.stage.terminal with
  | none => rw [poll_of_no_sample hsample]
  | some output =>
    rw [poll_of_sample hopen hsample]
    simp only [pending, Mailbox.postAll, List.map_replicate, List.filterMap_append,
      List.filterMap_replicate, Task.told?, List.append_nil]

theorem pending_handleNext {d : Desk} {task : Task} {rest : List Task}
    (htasks : d.stage.mailbox.tasks = task :: rest) :
    d.pending = task.told?.toList ++ d.handleNext.pending := by
  have hleft : d.handleNext.pending = rest.filterMap Task.told? := by
    rw [pending, mailbox_handleNext htasks]
  rw [hleft, pending, htasks, List.filterMap_cons]
  cases task.told? <;> rfl

structure Abreast (d : Desk) (course : Course) : Prop where
  at_course : d.At course
  isOpen : d.stage.mailbox.isClosed = false
  inside : ∀ output, .event (.outputChanged output) ∈ d.stage.mailbox.tasks → output.RangesInside

section Schedules

variable {d d' : Desk} {course : Course} {moves : List Move}

theorem Abreast.perform (h : d.Abreast course) (move : Move) :
    (d.perform move).Abreast course ∧
      (d.perform move).pending = d.pending ++ (move.event? d.stage.terminal).toList := by
  have hat : (d.perform move).At course := h.at_course.of_around (d.around_stage _)
  cases hevent : move.event? d.stage.terminal with
  | none =>
    have hbox : (d.perform move).stage.mailbox = d.stage.mailbox := by
      simp only [Desk.perform, Stage.perform, hevent, Option.elim_none]
    refine ⟨⟨hat, ?_, ?_⟩, ?_⟩
    · rw [hbox]
      exact h.isOpen
    · rw [hbox]
      exact h.inside
    · rw [pending, hbox]
      exact (List.append_nil _).symm
  | some e =>
    have htold := Move.told?_of_event? hevent
    have hbox : (d.perform move).stage.mailbox = d.stage.mailbox.postAll [e] := by
      simp only [Desk.perform, Stage.perform, hevent, Option.elim_some,
        Mailbox.postEvent_eq h.isOpen]
    refine ⟨⟨hat, ?_, ?_⟩, ?_⟩
    · rw [hbox]
      exact h.isOpen
    · intro output hmem
      rw [hbox] at hmem
      rcases List.mem_append.mp hmem with hmem | hmem
      · exact h.inside output hmem
      · rw [← List.mem_singleton.mp hmem] at htold
        cases htold
    · rw [pending, hbox]
      simp [Mailbox.postAll, pending, htold]

theorem Abreast.poll (h : d.Abreast course) :
    d.poll.Abreast course ∧ d.poll.pending = d.pending ∧
      d.poll.stage.terminal = d.stage.terminal := by
  refine ⟨?_, pending_poll h.isOpen, terminal_poll d⟩
  cases hsample : d.stage.sampler.sample d.stage.terminal with
  | none =>
    rw [poll_of_no_sample hsample]
    exact h
  | some output =>
    rw [poll_of_sample h.isOpen hsample]
    refine ⟨h.at_course.of_around (d.around_stage _), h.isOpen, fun shown hmem => ?_⟩
    simp only [Mailbox.postAll, List.map_replicate] at hmem
    rcases List.mem_append.mp hmem with hmem | hmem
    · exact h.inside shown hmem
    · have hshown := (List.mem_replicate.mp hmem).2
      simp only [Task.event.injEq, Event.outputChanged.injEq] at hshown
      rw [hshown]
      exact d.stage.terminal.snapshot_rangesInside

theorem Abreast.handleNext (h : d.Abreast course) {future : List Event}
    (hears : course.HearsAll (d.pending ++ future))
    (hfits : ∀ e ∈ d.nextEvent?, (Call.handle e).Fits d) :
    ∃ course', d.handleNext.Abreast course' ∧ d.handleNext.stage.terminal = d.stage.terminal ∧
      course'.HearsAll (d.handleNext.pending ++ future) ∧
      course'.follow (d.handleNext.pending ++ future) = course.follow (d.pending ++ future) := by
  rcases handleNext_cases d with ⟨hsame, -⟩ | ⟨task, rest, htasks, hnext⟩
  · rw [hsame]
    exact ⟨course, h, rfl, hears, rfl⟩
  · have hout := sameOutside_runTask (d.withMailbox { d.stage.mailbox with tasks := rest }) task
    rw [← hnext] at hout
    have hat : (d.withMailbox { d.stage.mailbox with tasks := rest }).At course :=
      h.at_course.of_around (d.around_stage _)
    have hkept : ∀ {course'}, d.handleNext.At course' → d.handleNext.Abreast course' := by
      intro course' hat'
      refine ⟨hat', ?_, fun output hmem => h.inside output ?_⟩
      · rw [hout.mailbox]
        exact h.isOpen
      · rw [hout.mailbox] at hmem
        rw [htasks]
        exact List.mem_cons_of_mem task hmem
    rw [pending_handleNext htasks] at hears ⊢
    cases htold : task.told? with
    | none =>
      rw [htold, Option.toList_none, List.nil_append] at hears
      rw [Option.toList_none, List.nil_append]
      refine ⟨course, hkept ?_, hout.terminal, hears, rfl⟩
      rw [hnext]
      cases task with
      | invoke label => exact hat.of_around (backstage_note _ (.ran label)).around
      | event e =>
        cases e with
        | outputChanged output =>
          refine hat.handle_interim trivial (h.inside output ?_) (hfits _ (mem_nextEvent? htasks))
          rw [htasks]
          exact List.mem_cons_self
        | _ => cases htold
    | some e =>
      obtain rfl := Task.eq_event_of_told? htold
      rw [htold] at hears
      refine ⟨course.tell e, hkept ?_, hout.terminal, hears.2, rfl⟩
      rw [hnext]
      exact hat.handle hears.1 (hfits e (mem_nextEvent? htasks))

theorem Plays.abreast (h : d.Plays moves d') (habreast : d.Abreast course)
    (hears : course.HearsAll (d.pending ++ Move.told d.stage.terminal moves)) :
    ∃ course', d'.Abreast course' ∧ course'.follow d'.pending =
      course.follow (d.pending ++ Move.told d.stage.terminal moves) := by
  induction h generalizing course with
  | done d => exact ⟨course, habreast, by rw [Move.told, List.append_nil]⟩
  | @move d d' move moves _ ih =>
    obtain ⟨hnext, hpending⟩ := habreast.perform move
    have hsame : (d.perform move).pending ++ Move.told (d.perform move).stage.terminal moves =
        d.pending ++ Move.told d.stage.terminal (move :: moves) := by
      rw [hpending, List.append_assoc]
      rfl
    rw [← hsame] at hears ⊢
    exact ih hnext hears
  | @poll d d' moves _ ih =>
    obtain ⟨hnext, hpending, hterminal⟩ := habreast.poll
    rw [← hpending, ← hterminal] at hears ⊢
    exact ih hnext hears
  | @next d d' moves hfits _ ih =>
    obtain ⟨course', hnext, hterminal, hears', hfollow⟩ := habreast.handleNext hears hfits
    rw [← hterminal] at hears' hfollow ⊢
    rw [← hfollow]
    exact ih hnext hears'

-- When everything has been handled, the recorder is where the events have led it.
theorem Plays.text_eq (h : d.Plays moves d') (habreast : d.Abreast course)
    (hears : course.HearsAll (d.pending ++ Move.told d.stage.terminal moves)) {text : Text}
    (hcourse : course.follow (d.pending ++ Move.told d.stage.terminal moves) = .between text)
    (hhandled : d'.stage.mailbox.tasks = []) :
    d'.recorder.transcript.document.text = text := by
  obtain ⟨course', habreast', hfollow⟩ := h.abreast habreast hears
  rw [pending, hhandled, hcourse] at hfollow
  have hat := habreast'.at_course
  obtain rfl : course' = .between text := hfollow
  cases hat with
  | between => rfl

end Schedules

end Desk

-- A command finishes while the main screen is shown.
def Event.endsOnMain : Event → Bool
  | .commandFinished _ output => !output.alternate
  | _ => true

def EndsOnMain (events : List Event) : Prop := ∀ e ∈ events, e.endsOnMain = true

theorem EndsOnMain.of_append {front back : List Event} (h : EndsOnMain (front ++ back)) :
    EndsOnMain front ∧ EndsOnMain back :=
  ⟨fun e hmem => h e (List.mem_append_left _ hmem), fun e hmem => h e (List.mem_append_right _ hmem)⟩

theorem EndsOnMain.alternate_eq_false {exitCode : Int} {output : Snapshot} {events : List Event}
    (h : EndsOnMain (.commandFinished exitCode output :: events)) : output.alternate = false := by
  have hfirst := h _ List.mem_cons_self
  rwa [Event.endsOnMain, Bool.not_eq_true'] at hfirst

namespace Reading

-- A reading is not ahead of what it has told.
structure OnCourse (r : Reading) (course : Course) : Prop where
  idle : r.isRunning = false → ∃ text, course = .between text
  epoch : ∀ before prompt command epoch, course = .during before prompt command epoch →
    epoch = r.terminal.epoch

-- What is told can be heard, and the reading afterwards is not ahead of it.
structure Tells (course : Course) (notices : List Notice) (r : Reading) : Prop where
  hears : course.HearsAll (notices.map Notice.event)
  onCourse : r.OnCourse (course.follow (notices.map Notice.event))

section Telling

variable {r r' : Reading} {course : Course} {notices later : List Notice}

theorem OnCourse.congr (h : r.OnCourse course) (hrunning : r'.isRunning = r.isRunning)
    (hepoch : r'.terminal.epoch = r.terminal.epoch) : r'.OnCourse course :=
  ⟨fun hidle => h.idle (hrunning ▸ hidle), fun _ _ _ _ hcourse => hepoch ▸ h.epoch _ _ _ _ hcourse⟩

theorem OnCourse.tells_nothing (h : r.OnCourse course) : Tells course [] r := ⟨trivial, h⟩

theorem Tells.append (h : Tells course notices r)
    (h' : Tells (course.follow (notices.map Notice.event)) later r') :
    Tells course (notices ++ later) r' := by
  refine ⟨?_, ?_⟩
  · rw [List.map_append]
    exact h.hears.append h'.hears
  · rw [List.map_append, Course.follow_append]
    exact h'.onCourse

-- The snapshot that a command finishes with is of the epoch that it started in.
theorem OnCourse.hears_finished (h : r.OnCourse course) (exitCode : Int)
    (hmain : r.terminal.snapshot.alternate = false) :
    course.Hears (.commandFinished exitCode r.terminal.snapshot) ∧
      ∃ text, course.tell (.commandFinished exitCode r.terminal.snapshot) = .between text := by
  cases course with
  | between text => exact ⟨.stray exitCode _, text, rfl⟩
  | during before prompt command epoch =>
    obtain rfl : epoch = r.terminal.snapshot.epoch := h.epoch _ _ _ _ rfl
    exact ⟨.finished exitCode r.terminal.snapshot_rangesInside hmain, _, rfl⟩

theorem onCourse_between (r : Reading) (text : Text) : r.OnCourse (.between text) :=
  ⟨fun _ => ⟨text, rfl⟩, fun _ _ _ _ hcourse => by cases hcourse⟩

theorem OnCourse.tells_finishCommand (h : r.OnCourse course) (exitCode : Int)
    (hmain : EndsOnMain ((r.finishCommand exitCode).2.map Notice.event)) :
    Tells course (r.finishCommand exitCode).2 (r.finishCommand exitCode).1 := by
  unfold finishCommand at hmain ⊢
  split at hmain
  · rename_i hrunning
    obtain ⟨hhears, text, htell⟩ := h.hears_finished exitCode hmain.alternate_eq_false
    rw [if_pos hrunning]
    refine ⟨⟨hhears, trivial⟩, ?_⟩
    show OnCourse _ (course.tell (.commandFinished exitCode r.terminal.snapshot))
    rw [htell]
    exact onCourse_between _ text
  · rename_i hidle
    rw [if_neg hidle]
    exact h.tells_nothing

theorem onCourse_started (r : Reading) (text : Text) (command prompt : Option Text) :
    r.started.OnCourse ((Course.between text).tell
      (.commandStarted command prompt r.started.terminal.epoch)) := by
  refine ⟨fun hidle => Bool.noConfusion hidle, ?_⟩
  intro before prompt' command' epoch hcourse
  exact (Course.during.inj hcourse).2.2.2.symm

theorem OnCourse.tells_startCommand (h : r.OnCourse course)
    (hmain : EndsOnMain (r.startCommand.2.map Notice.event)) :
    Tells course r.startCommand.2 r.startCommand.1 := by
  have hevents := r.startCommand_events
  cases hrunning : r.isRunning with
  | true =>
    rw [hrunning, if_pos rfl] at hevents
    rw [hevents] at hmain
    obtain ⟨hhears, text, htell⟩ := h.hears_finished r.brokenExit hmain.alternate_eq_false
    refine ⟨?_, ?_⟩
    · rw [hevents]
      exact ⟨hhears, htell ▸ .started _ _ _, trivial⟩
    · rw [hevents, startCommand_fst]
      show OnCourse _ ((course.tell _).tell _)
      rw [htell]
      exact r.onCourse_started text _ _
  | false =>
    obtain ⟨text, rfl⟩ := h.idle hrunning
    rw [hrunning, if_neg (by simp)] at hevents
    refine ⟨?_, ?_⟩
    · rw [hevents]
      exact ⟨.started _ _ _, trivial⟩
    · rw [hevents, startCommand_fst]
      exact r.onCourse_started text _ _

theorem OnCourse.tells_act (h : r.OnCourse course) (notice : ShellNotice)
    (hmain : EndsOnMain ((r.act notice).2.map Notice.event)) :
    Tells course (r.act notice).2 (r.act notice).1 := by
  cases notice with
  | commandExecuted => exact h.tells_startCommand hmain
  | commandFinished exitCode => exact h.tells_finishCommand exitCode hmain
  | alternateBuffer enabled =>
    have hsame : course.tell (.alternateChanged enabled) = course := by cases course <;> rfl
    refine ⟨⟨.alternate enabled, trivial⟩, ?_⟩
    show OnCourse _ (course.tell (.alternateChanged enabled))
    rw [hsame]
    exact h.congr rfl rfl
  | cleared =>
    have hcleared : course.tell .cleared = .between [] := by cases course <;> rfl
    refine ⟨⟨.cleared, trivial⟩, ?_⟩
    show OnCourse _ (course.tell .cleared)
    rw [hcleared]
    exact onCourse_between _ []
  | commandStart =>
    have hnoted : r.notePrompt.OnCourse course := h.congr rfl rfl
    exact hnoted.tells_nothing
  | _ => exact h.tells_nothing

theorem OnCourse.tells_follow (h : r.OnCourse course) (printed : Nat) (bytes : List UInt8)
    (found : List (Signal.Located ShellNotice))
    (hmain : EndsOnMain ((r.follow printed bytes found).2.map Notice.event)) :
    Tells course (r.follow printed bytes found).2 (r.follow printed bytes found).1 := by
  induction found generalizing r course printed bytes with
  | nil =>
    have hprinted : (r.print bytes).OnCourse course := h.congr rfl (r.terminal.write_epoch bytes)
    exact hprinted.tells_nothing
  | cons first rest ih =>
    obtain ⟨stop, notice⟩ := first
    simp only [follow, List.map_append] at hmain ⊢
    obtain ⟨hhere, hlater⟩ := hmain.of_append
    have hprinted : (r.print (bytes.take (stop - printed))).OnCourse course :=
      h.congr rfl (r.terminal.write_epoch _)
    have hacted := hprinted.tells_act notice hhere
    exact hacted.append (ih hacted.onCourse stop _ hlater)

theorem OnCourse.tells_read (h : r.OnCourse course) (bytes : List UInt8)
    (hmain : EndsOnMain ((r.read bytes).2.1.map Notice.event)) :
    Tells course (r.read bytes).2.1 (r.read bytes).1 := by
  have hheard : OnCourse { r with decoder := (r.decoder.feed bytes).1 } course := h.congr rfl rfl
  have hfollowed := hheard.tells_follow 0 bytes (r.decoder.feed bytes).2 hmain
  refine ⟨hfollowed.hears, hfollowed.onCourse.congr ?_ ?_⟩
  · simp only [read, reconcile]
    split <;> rfl
  · simp only [read, reconcile]
    split <;> rfl

theorem OnCourse.tells_readAll (h : r.OnCourse course) (chunks : List (List UInt8))
    (hmain : EndsOnMain ((r.readAll chunks).2.map Notice.event)) :
    Tells course (r.readAll chunks).2 (r.readAll chunks).1 := by
  induction chunks generalizing r course with
  | nil => exact h.tells_nothing
  | cons chunk chunks ih =>
    simp only [readAll, List.map_append] at hmain ⊢
    obtain ⟨hhere, hlater⟩ := hmain.of_append
    have hread := h.tells_read chunk hhere
    exact hread.append (ih hread.onCourse hlater)

end Telling

end Reading

namespace Studio

theorem desk_new {settings : Settings} {session : Session}
    (hnew : Session.new true settings = .ok session) :
    (new (session.start {}).1).desk = { stage := { terminal := session.reading.terminal } } := by
  obtain rfl := Except.ok.inj hnew
  rfl

-- A session whose commands all finish, and on the main screen, leaves one text for all schedules.
theorem same_text_for_schedules {settings : Settings} {session : Session}
    (hnew : Session.new true settings = .ok session) (chunks : List (List UInt8))
    (hfinished : (session.reading.readAll chunks).1.isRunning = false)
    (hmain : EndsOnMain ((session.reading.readAll chunks).2.map Notice.event)) :
    ∃ text, ∀ d, (new (session.start {}).1).desk.Plays (session.reading.movesAll chunks) d →
      d.stage.mailbox.tasks = [] → d.recorder.transcript.document.text = text := by
  have hfresh := session.reading.onCourse_between []
  obtain ⟨hhears, honCourse⟩ := hfresh.tells_readAll chunks hmain
  obtain ⟨text, hcourse⟩ := honCourse.idle hfinished
  rw [← (session.reading.performs_readAll chunks).told] at hhears hcourse
  have habreast : Desk.Abreast { stage := { terminal := session.reading.terminal } }
      (.between []) :=
    ⟨.between (Desk.resting_new _) rfl rfl, rfl, fun output hmem => (List.not_mem_nil hmem).elim⟩
  refine ⟨text, fun d hplays hhandled => ?_⟩
  rw [desk_new hnew] at hplays
  exact hplays.text_eq habreast hhears hcourse hhandled

def smallSession : Session where
  settings := { columns := 4, rows := 2, scrollback := 0 }
  reading := { terminal := .new ⟨4, 2⟩ 0, echo := .new true 1500 3000 }

def plainReads : List (List UInt8) :=
  [Utf8.encode "\x1B]133;C\x07a".toList, Utf8.encode "\x1B]133;D\x07".toList]

theorem moves_plainReads : smallSession.reading.movesAll plainReads =
    [.print (Utf8.encode "\x1B]133;C\x07".toList), .reset, .tell (.started none none),
      .print (Utf8.encode "a".toList), .takeReplies, .print (Utf8.encode "\x1B]133;D\x07".toList),
      .tell (.finished 0), .reset, .print [], .takeReplies] := by
  decide +kernel

-- What one schedule leaves of a command is what every schedule leaves of it.
theorem same_text_for_plainReads :
    ∃ d, (new (smallSession.start {}).1).desk.Plays (smallSession.reading.movesAll plainReads) d ∧
      d.recorder.transcript.document.text = ['a'] ∧
      ∀ d', (new (smallSession.start {}).1).desk.Plays (smallSession.reading.movesAll plainReads) d' →
        d'.stage.mailbox.tasks = [] → d'.recorder.transcript.document.text = ['a'] := by
  obtain ⟨text, htext⟩ := @same_text_for_schedules { columns := 4, rows := 2, scrollback := 0 }
    smallSession rfl plainReads (by decide +kernel) (by unfold EndsOnMain; decide +kernel)
  obtain ⟨d, hplays, hhandled, ha⟩ : ∃ d, (new (smallSession.start {}).1).desk.Plays
      (smallSession.reading.movesAll plainReads) d ∧ d.stage.mailbox.tasks = [] ∧
        d.recorder.transcript.document.text = ['a'] := by
    rw [moves_plainReads]
    exact ⟨_, .move <| .move <| .move <| .move <| .poll <| .move <| .move <| .move <| .move <|
      .move <| .move <| .next (by unfold Call.Fits; decide +kernel) <|
      .next (by unfold Call.Fits; decide +kernel) <| .done _, by decide +kernel, by decide +kernel⟩
  have hsame : text = ['a'] := (htext d hplays hhandled).symm.trans ha
  exact ⟨d, hplays, ha, fun d' hplays' hhandled' => hsame ▸ htext d' hplays' hhandled'⟩

-- A command that shows something and then finishes on the alternate screen.
def fullScreenReads : List (List UInt8) :=
  [Utf8.encode "\x1B]133;C\x07a".toList, Utf8.encode "\x1B[?1049h\x1B]133;D\x07".toList]

theorem moves_fullScreenReads : smallSession.reading.movesAll fullScreenReads =
    [.print (Utf8.encode "\x1B]133;C\x07".toList), .reset, .tell (.started none none),
      .print (Utf8.encode "a".toList), .takeReplies,
      .print (Utf8.encode "\x1B[?1049h".toList), .tell (.alternateChanged true),
      .print (Utf8.encode "\x1B]133;D\x07".toList), .tell (.finished 0), .reset, .print [],
      .takeReplies] := by
  decide +kernel

-- Its last snapshot is dropped, so that the block keeps what happened to be shown before: the start
-- sees what has been written by the time it is handled, here all of it or nothing of its own.
theorem schedules_disagree :
    ¬∀ (settings : Settings) (session : Session), Session.new true settings = .ok session →
      ∀ chunks : List (List UInt8), (session.reading.readAll chunks).1.isRunning = false →
        ∃ text, ∀ d, (new (session.start {}).1).desk.Plays (session.reading.movesAll chunks) d →
          d.stage.mailbox.tasks = [] → d.recorder.transcript.document.text = text := by
  intro h
  obtain ⟨text, htext⟩ := h { columns := 4, rows := 2, scrollback := 0 } smallSession rfl
    fullScreenReads (by decide +kernel)
  rw [moves_fullScreenReads] at htext
  have hsoon : ['a'] = text := htext _
    (.move <| .move <| .move <| .move <| .next (by unfold Call.Fits; decide +kernel) <|
      .move <| .move <| .move <| .move <| .move <| .move <| .move <| .move <|
      .next (by unfold Call.Fits; decide +kernel) <| .next (by unfold Call.Fits; decide +kernel) <|
      .done _) (by decide +kernel)
  have hlate : [] = text := htext _
    (.move <| .move <| .move <| .move <| .move <| .move <| .move <| .move <| .move <| .move <|
      .move <| .move <| .next (by unfold Call.Fits; decide +kernel) <|
      .next (by unfold Call.Fits; decide +kernel) <| .next (by unfold Call.Fits; decide +kernel) <|
      .done _) (by decide +kernel)
  rw [← hlate] at hsoon
  cases hsoon

end Studio

end ShellTranscript
