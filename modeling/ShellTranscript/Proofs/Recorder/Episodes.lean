import Mathlib.Data.List.Forall2
import ShellTranscript.Proofs.Recorder.Flush
import ShellTranscript.Proofs.Recorder.Pump
import ShellTranscript.Proofs.Session.Script

-- Writing down a script. Between two commands the transcript holds those that have finished and
-- nothing else; a command that starts is added to them when it finishes, whatever snapshots come in
-- between.
namespace ShellTranscript

open Text Transcript

-- A block that holds a command in a text.
structure Block.Keeps (whole : Text) (b : Block) (e : Episode) : Prop where
  prompt : b.prompt = some e.prompt
  command : b.command = some e.command
  exitCode : b.exitCode = some e.exitCode
  closed : b.isOpen = false
  frame : b.frame.map Frame.state = some (if e.exitCode = 0 then .normal else .error)
  text : slice? whole b.start b.stop = some e.text

-- A transcript of these commands, in their order, and of nothing else.
structure Transcript.Records (t : Transcript) (script : List Episode) : Prop where
  text : t.document.text = Episode.document script
  blocks : t.blocks.Forall₂ (Block.Keeps (Episode.document script)) script
  noSeparator : t.separatorPending = false

theorem Block.Keeps.append {whole : Text} {b : Block} {e : Episode} (h : b.Keeps whole e)
    (more : Text) : b.Keeps (whole ++ more) e :=
  ⟨h.prompt, h.command, h.exitCode, h.closed, h.frame, slice?_append_right h.text more⟩

-- A block of a transcript that tells of a command. Its frame shows an error if the command failed.
structure Transcript.Tells (t : Transcript) (b : Block) (e : Episode) : Prop where
  prompt : b.prompt = some e.prompt
  command : b.command = some e.command
  exitCode : b.exitCode = some e.exitCode
  closed : b.isOpen = false
  text : t.blockText? b.id = some (some e.text)
  failed : b.frame.map Frame.state = some .error ↔ e.exitCode ≠ 0

section Texts

variable {e : Episode} {settings : Settings} {done : List Episode} {t : Transcript}

theorem Episode.Proper.prompt_ne_nil (h : e.Proper settings) : e.prompt ≠ [] := by
  intro hnil
  have hshown := h.promptShown
  rw [hnil] at hshown
  exact hshown rfl

theorem Episode.Proper.trim_text (h : e.Proper settings) : trim e.text ≠ [] := by
  obtain ⟨c, hc⟩ := Option.ne_none_iff_exists'.mp
    fun hnone => h.commandGiven (List.getLast?_eq_none_iff.mp hnone)
  have hshown : isBlank c = false :=
    getLast?_of_dropEndWhile_eq_self (trimEnd_of_trim h.commandTrimmed) hc
  have hmem : c ∈ e.text ++ ['\n'] := by
    rw [e.text_concat]
    simp [List.mem_of_getLast? hc]
  rcases List.mem_append.mp hmem with hmem | hmem
  · exact trim_ne_nil hmem hshown
  · rw [List.mem_singleton.mp hmem] at hshown
    exact absurd hshown (by decide)

theorem Episode.Proper.text_ne_nil (h : e.Proper settings) : e.text ≠ [] := by
  intro hnil
  have hshown := h.trim_text
  rw [hnil] at hshown
  exact hshown rfl

theorem Episode.header_append_outputText (e : Episode) :
    e.prompt ++ (e.command ++ ['\n']) ++ e.outputText = e.text ++ ['\n'] := by
  rw [e.text_concat, ← List.append_assoc]

-- The header and any part of the output.
theorem Episode.byteLength_writing_le (e : Episode) (before : Text) {output : Text}
    (h : byteLength output ≤ byteLength e.outputText) :
    byteLength (before ++ e.prompt ++ (e.command ++ ['\n']) ++ output) ≤
      byteLength (before ++ e.text) + 1 := by
  have hfeed : byteLength ['\n'] = 1 := by decide
  have htext := congrArg byteLength e.text_concat
  simp only [byteLength_append, hfeed] at htext ⊢
  omega

theorem notEmpty_some {text : Text} (h : text ≠ []) : notEmpty (some text) = some text := by
  cases text with
  | nil => exact absurd rfl h
  | cons c text => rfl

theorem Transcript.Records.opening_eq (h : t.Records done) (hdone : ∀ e ∈ done, e.Proper settings) :
    t.opening = Episode.opening done := by
  rw [Transcript.opening, h.text, h.noSeparator, Bool.or_false]
  rcases List.eq_nil_or_concat done with rfl | ⟨before, e, rfl⟩
  · rfl
  · have hne := (hdone e (by simp)).text_ne_nil
    rw [List.concat_eq_append, Episode.document_concat, Episode.opening_concat, if_neg (by simp [hne])]

end Texts

namespace Desk

-- Between two commands.
structure Idles (d : Desk) (done : List Episode) : Prop where
  resting : d.Resting
  records : d.recorder.transcript.Records done
  seen : d.recorder.viewport.disposed = false

-- In the middle of a command, behind those that have finished.
structure Runs (d : Desk) (done : List Episode) (e : Episode) (closed : List Block)
    (started : Block) : Prop where
  busy : d.Busy (Episode.opening done) e.prompt (e.command ++ ['\n']) closed started
    (2 * done.length + 1)
  closed : closed.Forall₂ (Block.Keeps (Episode.document done)) done
  prompt : started.prompt = some e.prompt
  command : started.command = some e.command
  frame : started.frame.map Frame.state = some .normal

section Commands

variable {d : Desk} {done : List Episode} {e : Episode} {closed : List Block} {started : Block}
  {settings : Settings} {output : Snapshot}

theorem Idles.handle_output (h : d.Idles done) (output : Snapshot) :
    (d.handle (.outputChanged output)).state = d := by
  have hidle : d.recorder.state ≠ .running := by
    rw [h.resting.idle]
    simp
  rw [Desk.handle, Desk.handleEvent, if_neg hidle]
  rfl

theorem Idles.handle_started (h : d.Idles done) (hdone : ∀ e ∈ done, e.Proper settings)
    (he : e.Proper settings) (hroom : byteLength (Episode.opening done ++ e.text) < maxOffset)
    (hgenuine : d.stage.terminal.epoch = 2 * done.length + 1 →
      byteLength d.stage.terminal.snapshot.text ≤ byteLength e.outputText) :
    ∃ closed started, (d.handle (.commandStarted (some e.command) (some e.prompt)
      (2 * done.length + 1))).state.Runs done e closed started := by
  have hopening := h.records.opening_eq hdone
  have hprompt := notEmpty_some he.prompt_ne_nil
  have hcommand := notEmpty_some he.commandGiven
  have hheader : header (notEmpty (some e.prompt)) (notEmpty (some e.command)) =
      e.prompt ++ (e.command ++ ['\n']) := by
    rw [hprompt, hcommand]
    simp [header]
  have hempty := e.byteLength_writing_le (Episode.opening done)
    (show byteLength [] ≤ byteLength e.outputText from Nat.zero_le _)
  obtain ⟨d', hhandle, hbusy⟩ := h.resting.handle_started h.seen (some e.command) (some e.prompt)
    (2 * done.length + 1) (by
      rw [hopening, hheader, ← List.append_assoc]
      rw [List.append_nil] at hempty
      omega) fun hepoch => by
        have hwritten := e.byteLength_writing_le (Episode.opening done) (hgenuine hepoch)
        rw [hopening, hheader, ← List.append_assoc]
        omega
  rw [hopening, hprompt, hcommand] at hbusy
  refine ⟨d.recorder.transcript.blocks,
    d.recorder.transcript.startedBlock (some e.command) (some e.prompt), ?_⟩
  rw [hhandle]
  refine ⟨hbusy, h.records.blocks, hprompt, hcommand, ?_⟩
  simp [startedBlock, hprompt, hcommand]

theorem Runs.handle_output (h : d.Runs done e closed started)
    (hroom : byteLength (Episode.opening done ++ e.text) < maxOffset)
    (hinside : output.RangesInside) (hgenuine : output.epoch = 2 * done.length + 1 →
      byteLength output.text ≤ byteLength e.outputText) :
    (d.handle (.outputChanged output)).state.Runs done e closed started := by
  refine ⟨h.busy.handle_output hinside fun hepoch => ?_, h.closed, h.prompt, h.command, h.frame⟩
  have hwritten := e.byteLength_writing_le (Episode.opening done) (hgenuine hepoch)
  omega

-- What a command leaves of its block in the end.
theorem Runs.keeps (h : d.Runs done e closed started) {b : Block} (hcontinues : started.Continues b)
    (htext : output.text = e.outputText) (isFirst : Bool)
    (hcovers : (writtenBlock b isFirst output).Covers (Episode.opening done) e.prompt
      (e.command ++ ['\n']) output.text) :
    (concludedBlock (writtenBlock b isFirst output) (e.text ++ ['\n']) e.exitCode isFirst).Keeps
      (Episode.document (done ++ [e])) e := by
  have hbody : e.prompt ++ (e.command ++ ['\n']) ++ output.text = e.text ++ ['\n'] :=
    htext ▸ e.header_append_outputText
  have hslice := slice?_concludedBlock hcovers e.exitCode isFirst
  rw [hbody, dropBlankLine_concat, ← Episode.document_concat] at hslice
  have hwhole := hcontinues.trans (b.continues_writtenBlock isFirst output)
  have hframe : (writtenBlock b isFirst output).frame.map Frame.state = some .normal := by
    rw [hwhole.frame_eq, h.frame]
    intro hnone
    have hnormal := h.frame
    rw [hnone] at hnormal
    cases hnormal
  obtain ⟨hprompt, hcommand, hexit⟩ := concludedBlock_fields (writtenBlock b isFirst output)
    (e.text ++ ['\n']) e.exitCode isFirst
  exact ⟨hprompt.trans (hwhole.prompt_eq.trans h.prompt),
    hcommand.trans (hwhole.command_eq.trans h.command), hexit, concludedBlock_isOpen _ _ _ _,
    concludedBlock_frame hframe _ _ _, hslice⟩

theorem Runs.handle_finished (h : d.Runs done e closed started) (he : e.Proper settings)
    (hroom : byteLength (Episode.opening done ++ e.text) < maxOffset)
    (hinside : output.RangesInside) (hmain : output.alternate = false)
    (hepoch : output.epoch = 2 * done.length + 1) (htext : output.text = e.outputText) :
    (d.handle (.commandFinished e.exitCode output)).state.Idles (done ++ [e]) := by
  have hwritten := e.byteLength_writing_le (Episode.opening done)
    (Nat.le_of_eq (congrArg byteLength htext))
  obtain ⟨d', b, hhandle, hresting, hdocument, hblocks, hpending, hseen, hcontinues, hcovers⟩ :=
    h.busy.handle_finished hinside hmain hepoch e.exitCode (by omega)
  have hkept := h.keeps hcontinues htext closed.isEmpty hcovers
  have hbody : e.prompt ++ (e.command ++ ['\n']) ++ output.text = e.text ++ ['\n'] :=
    htext ▸ e.header_append_outputText
  have hshown : ¬(trim e.text).isEmpty = true := by
    rw [List.isEmpty_iff]
    exact he.trim_text
  rw [hbody, concludedText, dropBlankLine_concat, if_neg hshown] at hdocument
  rw [hbody, concludedBlocks, dropBlankLine_concat, if_neg hshown] at hblocks
  obtain ⟨more, hmore⟩ := Episode.document_prefix done e
  have hearlier : closed.Forall₂ (Block.Keeps (Episode.document (done ++ [e]))) done :=
    h.closed.imp fun c d hkeeps => hmore ▸ hkeeps.append more
  rw [hhandle]
  refine ⟨hresting, ⟨hdocument.trans (Episode.document_concat done e).symm, ?_, hpending⟩, hseen⟩
  show d'.recorder.transcript.blocks.Forall₂ _ _
  rw [hblocks]
  exact List.rel_append hearlier (.cons hkept .nil)

theorem Idles.of_recorder (h : d.Idles done) {d' : Desk} (hsame : d'.recorder = d.recorder) :
    d'.Idles done := by
  have haround := around_of_recorder hsame
  refine ⟨h.resting.congr haround.record haround.state haround.caret, ?_, ?_⟩
  · rw [hsame]
    exact h.records
  · rw [hsame, h.seen]

theorem Runs.of_recorder (h : d.Runs done e closed started) {d' : Desk}
    (hsame : d'.recorder = d.recorder) : d'.Runs done e closed started :=
  ⟨h.busy.of_around (around_of_recorder hsame), h.closed, h.prompt, h.command, h.frame⟩

end Commands

-- How far a recorder is with a script when this much is still to be told.
inductive Foretold (script : List Episode) (d : Desk) : List Event → Prop where
  | idle {done todo : List Episode} {events : List Event} (whole : script = done ++ todo)
      (idles : d.Idles done) (rest : Announced done.length todo events) : Foretold script d events
  | running {done todo : List Episode} {e : Episode} {closed : List Block} {started : Block}
      {output : Snapshot} {events : List Event} (whole : script = done ++ e :: todo)
      (runs : d.Runs done e closed started) (text : output.text = e.outputText)
      (main : output.alternate = false) (epoch : output.epoch = 2 * done.length + 1)
      (inside : output.RangesInside) (rest : Announced (done.length + 1) todo events) :
      Foretold script d (.commandFinished e.exitCode output :: events)

-- What is posted about a script: snapshots, and among them what is told of the commands.
inductive Brings (script : List Episode) : List Task → List Event → Prop where
  | nothing : Brings script [] []
  | snapshot {tasks : List Task} {events : List Event} {output : Snapshot}
      (genuine : output.Genuine script) (inside : output.RangesInside) :
      Brings script tasks events → Brings script (.event (.outputChanged output) :: tasks) events
  | told {tasks : List Task} {events : List Event} (e : Event) :
      Brings script tasks events → Brings script (.event e :: tasks) (e :: events)

-- A recorder that is told of a script as tasks come, and of the rest of it later.
def Knows (d : Desk) (script : List Episode) (tasks : List Task) (future : List Event) : Prop :=
  ∃ events, Brings script tasks events ∧ d.Foretold script (events ++ future) ∧
    d.stage.terminal.snapshot.Genuine script

section Scripts

variable {d : Desk} {script : List Episode} {settings : Settings} {tasks : List Task}
  {events future : List Event} {output : Snapshot}

theorem Brings.append {more : List Task} {events' : List Event} (h : Brings script tasks events)
    (h' : Brings script more events') : Brings script (tasks ++ more) (events ++ events') := by
  induction h with
  | nothing => exact h'
  | snapshot hgenuine hinside _ ih => exact .snapshot hgenuine hinside ih
  | told e _ ih => exact .told e ih

theorem brings_told (script : List Episode) (events : List Event) :
    Brings script (events.map Task.event) events := by
  induction events with
  | nil => exact .nothing
  | cons e events ih => exact .told e ih

theorem brings_snapshots (hgenuine : output.Genuine script) (hinside : output.RangesInside)
    (n : Nat) : Brings script ((List.replicate n (.outputChanged output)).map Task.event) [] := by
  induction n with
  | zero => exact .nothing
  | succ n ih => exact .snapshot hgenuine hinside ih

theorem Foretold.of_recorder (h : d.Foretold script events) {d' : Desk}
    (hsame : d'.recorder = d.recorder) : d'.Foretold script events := by
  cases h with
  | idle hwhole hidles hrest => exact .idle hwhole (hidles.of_recorder hsame) hrest
  | running hwhole hruns htext hmain hepoch hinside hrest =>
    exact .running hwhole (hruns.of_recorder hsame) htext hmain hepoch hinside hrest

-- There is room for each command if there is room for all of them.
theorem opening_lt {done todo : List Episode} {e : Episode}
    (hroom : byteLength (Episode.document (done ++ e :: todo)) < maxOffset) :
    byteLength (Episode.opening done ++ e.text) < maxOffset := by
  obtain ⟨rest, hrest⟩ := Episode.opening_prefix done e todo
  have hlength := congrArg byteLength hrest
  rw [byteLength_append] at hlength
  omega

theorem Foretold.handle_output (h : d.Foretold script events)
    (hroom : byteLength (Episode.document script) < maxOffset) (hinside : output.RangesInside)
    (hgenuine : output.Genuine script) :
    (d.handle (.outputChanged output)).state.Foretold script events := by
  cases h with
  | idle hwhole hidles hrest =>
    rw [hidles.handle_output]
    exact .idle hwhole hidles hrest
  | @running done todo e closed started final events hwhole hruns htext hmain hepoch hwithin hrest =>
    subst hwhole
    have hnow : (done ++ e :: todo)[done.length]? = some e := by simp
    exact .running rfl (hruns.handle_output (opening_lt hroom) hinside (hgenuine _ e hnow)) htext hmain
      hepoch hwithin hrest

theorem Foretold.handle {event : Event} (h : d.Foretold script (event :: events))
    (hproper : ∀ e ∈ script, e.Proper settings)
    (hroom : byteLength (Episode.document script) < maxOffset)
    (hgenuine : d.stage.terminal.snapshot.Genuine script) :
    (d.handle event).state.Foretold script events := by
  cases h with
  | @idle done todo events hwhole hidles hrest =>
    cases hrest with
    | @command _ e todo events output htext hmain hepoch hinside hrest =>
      subst hwhole
      have hnow : (done ++ e :: todo)[done.length]? = some e := by simp
      obtain ⟨closed, started, hruns⟩ := hidles.handle_started
        (fun d hd => hproper d (List.mem_append_left _ hd)) (hproper e (by simp)) (opening_lt hroom)
        (hgenuine _ e hnow)
      exact .running rfl hruns htext hmain hepoch hinside hrest
  | @running done todo e closed started output events hwhole hruns htext hmain hepoch hinside hrest =>
    subst hwhole
    have hidles := hruns.handle_finished (hproper e (by simp)) (opening_lt hroom) hinside hmain hepoch
      htext
    have hlength : (done ++ [e]).length = done.length + 1 := by simp
    rw [← hlength] at hrest
    exact .idle (by simp) hidles hrest

-- When nothing more is told, the script is written down.
theorem Foretold.idles (h : d.Foretold script []) : d.Idles script := by
  cases h with
  | idle hwhole hidles hrest =>
    cases hrest
    rwa [hwhole, List.append_nil]

-- Every block can be found by its identity.
theorem Idles.tells (h : d.Idles script) : d.recorder.transcript.blocks.Forall₂
    d.recorder.transcript.Tells script := by
  have hnumbered := h.resting.rests.numbered
  refine ((List.forall₂_and_left _ _).mpr ⟨fun b hb => hb, h.records.blocks⟩).imp ?_
  rintro b e ⟨hb, hkeeps⟩
  refine ⟨hkeeps.prompt, hkeeps.command, hkeeps.exitCode, hkeeps.closed, ?_, ?_⟩
  · rw [blockText?, hnumbered.block? hb, Option.map_some, Document.slice?, h.records.text, hkeeps.text]
  · rw [hkeeps.frame]
    split <;> simp_all

-- A pump handles all that was told so far.
theorem Knows.pump (h : d.Knows script d.stage.mailbox.tasks future)
    (hproper : ∀ e ∈ script, e.Proper settings)
    (hroom : byteLength (Episode.document script) < maxOffset) :
    d.pump.1.Foretold script future ∧ d.pump.1.stage.terminal = d.stage.terminal ∧
      d.pump.1.stage.mailbox = { d.stage.mailbox with tasks := [] } := by
  have hstep : ∀ task rest (d : Desk), d.Knows script (task :: rest) future →
      (d.runTask task).Knows script rest future := by
    rintro task rest d ⟨events, hbrings, hforetold, hgenuine⟩
    have hterminal := (sameOutside_runTask d task).terminal
    cases hbrings with
    | snapshot hfirst hinside hrest =>
      exact ⟨events, hrest, hforetold.handle_output hroom hinside hfirst, hterminal ▸ hgenuine⟩
    | told e hrest =>
      exact ⟨_, hrest, hforetold.handle hproper hroom hgenuine, hterminal ▸ hgenuine⟩
  have hmailbox : ∀ tasks (d : Desk) mailbox, d.Knows script tasks future →
      (d.withMailbox mailbox).Knows script tasks future := by
    rintro tasks d mailbox ⟨events, hbrings, hforetold, hgenuine⟩
    exact ⟨events, hbrings, hforetold.of_recorder rfl, hgenuine⟩
  obtain ⟨⟨rest, hnone, hforetold, -⟩, hstage⟩ := pump_induction hstep hmailbox h
  cases hnone
  exact ⟨hforetold, hstage⟩

end Scripts

end Desk

end ShellTranscript
