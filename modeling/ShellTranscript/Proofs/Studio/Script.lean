import Mathlib.Tactic.Common
import ShellTranscript.Proofs.Recorder.Episodes
import ShellTranscript.Proofs.Session.Delivery
import ShellTranscript.Proofs.Session.Episodes
import ShellTranscript.Studio

-- A script from the shell to the transcript. However the output of the shell is cut, and whenever the
-- terminal is polled and the recorder handles what was posted, the transcript ends up with one block
-- for every command.
namespace ShellTranscript

open Text Transcript

namespace Studio

-- Output arrives, the terminal is polled, the recorder handles what was posted, or time passes.
inductive Step where
  | receive (bytes : List UInt8)
  | poll
  | pump
  | advance (time : Nat)

def step (s : Studio) : Step → Studio
  | .receive bytes => { s with session := s.session.receive (.output bytes) }
  | .poll => { s with session := s.session.poll.1 }
  | .pump => s.pump.1
  | .advance time => { s with session := s.session.advance time }

def Step.bytes : Step → List UInt8
  | .receive bytes => bytes
  | _ => []

-- Where a studio is in a script, next to a reading byte by byte that has the rest of it before it.
structure OnTrack (s : Studio) (script : List Episode) (r : Reading) (rest : List UInt8) : Prop where
  relays : s.session.Relays
  alike : r.Alike s.session.reading
  inStep : r.decoder.InStep s.session.reading.decoder
  known : r.Knows s.session.reading [] rest
  clear : r.Unambiguous rest
  shown : ∀ front back, rest = front ++ back → (r.after front).terminal.snapshot.Genuine script
  desk : s.desk.Knows script s.session.mailbox.tasks ((r.readBytes rest).2.map Notice.event)

section Steps

variable {s : Studio} {script : List Episode} {settings : Settings} {r : Reading}
  {chunk rest : List UInt8}

theorem OnTrack.read (h : s.OnTrack script r (chunk ++ rest)) (connector : Nat) :
    OnTrack { s with session := s.session.read connector chunk } script (r.after chunk) rest := by
  obtain ⟨hreading, hmailbox, -, hrelays⟩ := h.relays.posts_read connector chunk
  obtain ⟨halike, hinStep, -, hevents⟩ := Reading.read_follows h.alike h.inStep chunk
  obtain ⟨htold, hknown⟩ := hevents rest h.clear h.known
  have hshown : ∀ front back, rest = front ++ back →
      ((r.after chunk).after front).terminal.snapshot.Genuine script := by
    intro front back hrest
    rw [← Reading.after_append]
    exact h.shown (chunk ++ front) back (by rw [hrest, List.append_assoc])
  rw [← hreading] at halike hinStep hknown
  refine ⟨hrelays, halike, hinStep, hknown, h.clear.drop, hshown, ?_⟩
  obtain ⟨events, hbrings, hforetold, -⟩ := h.desk
  rw [Reading.readBytes_append, List.map_append, ← htold, ← List.append_assoc] at hforetold
  refine ⟨_, ?_, hforetold.of_recorder rfl, ?_⟩
  · show Desk.Brings script (s.session.read connector chunk).mailbox.tasks _
    rw [hmailbox]
    exact hbrings.append (Desk.brings_told script _)
  · show (s.session.read connector chunk).reading.terminal.snapshot.Genuine script
    rw [halike.terminal.snapshot]
    exact hshown [] rest rfl

theorem OnTrack.receive (h : s.OnTrack script r (chunk ++ rest)) :
    (s.step (.receive chunk)).OnTrack script (r.after chunk) rest := by
  obtain ⟨connector, hreceive⟩ := h.relays.receive_eq chunk
  suffices hreads : ∀ (chunks : List (List UInt8)) (s : Studio) (r : Reading),
      s.OnTrack script r (chunks.flatten ++ rest) →
        OnTrack { s with session := chunks.foldl (fun s bytes => s.read connector bytes) s.session }
          script (r.after chunks.flatten) rest by
    have hall := hreads (Session.reads chunk) s r
    rw [Session.flatten_reads] at hall
    rw [step, hreceive]
    exact hall h
  intro chunks
  induction chunks with
  | nil => exact fun s r h => h
  | cons first chunks ih =>
    intro s r h
    rw [List.flatten_cons, List.append_assoc] at h
    rw [List.flatten_cons, Reading.after_append]
    exact ih _ _ (h.read connector)

theorem OnTrack.samples (h : s.OnTrack script r rest) {session : Session}
    (hsamples : s.session.Samples session) :
    OnTrack { s with session } script r rest := by
  obtain ⟨⟨echo, hreading⟩, ⟨n, hmailbox⟩, hrelays⟩ := hsamples
  have hgenuine : s.session.terminal.snapshot.Genuine script := by
    rw [Session.terminal, h.alike.terminal.snapshot]
    exact h.shown [] rest rfl
  obtain ⟨events, hbrings, hforetold, -⟩ := h.desk
  have hposted := hbrings.append (Desk.brings_snapshots hgenuine
    s.session.terminal.snapshot_rangesInside n)
  rw [List.append_nil] at hposted
  refine ⟨hrelays, ?_, ?_, ?_, h.clear, h.shown, events, ?_, hforetold.of_recorder rfl, ?_⟩
  · show r.Alike session.reading
    rw [hreading]
    exact ⟨h.alike.terminal, h.alike.prompt, h.alike.isRunning, h.alike.sentCommand⟩
  · show r.decoder.InStep session.reading.decoder
    rw [hreading]
    exact h.inStep
  · show r.Knows session.reading [] rest
    rw [hreading]
    exact ⟨h.known.lastExit, h.known.reported⟩
  · show Desk.Brings script session.mailbox.tasks events
    rw [hmailbox]
    exact hposted
  · show session.reading.terminal.snapshot.Genuine script
    rw [hreading]
    exact hgenuine

theorem OnTrack.pump (h : s.OnTrack script r rest) (hproper : ∀ e ∈ script, e.Proper settings)
    (hroom : byteLength (Episode.document script) < maxOffset) :
    s.pump.1.OnTrack script r rest ∧
      s.pump.1.desk.Foretold script ((r.readBytes rest).2.map Notice.event) := by
  obtain ⟨hforetold, hterminal, hmailbox⟩ := h.desk.pump hproper hroom
  have hreading : s.pump.1.session.reading = s.session.reading := by
    have hsame : s.pump.1.session.reading =
        { s.session.reading with terminal := s.desk.pump.1.stage.terminal } := rfl
    rw [hsame, hterminal]
    rfl
  have hclosed : s.pump.1.session.mailbox.isClosed = false :=
    (congrArg Mailbox.isClosed hmailbox).trans h.relays.mailbox
  have htasks : s.pump.1.session.mailbox.tasks = [] := congrArg Mailbox.tasks hmailbox
  have hgenuine : s.pump.1.session.reading.terminal.snapshot.Genuine script := by
    rw [hreading, h.alike.terminal.snapshot]
    exact h.shown [] rest rfl
  refine ⟨⟨⟨h.relays.commands, h.relays.screens, h.relays.reader, h.relays.arrivals,
    h.relays.requests, hclosed⟩, ?_, ?_, ?_, h.clear, h.shown, [], ?_, hforetold, hgenuine⟩,
    hforetold⟩
  · rw [hreading]
    exact h.alike
  · rw [hreading]
    exact h.inStep
  · rw [hreading]
    exact h.known
  · rw [htasks]
    exact .nothing

theorem OnTrack.step (step : Step) (h : s.OnTrack script r (step.bytes ++ rest))
    (hproper : ∀ e ∈ script, e.Proper settings)
    (hroom : byteLength (Episode.document script) < maxOffset) :
    (s.step step).OnTrack script (r.after step.bytes) rest := by
  cases step with
  | receive bytes => exact h.receive
  | poll => exact h.samples h.relays.samples_poll
  | pump => exact (h.pump hproper hroom).1
  | advance time => exact h.samples (h.relays.samples_advanceTo _ _)

theorem OnTrack.steps (steps : List Step) (h : s.OnTrack script r (steps.flatMap Step.bytes ++ rest))
    (hproper : ∀ e ∈ script, e.Proper settings)
    (hroom : byteLength (Episode.document script) < maxOffset) :
    (steps.foldl Studio.step s).OnTrack script (r.after (steps.flatMap Step.bytes)) rest := by
  induction steps generalizing s r with
  | nil => exact h
  | cons first steps ih =>
    rw [List.flatMap_cons, List.append_assoc] at h
    rw [List.flatMap_cons, Reading.after_append]
    exact ih (h.step first hproper hroom)

end Steps

theorem idles_new (session : Session) : (new session).desk.Idles [] :=
  ⟨Desk.resting_new _, ⟨rfl, .nil, rfl⟩, rfl⟩

theorem onTrack_new {settings : Settings} {session : Session}
    (hnew : Session.new true settings = .ok session) {script : List Episode}
    (hproper : ∀ e ∈ script, e.Proper settings) :
    (new (session.start {}).1).OnTrack script session.reading (script.flatMap Episode.bytes) := by
  obtain rfl := Except.ok.inj hnew
  have hstands : Reading.Stands { terminal := .new settings.size settings.scrollback, echo := _ }
      settings {} (2 * ([] : List Episode).length) false := Reading.stands_new settings
    (.new settings.echo.enabled settings.echo.quietPeriod settings.echo.longestWait)
  obtain ⟨events, hannounced, hpasses⟩ := hstands.reads_script hproper
  have hgenuine := hpasses.shown [] _ rfl
  refine ⟨⟨rfl, rfl, ⟨0, rfl⟩, rfl, rfl, rfl⟩, .refl _, .refl _, .refl _ _, hpasses.unambiguous rfl,
    hpasses.shown, [], .nothing, .idle (List.nil_append script).symm (idles_new _) ?_, hgenuine⟩
  exact hpasses.events ▸ hannounced

-- Any steps that bring in the output of a script, and a pump at the end, leave the script in the
-- transcript, as long as offsets can tell every place in it.
theorem transcript_of_script {settings : Settings} {session : Session}
    (hnew : Session.new true settings = .ok session) {script : List Episode}
    (hproper : ∀ e ∈ script, e.Proper settings)
    (hroom : byteLength (Episode.document script) < maxOffset) {steps : List Step}
    (hbytes : steps.flatMap Step.bytes = script.flatMap Episode.bytes) :
    let t := ((steps ++ [Step.pump]).foldl step (new (session.start {}).1)).recorder.transcript
    t.document.text = Episode.document script ∧ t.blocks.Forall₂ t.Tells script := by
  have hstart := onTrack_new hnew hproper
  rw [← hbytes, ← List.append_nil (steps.flatMap Step.bytes)] at hstart
  obtain ⟨-, hforetold⟩ := (hstart.steps steps hproper hroom).pump hproper hroom
  have hidles := hforetold.idles
  rw [List.foldl_append]
  exact ⟨hidles.records.text, hidles.tells⟩

-- Two commands. The second one fails.
def shortScript : List Episode :=
  [⟨['$', ' '], ['l', 's'], [['a'], []], 0⟩, ⟨['>'], ['a', ' ', 'b'], [], -1⟩]

-- Its output is cut in the middle of the second command.
def shortSteps : List Step :=
  [.receive ((shortScript.flatMap Episode.bytes).take 66), .poll, .pump, .advance 20,
    .receive ((shortScript.flatMap Episode.bytes).drop 66)]

def narrowSession : Session where
  settings := { columns := 3, rows := 2, scrollback := 2 }
  reading := { terminal := .new ⟨3, 2⟩ 2, echo := .new true 1500 3000 }

theorem transcript_of_shortScript :
    ((shortSteps ++ [Step.pump]).foldl step
      (new (narrowSession.start {}).1)).recorder.transcript.document.text = "$ ls\na\n\n>a b".toList ∧
    ((shortSteps ++ [Step.pump]).foldl step
      (new (narrowSession.start {}).1)).recorder.transcript.blocks.length = 2 := by
  obtain ⟨htext, hblocks⟩ := @transcript_of_script _ narrowSession rfl shortScript (by decide +kernel)
    (by decide +kernel) shortSteps (by decide +kernel)
  have hdocument : Episode.document shortScript = "$ ls\na\n\n>a b".toList := by decide +kernel
  exact ⟨htext.trans hdocument, hblocks.length_eq⟩

end Studio

end ShellTranscript
