import Mathlib.Tactic.Common
import ShellTranscript.Proofs.Session.Alike

-- How a stream is cut into reads. All notices of a read are decoded before the first of them is acted
-- on, so that the name of a command and the exit code of one that is broken off may come from later
-- in the read. This is the only difference that a cut can make.
namespace ShellTranscript

open Signal

namespace Reading

-- One read after the other.
def readAll (r : Reading) : List (List UInt8) → Reading × List Notice
  | [] => (r, [])
  | chunk :: chunks =>
    let first := r.read chunk
    let rest := first.1.readAll chunks
    (rest.1, first.2.1 ++ rest.2)

theorem alike_print_append (r : Reading) (front back : List UInt8) :
    ((r.print front).print back).Alike (r.print (front ++ back)) :=
  ⟨r.terminal.alike_write_append front back, rfl, rfl, rfl⟩

-- Reading byte by byte acts on each notice before more is decoded.
def readBytes (r : Reading) (bytes : List UInt8) : Reading × List Notice :=
  r.readAll (bytes.map fun b => [b])

theorem readBytes_cons (r : Reading) (b : UInt8) (bytes : List UInt8) :
    r.readBytes (b :: bytes) = (((r.read [b]).1.readBytes bytes).1,
      (r.read [b]).2.1 ++ ((r.read [b]).1.readBytes bytes).2) := rfl

theorem readAll_append (r : Reading) (front back : List (List UInt8)) :
    r.readAll (front ++ back) = (((r.readAll front).1.readAll back).1,
      (r.readAll front).2 ++ ((r.readAll front).1.readAll back).2) := by
  induction front generalizing r with
  | nil => rfl
  | cons chunk front ih => simp only [List.cons_append, readAll, ih, List.append_assoc]

-- The reading that acts on what a byte completes.
def hearing (r : Reading) (b : UInt8) : Reading :=
  { r with decoder := (r.decoder.step b).1 }.print [b]

-- What is left of a read in which some bytes are decoded but not printed yet.
def remaining (r : Reading) (d : ShellDecoder) (printed : Nat) (pending bytes : List UInt8) :
    Reading × List Notice :=
  r.follow printed (pending ++ bytes)
    (scanFrom ShellDecoder.step (printed + pending.length) d bytes).2

theorem remaining_nil (r : Reading) (d : ShellDecoder) (printed : Nat) (pending : List UInt8) :
    r.remaining d printed pending [] = (r.print pending, []) := by
  simp only [remaining, scanFrom, List.append_nil, follow]

theorem remaining_cons_nil {d : ShellDecoder} {b : UInt8} (h : (d.step b).2 = []) (r : Reading)
    (printed : Nat) (pending bytes : List UInt8) :
    r.remaining d printed pending (b :: bytes) =
      r.remaining (d.step b).1 printed (pending ++ [b]) bytes := by
  simp only [remaining, scanFrom, h, List.map_nil, List.nil_append, List.append_assoc,
    List.cons_append, List.length_append, List.length_cons, List.length_nil, Nat.add_assoc]

theorem remaining_cons_single {d : ShellDecoder} {b : UInt8} {notice : ShellNotice}
    (h : (d.step b).2 = [notice]) (r : Reading) (printed : Nat) (pending bytes : List UInt8) :
    r.remaining d printed pending (b :: bytes) =
      let first := (r.print (pending ++ [b])).act notice
      let rest := first.1.remaining (d.step b).1 (printed + pending.length + 1) [] bytes
      (rest.1, first.2 ++ rest.2) := by
  have hcut : printed + pending.length + 1 - printed = (pending ++ [b]).length := by
    rw [List.length_append, List.length_singleton]
    omega
  have hsplit : pending ++ b :: bytes = (pending ++ [b]) ++ bytes := by simp
  simp only [remaining, scanFrom, h, List.map_cons, List.map_nil, List.cons_append,
    List.nil_append, follow, hcut, hsplit, List.take_left, List.drop_left, List.length_nil,
    Nat.add_zero]

-- The end of a read: the replies are taken, and predictions are checked.
def finishRead (r : Reading) : Reading :=
  { r with terminal := r.terminal.takeReplies.2 }.reconcile

theorem alike_finishRead (r : Reading) : r.Alike r.finishRead := by
  unfold finishRead reconcile
  split
  · exact ⟨.takeReplies _, rfl, rfl, rfl⟩
  · exact ⟨.takeReplies _, rfl, rfl, rfl⟩

theorem finishRead_decoder (r : Reading) : r.finishRead.decoder = r.decoder := by
  unfold finishRead reconcile
  split <;> rfl

theorem read_eq (r : Reading) (bytes : List UInt8) :
    (r.read bytes).1 = ({ r with decoder := (r.decoder.feed bytes).1 }.remaining r.decoder 0 []
        bytes).1.finishRead ∧
      (r.read bytes).2.1 = ({ r with decoder := (r.decoder.feed bytes).1 }.remaining r.decoder 0 []
        bytes).2 := ⟨rfl, rfl⟩

theorem read_byte_nil {r : Reading} {b : UInt8} (h : (r.decoder.step b).2 = []) :
    (r.read [b]).1 = (r.hearing b).finishRead ∧ (r.read [b]).2.1 = [] := by
  obtain ⟨hread, hnotices⟩ := r.read_eq [b]
  rw [hread, hnotices, remaining_cons_nil h, remaining_nil]
  exact ⟨rfl, rfl⟩

theorem read_byte_single {r : Reading} {b : UInt8} {notice : ShellNotice}
    (h : (r.decoder.step b).2 = [notice]) :
    (r.read [b]).1 = ((r.hearing b).act notice).1.finishRead ∧
      (r.read [b]).2.1 = ((r.hearing b).act notice).2 := by
  obtain ⟨hread, hnotices⟩ := r.read_eq [b]
  rw [hread, hnotices, remaining_cons_single h]
  simp only [remaining_nil, List.append_nil]
  exact ⟨rfl, rfl⟩

theorem hearing_shell (r : Reading) (b : UInt8) :
    (r.hearing b).decoder.shell = (r.decoder.step b).2.foldl ShellStatus.apply r.decoder.shell := rfl

-- Acting does not touch what is being decoded.
theorem act_inStep (r : Reading) (notice : ShellNotice) :
    r.decoder.InStep (r.act notice).1.decoder := by
  rw [act_decoder]
  split <;> exact ⟨rfl, rfl⟩

theorem read_inStep (r : Reading) (b : UInt8) :
    (r.decoder.step b).1.InStep (r.read [b]).1.decoder := by
  rcases r.decoder.step_eq_nil_or b with hstep | ⟨notice, hstep⟩
  · rw [(read_byte_nil hstep).1, finishRead_decoder]
    exact ⟨rfl, rfl⟩
  · rw [(read_byte_single hstep).1, finishRead_decoder]
    exact (r.hearing b).act_inStep notice

theorem follow_inStep (r : Reading) (printed : Nat) (bytes : List UInt8)
    (found : List (Located ShellNotice)) :
    r.decoder.InStep (r.follow printed bytes found).1.decoder := by
  induction found generalizing r printed bytes with
  | nil => exact ⟨rfl, rfl⟩
  | cons item found ih =>
    obtain ⟨stop, notice⟩ := item
    have hact := (r.print (bytes.take (stop - printed))).act_inStep notice
    have hrest := ih ((r.print (bytes.take (stop - printed))).act notice).1 stop
      (bytes.drop (stop - printed))
    exact hact.trans hrest

def after (r : Reading) (bytes : List UInt8) : Reading := (r.readBytes bytes).1

-- Nothing that the shell tells later could be taken for what belongs to the command that starts now.
structure Clear (s : Reading) (later : List ShellNotice) : Prop where
  line : ∀ line, .commandLine line ∈ later → s.nextCommand = some line
  code : s.isRunning = true → ∀ code, .commandFinished code ∈ later → s.brokenExit = code

-- No command that starts in these bytes is named otherwise for want of the shell's report.
def Recognizable (r : Reading) (stream : List UInt8) : Prop :=
  ∀ front b back, stream = front ++ b :: back →
    ((r.after front).decoder.step b).2 = [.commandExecuted] →
      ((r.after front).hearing b).unreportedCommand = ((r.after front).hearing b).nextCommand

-- At every start in a stream, what follows it does not interfere.
def Unambiguous (r : Reading) (stream : List UInt8) : Prop :=
  ∀ front b back, stream = front ++ b :: back →
    ((r.after front).decoder.step b).2 = [.commandExecuted] →
      ((r.after front).hearing b).Clear (((r.after front).hearing b).decoder.told back) ∧
        (r.after (front ++ [b])).Recognizable back

theorem after_cons (r : Reading) (b : UInt8) (bytes : List UInt8) :
    r.after (b :: bytes) = (r.read [b]).1.after bytes := rfl

theorem readBytes_append (r : Reading) (front back : List UInt8) :
    r.readBytes (front ++ back) = (((r.after front).readBytes back).1,
      (r.readBytes front).2 ++ ((r.after front).readBytes back).2) := by
  rw [readBytes, List.map_append, readAll_append]
  rfl

theorem after_append (r : Reading) (front back : List UInt8) :
    r.after (front ++ back) = (r.after front).after back := by
  rw [after, readBytes_append]
  rfl

theorem Recognizable.tail {r : Reading} {b : UInt8} {stream : List UInt8}
    (h : r.Recognizable (b :: stream)) : (r.read [b]).1.Recognizable stream := by
  intro front c back hstream hstart
  rw [← after_cons] at hstart ⊢
  exact h (b :: front) c back (by rw [hstream, List.cons_append]) hstart

theorem Unambiguous.tail {r : Reading} {b : UInt8} {stream : List UInt8}
    (h : r.Unambiguous (b :: stream)) : (r.read [b]).1.Unambiguous stream := by
  intro front c back hstream hstart
  rw [← after_cons] at hstart ⊢
  exact h (b :: front) c back (by rw [hstream, List.cons_append]) hstart

theorem Unambiguous.drop {r : Reading} {front back : List UInt8}
    (h : r.Unambiguous (front ++ back)) : (r.after front).Unambiguous back := by
  induction front generalizing r with
  | nil => exact h
  | cons b front ih => exact ih h.tail

-- What is known in a read of the bytes that are left of it, next to what reading byte by byte knows.
structure Knows (r r' : Reading) (bytes beyond : List UInt8) : Prop where
  lastExit : r'.decoder.shell.lastExit =
    ((r.decoder.told bytes).foldl ShellStatus.apply r.decoder.shell).lastExit
  reported : r'.decoder.shell.reportedCommand =
      ((r.decoder.told bytes).foldl ShellStatus.apply r.decoder.shell).reportedCommand ∨
    r'.decoder.shell.reportedCommand = none ∧ r.Recognizable (bytes ++ beyond)

theorem Knows.hearing {r r' : Reading} {b : UInt8} {bytes beyond : List UInt8}
    (h : r.Knows r' (b :: bytes) beyond) : r'.decoder.shell.lastExit =
      ((((r.hearing b).decoder.told bytes).filterMap ShellNotice.code?).getLast? <|>
        (r.hearing b).decoder.shell.lastExit) ∧
    (r'.decoder.shell.reportedCommand =
      ((((r.hearing b).decoder.told bytes).filterMap ShellNotice.line?).getLast? <|>
        (r.hearing b).decoder.shell.reportedCommand) ∨
      r'.decoder.shell.reportedCommand = none ∧ r.Recognizable (b :: bytes ++ beyond)) := by
  have hexit := h.lastExit
  have hreported := h.reported
  rw [ShellDecoder.foldl_told_cons, lastExit_foldl] at hexit
  rw [ShellDecoder.foldl_told_cons, reportedCommand_foldl] at hreported
  exact ⟨hexit, hreported⟩

-- At a start, the name and the exit code that a read gives are those of reading byte by byte.
theorem Knows.agree {r r' : Reading} {b : UInt8} {bytes beyond pending : List UInt8}
    (h : r.Knows r' (b :: bytes) beyond) (hstart : (r.decoder.step b).2 = [.commandExecuted])
    (hclear : r.Unambiguous (b :: bytes ++ beyond))
    (halike : (r.hearing b).Alike (r'.print pending)) :
    (r'.print pending).nextCommand = (r.hearing b).nextCommand ∧
      ((r.hearing b).isRunning = true →
        (r'.print pending).brokenExit = (r.hearing b).brokenExit) := by
  have hnext : (r'.print pending).nextCommand =
      (r'.decoder.shell.reportedCommand <|> (r.hearing b).unreportedCommand) := by
    rw [nextCommand, halike.unreportedCommand]
    rfl
  obtain ⟨hlater, -⟩ := hclear [] b (bytes ++ beyond) rfl hstart
  have htold : ∀ notice ∈ (r.hearing b).decoder.told bytes,
      notice ∈ (r.hearing b).decoder.told (bytes ++ beyond) := by
    intro notice hnotice
    rw [ShellDecoder.told_append]
    exact List.mem_append_left _ hnotice
  obtain ⟨hexit, hreported⟩ := h.hearing
  constructor
  · rw [hnext]
    rcases hreported with hreported | ⟨hlost, hrecognizable⟩
    · rw [hreported]
      cases hlast : (((r.hearing b).decoder.told bytes).filterMap ShellNotice.line?).getLast? with
      | none => rfl
      | some line => exact (hlater.line line (htold _ (mem_of_getLast?_line? hlast))).symm
    · rw [hlost]
      exact hrecognizable [] b (bytes ++ beyond) rfl hstart
  · intro hrunning
    have hbroken : (r'.print pending).brokenExit = r'.decoder.shell.lastExit.getD 0 := rfl
    rw [hbroken, hexit]
    cases hlast : (((r.hearing b).decoder.told bytes).filterMap ShellNotice.code?).getLast? with
    | none => rfl
    | some code => exact (hlater.code hrunning code (htold _ (mem_of_getLast?_code? hlast))).symm

-- A start uses up what was reported; nothing else changes what is known.
theorem Knows.act {r r' : Reading} {b : UInt8} {notice : ShellNotice}
    {bytes beyond pending : List UInt8} (h : r.Knows r' (b :: bytes) beyond)
    (hstep : (r.decoder.step b).2 = [notice]) (hclear : r.Unambiguous (b :: bytes ++ beyond)) :
    (r.read [b]).1.Knows ((r'.print pending).act notice).1 bytes beyond := by
  obtain ⟨hexit, hreported⟩ := h.hearing
  have hdecoder : (r.read [b]).1.decoder = ((r.hearing b).act notice).1.decoder := by
    rw [(read_byte_single hstep).1, finishRead_decoder]
  have htold : (r.read [b]).1.decoder.told bytes = (r.hearing b).decoder.told bytes := by
    rw [hdecoder]
    exact ((r.hearing b).act_inStep notice).told bytes
  have hprint : (r'.print pending).decoder = r'.decoder := rfl
  by_cases hstart : notice = .commandExecuted
  · obtain ⟨-, hrecognizable⟩ := hclear [] b (bytes ++ beyond) rfl (hstart ▸ hstep)
    rw [act_decoder, if_pos hstart] at hdecoder
    refine ⟨?_, Or.inr ⟨?_, hrecognizable⟩⟩
    · rw [htold, lastExit_foldl, hdecoder, act_decoder, if_pos hstart, hprint]
      exact hexit
    · rw [act_decoder, if_pos hstart]
      rfl
  · rw [act_decoder, if_neg hstart] at hdecoder
    refine ⟨?_, ?_⟩
    · rw [htold, lastExit_foldl, hdecoder, act_decoder, if_neg hstart, hprint]
      exact hexit
    · rw [htold, reportedCommand_foldl, hdecoder, act_decoder, if_neg hstart, hprint]
      exact hreported.imp id fun hlost => ⟨hlost.1, hlost.2.tail⟩

theorem Knows.skip {r r' : Reading} {b : UInt8} {bytes beyond : List UInt8}
    (h : r.Knows r' (b :: bytes) beyond) (hstep : (r.decoder.step b).2 = []) :
    (r.read [b]).1.Knows r' bytes beyond := by
  obtain ⟨hexit, hreported⟩ := h.hearing
  have hdecoder : (r.read [b]).1.decoder = (r.hearing b).decoder := by
    rw [(read_byte_nil hstep).1, finishRead_decoder]
  refine ⟨?_, ?_⟩
  · rw [lastExit_foldl, hdecoder]
    exact hexit
  · rw [reportedCommand_foldl, hdecoder]
    exact hreported.imp id fun hlost => ⟨hlost.1, hlost.2.tail⟩

theorem Alike.hearing {r r' : Reading} {pending : List UInt8}
    (h : r.Alike (r'.print pending)) (b : UInt8) :
    (r.hearing b).Alike (r'.print (pending ++ [b])) := by
  have hprinted := (h.print [b]).trans (r'.alike_print_append pending [b])
  exact ⟨hprinted.terminal, hprinted.prompt, hprinted.isRunning, hprinted.sentCommand⟩

theorem Alike.skip {r r' : Reading} {pending : List UInt8} {b : UInt8}
    (h : r.Alike (r'.print pending)) (hstep : (r.decoder.step b).2 = []) :
    (r.read [b]).1.Alike (r'.print (pending ++ [b])) := by
  rw [(read_byte_nil hstep).1]
  exact (alike_finishRead _).symm.trans (h.hearing b)

theorem Alike.acted {r r' : Reading} {pending : List UInt8} {b : UInt8} {notice : ShellNotice}
    (h : r.Alike (r'.print pending)) (hstep : (r.decoder.step b).2 = [notice]) :
    (r.read [b]).1.Alike (((r'.print (pending ++ [b])).act notice).1.print []) := by
  rw [(read_byte_single hstep).1]
  exact (alike_finishRead _).symm.trans ((h.hearing b).act notice).1

-- A read shows the same as reading byte by byte. It tells as much, and the same if nothing that comes
-- later interferes.
theorem remaining_follows {r r' : Reading} {d : ShellDecoder} {pending : List UInt8}
    (halike : r.Alike (r'.print pending)) (hd : r.decoder.InStep d) (printed : Nat)
    (bytes : List UInt8) :
    (r.after bytes).Alike (r'.remaining d printed pending bytes).1 ∧
      (r'.remaining d printed pending bytes).2.length = (r.readBytes bytes).2.length ∧
      ∀ beyond, r.Unambiguous (bytes ++ beyond) → r.Knows r' bytes beyond →
        (r'.remaining d printed pending bytes).2.map Notice.event =
            (r.readBytes bytes).2.map Notice.event ∧
          (r.after bytes).Knows (r'.remaining d printed pending bytes).1 [] beyond := by
  induction bytes generalizing r r' d pending printed with
  | nil =>
    rw [remaining_nil]
    exact ⟨halike, rfl, fun beyond _ hknows => ⟨rfl, hknows.lastExit, hknows.reported⟩⟩
  | cons b bytes ih =>
    obtain ⟨hnext, hitems⟩ := hd.step b
    have hd' : (r.read [b]).1.decoder.InStep (d.step b).1 := (r.read_inStep b).symm.trans hnext
    rw [readBytes_cons, after_cons]
    rcases r.decoder.step_eq_nil_or b with hstep | ⟨notice, hstep⟩
    · obtain ⟨hlast, hlength, hrest⟩ := ih (halike.skip hstep) hd' printed
      rw [remaining_cons_nil (hitems.trans hstep), (read_byte_nil hstep).2, List.nil_append]
      exact ⟨hlast, hlength, fun beyond hclear hknows =>
        hrest beyond hclear.tail (hknows.skip hstep)⟩
    · have hheard := halike.hearing b
      obtain ⟨hlast, hlength, hrest⟩ :=
        ih (halike.acted hstep) hd' (printed + pending.length + 1)
      rw [remaining_cons_single (hitems.trans hstep), (read_byte_single hstep).2]
      refine ⟨hlast, by simp only [List.length_append, (hheard.act notice).2, hlength], ?_⟩
      intro beyond hclear hknows
      obtain ⟨hevents, hknows'⟩ := hrest beyond hclear.tail (hknows.act hstep hclear)
      refine ⟨?_, hknows'⟩
      have hagree : notice = .commandExecuted → _ := fun hstart =>
        hknows.agree (hstart ▸ hstep) hclear hheard
      rw [List.map_append, List.map_append, hevents,
        hheard.act_events notice (fun h => (hagree h).1) fun h => (hagree h).2]

theorem after_inStep (r : Reading) (bytes : List UInt8) :
    (r.decoder.feed bytes).1.InStep (r.after bytes).decoder := by
  induction bytes generalizing r with
  | nil => exact .refl _
  | cons b bytes ih =>
    rw [ShellDecoder.feed_cons, after_cons]
    exact ((r.read_inStep b).feed bytes).trans (ih _)

theorem read_decoder_inStep (r : Reading) (bytes : List UInt8) :
    (r.decoder.feed bytes).1.InStep (r.read bytes).1.decoder := by
  rw [(r.read_eq bytes).1, finishRead_decoder]
  exact follow_inStep { r with decoder := (r.decoder.feed bytes).1 } 0 bytes _

-- At the start of a read its own bytes become known.
theorem Knows.decoded {r r' : Reading} {chunk beyond : List UInt8}
    (h : r.Knows r' [] (chunk ++ beyond)) (hd : r.decoder.InStep r'.decoder) :
    r.Knows { r' with decoder := (r'.decoder.feed chunk).1 } chunk beyond := by
  have hexit : r'.decoder.shell.lastExit = r.decoder.shell.lastExit := h.lastExit
  refine ⟨?_, ?_⟩
  · rw [ShellDecoder.shell_feed, hd.told, lastExit_foldl, lastExit_foldl, hexit]
  · rw [ShellDecoder.shell_feed, hd.told, reportedCommand_foldl, reportedCommand_foldl]
    rcases h.reported with hsame | ⟨hlost, hrecognizable⟩
    · have hsame' : r'.decoder.shell.reportedCommand = r.decoder.shell.reportedCommand := hsame
      exact Or.inl (by rw [hsame'])
    · rw [hlost]
      cases ((r.decoder.told chunk).filterMap ShellNotice.line?).getLast? with
      | none => exact Or.inr ⟨rfl, hrecognizable⟩
      | some line => exact Or.inl rfl

-- One read against the same bytes one by one.
theorem read_follows {r r' : Reading} (halike : r.Alike r') (hd : r.decoder.InStep r'.decoder)
    (chunk : List UInt8) :
    (r.after chunk).Alike (r'.read chunk).1 ∧
      (r.after chunk).decoder.InStep (r'.read chunk).1.decoder ∧
      (r'.read chunk).2.1.length = (r.readBytes chunk).2.length ∧
      ∀ beyond, r.Unambiguous (chunk ++ beyond) → r.Knows r' [] (chunk ++ beyond) →
        (r'.read chunk).2.1.map Notice.event = (r.readBytes chunk).2.map Notice.event ∧
          (r.after chunk).Knows (r'.read chunk).1 [] beyond := by
  have halike' : r.Alike ({ r' with decoder := (r'.decoder.feed chunk).1 }.print []) :=
    ⟨halike.terminal, halike.prompt, halike.isRunning, halike.sentCommand⟩
  obtain ⟨hlast, hlength, hrest⟩ := remaining_follows halike' hd 0 chunk
  obtain ⟨hread, hnotices⟩ := r'.read_eq chunk
  have hdecoder : (r.after chunk).decoder.InStep (r'.read chunk).1.decoder :=
    (r.after_inStep chunk).symm.trans ((hd.feed chunk).trans (r'.read_decoder_inStep chunk))
  refine ⟨?_, hdecoder, ?_, ?_⟩
  · rw [hread]
    exact hlast.trans (alike_finishRead _)
  · rw [hnotices, hlength]
  · intro beyond hclear hknows
    obtain ⟨hevents, hknows'⟩ := hrest beyond hclear (hknows.decoded hd)
    rw [hnotices]
    refine ⟨hevents, ?_⟩
    rw [hread]
    refine ⟨?_, ?_⟩
    · rw [finishRead_decoder]
      exact hknows'.lastExit
    · rw [finishRead_decoder]
      exact hknows'.reported

-- Any cut of a stream into reads against its bytes one by one.
theorem readAll_follows {r r' : Reading} (halike : r.Alike r') (hd : r.decoder.InStep r'.decoder)
    (chunks : List (List UInt8)) :
    (r.after chunks.flatten).Alike (r'.readAll chunks).1 ∧
      (r.Unambiguous chunks.flatten → r.Knows r' [] chunks.flatten →
        (r'.readAll chunks).2.map Notice.event =
          (r.readBytes chunks.flatten).2.map Notice.event) := by
  induction chunks generalizing r r' with
  | nil => exact ⟨halike, fun _ _ => rfl⟩
  | cons chunk chunks ih =>
    obtain ⟨halike', hd', -, hrest⟩ := read_follows halike hd chunk
    obtain ⟨hlast, hevents⟩ := ih halike' hd'
    rw [List.flatten_cons, after_append, readBytes_append]
    refine ⟨hlast, fun hclear hknows => ?_⟩
    obtain ⟨hfirst, hknows'⟩ := hrest _ hclear hknows
    have hmore := hevents hclear.drop hknows'
    simp only [readAll, List.map_append, hfirst, hmore]

theorem Knows.refl (r : Reading) (beyond : List UInt8) : r.Knows r [] beyond := ⟨rfl, Or.inl rfl⟩

-- Where the reads of two cuts agree from, they agree on one read that follows.
theorem read_events_eq {r : Reading} {front chunk back : List UInt8}
    (h : ∀ first second : List (List UInt8), first.flatten = front ++ chunk ++ back →
      second.flatten = front ++ chunk ++ back →
      (r.readAll first).2.map Notice.event = (r.readAll second).2.map Notice.event) :
    ((r.after front).read chunk).2.1.map Notice.event =
      ((r.after front).readBytes chunk).2.map Notice.event := by
  have hsingles : ∀ bytes : List UInt8, (bytes.map fun b => [b]).flatten = bytes := by
    intro bytes
    rw [← List.flatMap_def, List.flatMap_singleton']
  have hcuts := h ((front.map fun b => [b]) ++ chunk :: back.map fun b => [b])
    ((front ++ (chunk ++ back)).map fun b => [b])
    (by rw [List.flatten_append, List.flatten_cons, hsingles, hsingles, List.append_assoc])
    (by rw [hsingles, List.append_assoc])
  rw [← readBytes, readBytes_append, readBytes_append, readAll_append] at hcuts
  simp only [readAll, List.map_append] at hcuts
  have hsame := List.append_cancel_left hcuts
  obtain ⟨-, -, hlength, -⟩ := read_follows (Alike.refl (r.after front)) (.refl _) chunk
  have hlengths : (((r.after front).read chunk).2.1.map Notice.event).length =
      (((r.after front).readBytes chunk).2.map Notice.event).length := by
    rw [List.length_map, List.length_map, hlength]
  exact (List.append_inj hsame hlengths).1

-- The reading that acts on the first byte of a read, which is decoded to its end.
def foreknowing (r : Reading) (b : UInt8) (rest : List UInt8) : Reading :=
  { r with decoder := (r.decoder.feed (b :: rest)).1 }.print [b]

theorem foreknowing_shell (r : Reading) (b : UInt8) (rest : List UInt8) :
    (r.foreknowing b rest).decoder.shell =
      ((r.hearing b).decoder.told rest).foldl ShellStatus.apply (r.hearing b).decoder.shell := by
  have hshell := r.decoder.shell_feed (b :: rest)
  rw [ShellDecoder.foldl_told_cons] at hshell
  exact hshell

theorem alike_foreknowing (r : Reading) (b : UInt8) (rest : List UInt8) :
    (r.hearing b).Alike (r.foreknowing b rest) := ⟨.refl _, rfl, rfl, rfl⟩

theorem read_start {r : Reading} {b : UInt8} (hstart : (r.decoder.step b).2 = [.commandExecuted])
    (rest : List UInt8) :
    (r.read (b :: rest)).2.1 = ((r.foreknowing b rest).act .commandExecuted).2 ++
      (((r.foreknowing b rest).act .commandExecuted).1.remaining (r.decoder.step b).1 1 []
        rest).2 := by
  rw [(r.read_eq (b :: rest)).2, remaining_cons_single hstart]
  rfl

theorem eq_of_read_events_eq {r : Reading} {b : UInt8} {rest : List UInt8}
    (hstart : (r.decoder.step b).2 = [.commandExecuted])
    (h : (r.read (b :: rest)).2.1.map Notice.event =
      (r.readBytes (b :: rest)).2.map Notice.event) :
    (r.foreknowing b rest).nextCommand = (r.hearing b).nextCommand ∧
      ((r.hearing b).isRunning = true →
        (r.foreknowing b rest).brokenExit = (r.hearing b).brokenExit) := by
  have hrunning : (r.foreknowing b rest).isRunning = (r.hearing b).isRunning := rfl
  rw [read_start hstart, readBytes_cons, (read_byte_single hstart).2] at h
  simp only [List.map_append, act, startCommand_events, hrunning] at h
  cases hcase : (r.hearing b).isRunning with
  | true =>
    simp only [hcase, if_true, List.cons_append, List.nil_append, List.cons.injEq,
      Event.commandFinished.injEq, Event.commandStarted.injEq] at h
    exact ⟨h.2.1.1, fun _ => h.1.1⟩
  | false =>
    simp only [hcase, Bool.false_eq_true, if_false, List.cons_append, List.nil_append,
      List.cons.injEq, Event.commandStarted.injEq] at h
    exact ⟨h.1.1, fun hfalse => by cases hfalse⟩

-- A report that was taken is not there for a later start in the same read.
theorem remaining_unreported {r r' : Reading} {d : ShellDecoder} {pending : List UInt8}
    (halike : r.Alike (r'.print pending)) (hd : r.decoder.InStep d) (printed : Nat)
    {middle : List UInt8} {c : UInt8}
    (hstart : ((r.after middle).decoder.step c).2 = [.commandExecuted])
    (htaken : r'.decoder.shell.reportedCommand = none) :
    ∃ events prompt epoch,
      (r'.remaining d printed pending (middle ++ [c])).2.map Notice.event =
        events ++ [.commandStarted ((r.after middle).hearing c).unreportedCommand prompt epoch] := by
  induction middle generalizing r r' d pending printed with
  | nil =>
    have hheard := halike.hearing c
    have hname : (r'.print (pending ++ [c])).nextCommand = (r.hearing c).unreportedCommand := by
      have hreported : (r'.print (pending ++ [c])).decoder.shell.reportedCommand = none := htaken
      rw [nextCommand, hreported, hheard.unreportedCommand]
      rfl
    rw [List.nil_append, remaining_cons_single ((hd.step c).2.trans hstart)]
    simp only [remaining_nil, List.append_nil, act, startCommand_events, hname]
    exact ⟨_, _, _, rfl⟩
  | cons b middle ih =>
    obtain ⟨hnext, hitems⟩ := hd.step b
    have hd' : (r.read [b]).1.decoder.InStep (d.step b).1 := (r.read_inStep b).symm.trans hnext
    rw [after_cons] at hstart ⊢
    rcases r.decoder.step_eq_nil_or b with hstep | ⟨notice, hstep⟩
    · obtain ⟨events, prompt, epoch, hevents⟩ := ih (halike.skip hstep) hd' printed hstart htaken
      rw [List.cons_append, remaining_cons_nil (hitems.trans hstep)]
      exact ⟨events, prompt, epoch, hevents⟩
    · have htaken' : ((r'.print (pending ++ [b])).act notice).1.decoder.shell.reportedCommand =
          none := by
        rw [act_decoder]
        split
        · rfl
        · exact htaken
      obtain ⟨events, prompt, epoch, hevents⟩ := ih (halike.acted hstep) hd'
        (printed + pending.length + 1) hstart htaken'
      rw [List.cons_append, remaining_cons_single (hitems.trans hstep)]
      simp only [List.map_append, hevents]
      exact ⟨_, prompt, epoch, (List.append_assoc _ _ _).symm⟩

-- The last command that starts in a read that begins with a start.
theorem unreported_of_read_events_eq {r : Reading} {b c : UInt8} {middle : List UInt8}
    (hfirst : (r.decoder.step b).2 = [.commandExecuted])
    (hstart : ((r.after (b :: middle)).decoder.step c).2 = [.commandExecuted])
    (h : (r.read (b :: middle ++ [c])).2.1.map Notice.event =
      (r.readBytes (b :: middle ++ [c])).2.map Notice.event) :
    ((r.after (b :: middle)).hearing c).unreportedCommand =
      ((r.after (b :: middle)).hearing c).nextCommand := by
  have halike : (r.read [b]).1.Alike
      (((r.foreknowing b (middle ++ [c])).act .commandExecuted).1.print []) := by
    rw [(read_byte_single hfirst).1]
    exact (alike_finishRead _).symm.trans ((r.alike_foreknowing b _).act .commandExecuted).1
  have htaken : ((r.foreknowing b (middle ++ [c])).act
      .commandExecuted).1.decoder.shell.reportedCommand = none := by
    rw [act_decoder]
    rfl
  have hbytes : (r.readBytes (b :: middle ++ [c])).2 = (r.readBytes (b :: middle)).2 ++
      (((r.after (b :: middle)).hearing c).act .commandExecuted).2 := by
    rw [readBytes_append, readBytes_cons, (read_byte_single hstart).2]
    simp only [readBytes, List.map_nil, readAll, List.append_nil]
  rw [after_cons] at hstart
  obtain ⟨events, prompt, epoch, hread⟩ :=
    remaining_unreported halike (r.read_inStep b).symm 1 hstart htaken
  have hnamed := ((r.after (b :: middle)).hearing c).startCommand_events
  rw [List.cons_append, read_start hfirst, ← List.cons_append, hbytes, List.map_append, hread,
    List.map_append] at h
  rw [← List.append_assoc, act, act, hnamed, ← List.append_assoc] at h
  have hlast := (List.append_inj' h rfl).2
  simp only [List.cons.injEq, Event.commandStarted.injEq, and_true] at hlast
  exact hlast.1

theorem unambiguous_of_cuts_agree {r : Reading} {stream : List UInt8}
    (h : ∀ first second : List (List UInt8), first.flatten = stream → second.flatten = stream →
      (r.readAll first).2.map Notice.event = (r.readAll second).2.map Notice.event) :
    r.Unambiguous stream := by
  rintro front b back rfl hstart
  have hread : ∀ chunk tail : List UInt8, b :: back = chunk ++ tail →
      ((r.after front).read chunk).2.1.map Notice.event =
        ((r.after front).readBytes chunk).2.map Notice.event := by
    intro chunk tail hchunk
    rw [hchunk, ← List.append_assoc] at h
    exact read_events_eq h
  refine ⟨⟨?_, ?_⟩, ?_⟩
  · intro line hline
    obtain ⟨middle, c, tail, rfl, hstep⟩ := ShellDecoder.exists_step_of_mem_told hline
    have hsame := hread (b :: (middle ++ [c])) tail (by simp)
    rw [← (eq_of_read_events_eq hstart hsame).1, nextCommand, foreknowing_shell,
      reportedCommand_foldl, ShellDecoder.told_concat hstep]
    simp [ShellNotice.line?]
  · intro hrunning code hcode
    obtain ⟨middle, c, tail, rfl, hstep⟩ := ShellDecoder.exists_step_of_mem_told hcode
    have hsame := hread (b :: (middle ++ [c])) tail (by simp)
    rw [← (eq_of_read_events_eq hstart hsame).2 hrunning, brokenExit, foreknowing_shell,
      lastExit_foldl, ShellDecoder.told_concat hstep]
    simp [ShellNotice.code?]
  · rintro middle c tail rfl hnext
    have hsame := hread (b :: middle ++ [c]) tail (by simp)
    have hsplit : front ++ [b] ++ middle = front ++ (b :: middle) := by simp
    rw [← after_append, hsplit, after_append] at hnext ⊢
    exact unreported_of_read_events_eq hstart hnext hsame

-- Every two cuts of a stream into reads make listeners hear the same and the terminal show the same
-- exactly if nothing the shell tells after a start interferes with it.
theorem cuts_agree_iff (r : Reading) (stream : List UInt8) :
    (∀ first second : List (List UInt8), first.flatten = stream → second.flatten = stream →
      (r.readAll first).2.map Notice.event = (r.readAll second).2.map Notice.event ∧
        (r.readAll first).1.terminal.snapshot = (r.readAll second).1.terminal.snapshot) ↔
    r.Unambiguous stream := by
  constructor
  · intro h
    exact unambiguous_of_cuts_agree fun first second hfirst hsecond =>
      (h first second hfirst hsecond).1
  · intro h first second hfirst hsecond
    have hcut : ∀ chunks : List (List UInt8), chunks.flatten = stream →
        (r.readAll chunks).2.map Notice.event = (r.readBytes stream).2.map Notice.event ∧
          (r.readAll chunks).1.terminal.snapshot = (r.after stream).terminal.snapshot := by
      intro chunks hchunks
      obtain ⟨halike, hevents⟩ := readAll_follows (Alike.refl r) (.refl _) chunks
      rw [hchunks] at halike hevents
      exact ⟨hevents h (.refl r stream), halike.terminal.snapshot⟩
    obtain ⟨hevents, hsnapshot⟩ := hcut first hfirst
    obtain ⟨hevents', hsnapshot'⟩ := hcut second hsecond
    exact ⟨hevents.trans hevents'.symm, hsnapshot.trans hsnapshot'.symm⟩

-- Two commands in one read: the first is named after the second, which is not named at all.
theorem cuts_disagree :
    ¬∀ (r : Reading) (first second : List (List UInt8)), first.flatten = second.flatten →
      (r.readAll first).2.map Notice.event = (r.readAll second).2.map Notice.event ∧
        (r.readAll first).1.terminal.snapshot = (r.readAll second).1.terminal.snapshot := by
  intro h
  have hsame := (h { terminal := .new ⟨4, 2⟩ 0, echo := .new false 0 0 }
    [Text.Utf8.encode
      "\x1B]633;E;a\x07\x1B]133;C\x07\x1B]133;D\x07\x1B]633;E;b\x07\x1B]133;C\x07".toList]
    [Text.Utf8.encode "\x1B]633;E;a\x07\x1B]133;C\x07\x1B]133;D\x07".toList,
      Text.Utf8.encode "\x1B]633;E;b\x07\x1B]133;C\x07".toList] (by decide +kernel)).1
  revert hsame
  decide +kernel

end Reading

end ShellTranscript
