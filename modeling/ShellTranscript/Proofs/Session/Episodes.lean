import Mathlib.Tactic.Common
import ShellTranscript.Proofs.Screen.Printed
import ShellTranscript.Proofs.Session.Heard
import ShellTranscript.Proofs.Text.Recovery

-- Reading what a shell puts out that runs one command after the other. Each command is told to start
-- and to finish, with its prompt and its name at the start and all of its output at the finish; no
-- snapshot taken in between shows more of the output than there is.
namespace ShellTranscript

open Text Signal Episode

theorem Snapshot.genuine_of_within {all : List Episode} {n : Nat} {e : Episode}
    (hall : all[n]? = some e) {t : Terminal} (hepoch : t.epoch = 2 * n + 1) {size : ScreenSize}
    (hpos : 0 < size.columns) {limit : Nat}
    (h : Emulator.Within size limit e.outputText t.screen) : t.snapshot.Genuine all := by
  obtain ⟨p, hshows, rest, hrest⟩ := h
  intro m e' he' hodd
  have hm : m = n := by
    have hsame : t.epoch = 2 * m + 1 := hodd
    omega
  subst hm
  rw [hall, Option.some.injEq] at he'
  subst he'
  have htext : t.snapshot.text = p.text := hshows.plainText hpos
  have hlength := congrArg byteLength hrest
  rw [byteLength_append] at hlength
  rw [htext]
  exact Nat.le_trans p.byteLength_text_le (by omega)

theorem Settings.columns_pos (s : Settings) : 0 < s.size.columns :=
  Nat.lt_of_lt_of_le Nat.one_pos (Nat.le_max_right _ _)

theorem Settings.rows_pos (s : Settings) : 0 < s.size.rows :=
  Nat.lt_of_lt_of_le Nat.one_pos (Nat.le_max_right _ _)

theorem Episode.printable_marks : (∀ c ∈ promptMark, Printable c) ∧
    (∀ c ∈ inputMark, Printable c) ∧ ∀ c ∈ outputMark, Printable c := by
  decide

theorem Episode.printable_exitMark (exitCode : Int) : ∀ c ∈ exitMark exitCode, Printable c := by
  intro c hc
  rcases List.mem_append.mp hc with hc | hc
  · have hfixed : ∀ c ∈ "133;D;".toList, Printable c := by decide
    exact hfixed c hc
  · exact (mem_decimal hc).1

-- The marker that ends a command is short enough to be held.
theorem Episode.length_exitMark_le {exitCode : Int} (hlow : -0x80000000 ≤ exitCode)
    (hhigh : exitCode ≤ 0x7FFFFFFF) : (exitMark exitCode).length ≤ MarkerDecoder.capacity := by
  have hdigits := length_decimal_le hlow hhigh
  have hcapacity : MarkerDecoder.capacity = 4096 := rfl
  have hlength : (exitMark exitCode).length = 6 + (decimal exitCode).length := List.length_append
  omega

theorem Text.ne_escape_of_mem_encode {t : Text} (h : ∀ c ∈ t, Printable c) :
    ∀ b ∈ Utf8.encode t, b ≠ 0x1B := by
  rintro b hb rfl
  exact absurd (mem_encode h hb).1 (by decide)

theorem Episode.ne_escape_of_mem_entered {typed : List UInt8} (h : ∀ b ∈ typed, b ≠ 0x1B) :
    ∀ b ∈ typed ++ lineEnd, b ≠ 0x1B := by
  intro b hb
  rcases List.mem_append.mp hb with hb | hb
  · exact h b hb
  · rintro rfl
    revert hb
    decide

theorem Episode.ne_escape_of_mem_lineBytes {line : Text} (h : ∀ c ∈ line, Printable c) :
    ∀ b ∈ lineBytes line, b ≠ 0x1B := ne_escape_of_mem_entered (ne_escape_of_mem_encode h)

theorem Episode.ne_escape_of_mem_lines {lines : List Text}
    (h : ∀ line ∈ lines, ∀ c ∈ line, Printable c) : ∀ b ∈ lines.flatMap lineBytes, b ≠ 0x1B := by
  intro b hb
  obtain ⟨line, hline, hb⟩ := List.mem_flatMap.mp hb
  exact ne_escape_of_mem_lineBytes (h line hline) b hb

theorem Emulator.Poised.of_alike {e e' : Emulator} {size : ScreenSize} {limit : Nat} {p : Page}
    (h : e.Poised size limit p) (halike : e.Alike e') : e'.Poised size limit p := by
  obtain ⟨replies, hscreen⟩ := halike.screen
  refine ⟨?_, ?_, ?_, ?_⟩
  · rw [halike.control, h.control]
  · rw [halike.held, h.held]
  · rw [hscreen]
    exact h.shows.congr rfl rfl ⟨rfl, rfl⟩ rfl
  · rw [hscreen]
    exact ⟨h.atEnd.column, h.atEnd.needsWrap⟩

namespace Reading

-- What comes of reading some bytes one by one: what is told, what snapshots show on the way, and that
-- the stream goes on being calm.
structure Passes (r : Reading) (Q : Snapshot → Prop) (bytes : List UInt8) (events : List Event) :
    Prop where
  events : (r.readBytes bytes).2.map Notice.event = events
  shown : ∀ front back, bytes = front ++ back → Q (r.after front).terminal.snapshot
  calm : ∀ rest, (r.after bytes).Calm rest → r.Calm (bytes ++ rest)

section Passing

variable {r : Reading} {Q : Snapshot → Prop} {first second : List UInt8}
  {events events' : List Event}

theorem Passes.nil (h : Q r.terminal.snapshot) : r.Passes Q [] [] := by
  refine ⟨rfl, ?_, fun rest hrest => hrest⟩
  intro front back hbytes
  obtain ⟨rfl, -⟩ := List.append_eq_nil_iff.mp hbytes.symm
  exact h

theorem Passes.append (h : r.Passes Q first events) (h' : (r.after first).Passes Q second events') :
    r.Passes Q (first ++ second) (events ++ events') := by
  refine ⟨?_, ?_, ?_⟩
  · rw [readBytes_append, List.map_append, h.events, h'.events]
  · intro front back hbytes
    rcases List.append_eq_append_iff.mp hbytes with ⟨middle, rfl, hsecond⟩ | ⟨middle, hfirst, -⟩
    · rw [after_append]
      exact h'.shown middle back hsecond
    · exact h.shown front middle hfirst
  · intro rest hrest
    rw [after_append] at hrest
    rw [List.append_assoc]
    exact h.calm _ (h'.calm rest hrest)

theorem Passes.unambiguous {bytes : List UInt8} (h : r.Passes Q bytes events)
    (hreported : r.decoder.shell.reportedCommand = none) : r.Unambiguous bytes := by
  have hend : (r.after bytes).Calm [] := by
    intro front b back notice hstream
    cases front <;> cases hstream
  have hcalm := h.calm [] hend
  rw [List.append_nil] at hcalm
  exact hcalm.unambiguous hreported

end Passing

-- The reading that acts on a marker behind plain output.
def marked (r : Reading) (bytes : List UInt8) (m : Marker) : Reading :=
  { r with decoder := { r.decoder with shell := r.decoder.shell.apply (.ofMarker m) } }.print bytes

-- Of a marker nothing is written.
theorem marked_emulator {r : Reading} {plain : List UInt8} {payload : Text} {m : Marker}
    (hcontrol : (r.terminal.emulator.feed plain).control = .start)
    (hheld : (r.terminal.emulator.feed plain).held = none)
    (hpayload : ∀ c ∈ payload, Printable c) :
    (r.marked (plain ++ mark payload) m).terminal.emulator = r.terminal.emulator.feed plain := by
  obtain ⟨hmark, -⟩ := Emulator.feed_mark hcontrol hheld hpayload
  rw [← hmark, ← Emulator.feed_append]
  exact r.terminal.write_emulator _

-- The terminal with some more bytes in its emulator, as far as snapshots of it go.
theorem snapshot_write (t : Terminal) (bytes : List UInt8) :
    (t.write bytes).snapshot = { t with emulator := t.emulator.feed bytes }.snapshot := by
  have hemulator := t.write_emulator bytes
  have hepoch := t.write_epoch bytes
  simp only [Terminal.snapshot, Terminal.isAlternate, Terminal.screen, hemulator, hepoch]

-- No marker of these names a command, and a start finds nothing running.
structure Simple (r : Reading) (m : Marker) : Prop where
  unnamed : ∀ line, ShellNotice.ofMarker m ≠ .commandLine line
  idle : ShellNotice.ofMarker m = .commandExecuted → r.isRunning = false

theorem passes_mark {r : Reading} {Q : Snapshot → Prop} {plain : List UInt8} {payload : Text}
    {m : Marker} (hbetween : r.decoder.Between) (hplain : ∀ b ∈ plain, b ≠ 0x1B)
    (hpayload : ∀ c ∈ payload, Printable c) (hroom : payload.length ≤ MarkerDecoder.capacity)
    (hmarker : Marker.ofPayload? payload = some m) (hsimple : r.Simple m)
    (hquiet : ∀ front back, plain ++ mark payload = front ++ back →
      Q { r.terminal with emulator := r.terminal.emulator.feed front }.snapshot)
    (hlast : Q ((r.marked (plain ++ mark payload) m).act (.ofMarker m)).1.terminal.snapshot) :
    r.Passes Q (plain ++ mark payload)
        (((r.marked (plain ++ mark payload) m).act (.ofMarker m)).2.map Notice.event) ∧
      ((r.marked (plain ++ mark payload) m).act (.ofMarker m)).1.Alike
        (r.after (plain ++ mark payload)) ∧
      (r.after (plain ++ mark payload)).decoder =
        ((r.marked (plain ++ mark payload) m).act (.ofMarker m)).1.decoder := by
  obtain ⟨hhears, hdecoder⟩ := hbetween.hears_mark hplain hpayload hroom hmarker
  obtain ⟨halike, hafter, hevents⟩ := after_heard hhears
  have hbytes : plain ++ ([0x1B, 0x5D] ++ Utf8.encode payload) ++ [0x07] = plain ++ mark payload := by
    rw [List.append_assoc, mark]
  have hheard : r.heard (plain ++ ([0x1B, 0x5D] ++ Utf8.encode payload)) 0x07 =
      r.marked (plain ++ mark payload) m := by
    rw [heard, hdecoder, hbytes, marked]
  rw [hheard, hbytes] at halike hafter hevents
  refine ⟨⟨hevents, ?_, ?_⟩, halike, hafter⟩
  · intro front back hsplit
    rcases List.eq_nil_or_concat back with rfl | ⟨rest, last, rfl⟩
    · rw [List.append_nil] at hsplit
      rw [← hsplit, halike.terminal.snapshot]
      exact hlast
    · -- before its end the marker only changes the screen
      rw [List.concat_eq_append, ← List.append_assoc] at hsplit
      have hfront := (List.append_inj' (hbytes.trans hsplit) rfl).1
      have hsilent := hhears.silent
      rw [hfront] at hsilent
      have hsame := (after_silent (ShellDecoder.told_eq_nil_append hsilent).1).1.terminal.snapshot
      rw [hsame]
      show Q (r.terminal.write front).snapshot
      rw [snapshot_write]
      exact hquiet front (rest ++ [last]) (hsplit.trans (List.append_assoc _ _ _))
  · intro rest hrest
    rw [← hbytes] at hrest ⊢
    exact calm_of_hears hhears hsimple.unnamed hsimple.idle hrest

-- A reading that shows a page. No command line is known but the typed one.
structure Stands (r : Reading) (settings : Settings) (p : Page) (epoch : Nat) (isRunning : Bool) :
    Prop where
  poised : r.terminal.emulator.Poised settings.size settings.scrollback p
  epoch : r.terminal.epoch = epoch
  between : r.decoder.Between
  unreported : r.decoder.shell.reportedCommand = none
  unsent : r.sentCommand = none
  running : r.isRunning = isRunning

section Stages

variable {r r' : Reading} {settings : Settings} {p q : Page} {epoch n : Nat} {isRunning : Bool}
  {e : Episode} {all : List Episode}

theorem Stands.of_alike (h : r.Stands settings p epoch isRunning) (halike : r.Alike r')
    (hdecoder : r'.decoder = r.decoder) : r'.Stands settings p epoch isRunning := by
  refine ⟨h.poised.of_alike halike.terminal.emulator, halike.terminal.epoch.trans h.epoch, ?_, ?_,
    ?_, ?_⟩
  · rw [hdecoder]
    exact h.between
  · rw [hdecoder, h.unreported]
  · rw [halike.sentCommand, h.unsent]
  · rw [halike.isRunning, h.running]

theorem Stands.marked (h : r.Stands settings p epoch isRunning) {plain : List UInt8}
    {payload : Text} (hpayload : ∀ c ∈ payload, Printable c) {m : Marker}
    (hsimple : r.Simple m)
    (hplain : (r.terminal.emulator.feed plain).Poised settings.size settings.scrollback q) :
    (r.marked (plain ++ mark payload) m).Stands settings q epoch isRunning := by
  have hemulator : (r.marked (plain ++ mark payload) m).terminal.emulator =
      r.terminal.emulator.feed plain := marked_emulator hplain.control hplain.held hpayload
  have hshell : (r.decoder.shell.apply (.ofMarker m)).reportedCommand = none := by
    rw [← h.unreported]
    cases m with
    | commandLine line => exact absurd rfl (hsimple.unnamed line)
    | _ => rfl
  refine ⟨?_, (r.terminal.write_epoch _).trans h.epoch, ⟨h.between.markers, h.between.modes⟩, hshell,
    h.unsent, h.running⟩
  rw [hemulator]
  exact hplain

theorem Stands.reset (h : r.Stands settings p epoch isRunning) :
    r.terminal.clearAll.emulator.Poised settings.size settings.scrollback {} ∧
      r.terminal.clearAll.epoch = epoch + 1 :=
  ⟨h.poised.reset settings.rows_pos settings.columns_pos, congrArg (· + 1) h.epoch⟩

-- The prompt starts.
theorem Stands.reads_promptMark (h : r.Stands settings {} (2 * n) false) (all : List Episode) :
    r.Passes (Snapshot.Genuine all) (mark promptMark) [] ∧
      (r.after (mark promptMark)).Stands settings {} (2 * n) false := by
  have hsimple : r.Simple .promptStart :=
    ⟨by simp [ShellNotice.ofMarker], by simp [ShellNotice.ofMarker]⟩
  have hnothing : (r.terminal.emulator.feed []).Poised settings.size settings.scrollback {} := h.poised
  have hstands := h.marked printable_marks.1 hsimple hnothing
  obtain ⟨hpasses, halike, hdecoder⟩ := passes_mark h.between
    (fun b hb => (List.not_mem_nil hb).elim) printable_marks.1 (by decide) ofPayload?_fixed.1 hsimple
    (fun _ _ _ => Snapshot.genuine_of_even h.epoch) (Snapshot.genuine_of_even hstands.epoch)
  exact ⟨hpasses, hstands.of_alike halike hdecoder⟩

-- The prompt is noted when the input starts.
theorem Stands.reads_prompt (h : r.Stands settings {} (2 * n) false) (he : e.Proper settings)
    (all : List Episode) :
    r.Passes (Snapshot.Genuine all) (Utf8.encode e.prompt ++ mark inputMark) [] ∧
      (r.after (Utf8.encode e.prompt ++ mark inputMark)).Stands settings { last := e.prompt }
        (2 * n) false ∧
      (r.after (Utf8.encode e.prompt ++ mark inputMark)).prompt = some e.prompt := by
  have hsimple : r.Simple .commandStart :=
    ⟨by simp [ShellNotice.ofMarker], by simp [ShellNotice.ofMarker]⟩
  have hpage : Page.type settings.size.columns {} e.prompt = { last := e.prompt } :=
    Page.type_of_short _ _ (by simpa using Nat.le_of_lt he.promptShort)
  obtain ⟨htyped, -⟩ := h.poised.feed_text settings.columns_pos he.prompt (by
    rw [hpage, Page.height]
    exact Nat.le_trans settings.rows_pos (Nat.le_add_left _ _)) (List.prefix_append _ [])
  rw [hpage] at htyped
  have hstands := h.marked printable_marks.2.1 hsimple htyped
  have hshown : (r.marked (Utf8.encode e.prompt ++ mark inputMark)
      .commandStart).terminal.textToCursor = e.prompt :=
    hstands.poised.shows.textToCursor_eq_typed hstands.poised.atEnd he.promptShort
  have hprompt : (r.marked (Utf8.encode e.prompt ++ mark inputMark) .commandStart).notePrompt =
      { r.marked (Utf8.encode e.prompt ++ mark inputMark) .commandStart with
        prompt := some e.prompt } := by
    rw [notePrompt, hshown, if_neg (by simpa using he.promptShown)]
  obtain ⟨hpasses, halike, hdecoder⟩ := passes_mark h.between
    (ne_escape_of_mem_encode he.prompt) printable_marks.2.1 (by decide) ofPayload?_fixed.2.1
    hsimple (fun _ _ _ => Snapshot.genuine_of_even h.epoch) (Snapshot.genuine_of_even hstands.epoch)
  have hacted : ((r.marked (Utf8.encode e.prompt ++ mark inputMark) .commandStart).act
      (.ofMarker .commandStart)).1.Stands settings { last := e.prompt } (2 * n) false :=
    ⟨hstands.poised, hstands.epoch, hstands.between, hstands.unreported, hstands.unsent,
      hstands.running⟩
  refine ⟨hpasses, hacted.of_alike halike hdecoder, halike.prompt.trans ?_⟩
  exact congrArg Reading.prompt hprompt

-- What was typed behind the prompt names the command.
theorem Stands.nextCommand_eq (h : r.Stands settings p epoch false) (hprompt : r.prompt = some e.prompt)
    (htext : p.text = e.prompt ++ e.command ++ ['\n']) (he : e.Proper settings) :
    r.nextCommand = some e.command := by
  have hidle : r.interrupted = r := interrupted_of_idle h.running
  have hplain : r.terminal.plainText = p.text := h.poised.shows.plainText settings.columns_pos
  rw [nextCommand, h.unreported, unreportedCommand, hidle, hplain, htext, hprompt,
    typedCommand_append he.promptShown he.commandTrimmed he.commandGiven]
  rfl

theorem Stands.started (h : r.Stands settings p epoch false) :
    (r.act .commandExecuted).1.Stands settings {} (epoch + 1) true ∧
      (r.act .commandExecuted).2.map Notice.event =
        [.commandStarted r.nextCommand r.prompt (epoch + 1)] := by
  obtain ⟨hreset, hepoch⟩ := h.reset
  have hidle : r.interrupted = r := interrupted_of_idle h.running
  have hterminal : r.started.terminal = r.terminal.clearAll := by
    rw [Reading.started, hidle]
    rfl
  refine ⟨?_, ?_⟩
  · rw [act, startCommand_fst]
    exact ⟨hterminal ▸ hreset, hterminal ▸ hepoch, ⟨h.between.markers, h.between.modes⟩, rfl, rfl, rfl⟩
  · rw [act, startCommand_events, h.running, hterminal, hepoch]
    rfl

theorem Stands.finished (h : r.Stands settings p epoch true) (exitCode : Int) :
    (r.act (.commandFinished exitCode)).1.Stands settings {} (epoch + 1) false ∧
      (r.act (.commandFinished exitCode)).2.map Notice.event =
        [.commandFinished exitCode r.terminal.snapshot] := by
  obtain ⟨hreset, hepoch⟩ := h.reset
  rw [act, finishCommand, if_pos h.running]
  exact ⟨⟨hreset, hepoch, h.between, h.unreported, h.unsent, rfl⟩, rfl⟩

-- The command is typed behind its prompt.
theorem Stands.poised_typed (h : r.Stands settings { last := e.prompt } epoch isRunning)
    (he : e.Proper settings) :
    ∃ q : Page, q.text = e.prompt ++ e.command ++ ['\n'] ∧
      (r.terminal.emulator.feed (lineBytes e.command)).Poised settings.size settings.scrollback q := by
  have hend : (e.prompt ++ e.command).getLast? ≠ some ' ' := by
    rw [List.getLast?_append_of_ne_nil _ he.commandGiven]
    exact getLast?_ne_space (trimEnd_of_trim he.commandTrimmed)
  have hpage : Page.typeLine settings.size.columns { last := e.prompt } e.command =
      Page.typeLine settings.size.columns {} (e.prompt ++ e.command) := by
    have hshort : Page.type settings.size.columns {} e.prompt = { last := e.prompt } :=
      Page.type_of_short _ _ (by simpa using Nat.le_of_lt he.promptShort)
    rw [Page.typeLine, Page.typeLine, Page.type_append, hshort]
  obtain ⟨hline, -⟩ := h.poised.feed_line settings.columns_pos he.command hend (by
    have hheight := Page.height_typeLine (p := {}) rfl settings.columns_pos (e.prompt ++ e.command)
    rw [hpage, Page.typeLine, hheight, Nat.add_comm]
    exact he.inputFits) (List.prefix_append _ [])
  refine ⟨_, ?_, hline⟩
  have hlast : (Page.typeLine settings.size.columns { last := e.prompt }
      e.command).last.getLast? ≠ some ' ' := by simp [Page.typeLine]
  rw [Page.text_eq_typed hlast, Page.typed_typeLine settings.size.columns hend]
  rfl

-- The command starts with what was typed as its name.
theorem Stands.reads_command (h : r.Stands settings { last := e.prompt } (2 * n) false)
    (hprompt : r.prompt = some e.prompt) (he : e.Proper settings) (hall : all[n]? = some e) :
    r.Passes (Snapshot.Genuine all) (lineBytes e.command ++ mark outputMark)
        [.commandStarted (some e.command) (some e.prompt) (2 * n + 1)] ∧
      (r.after (lineBytes e.command ++ mark outputMark)).Stands settings {} (2 * n + 1) true := by
  have hsimple : r.Simple .commandExecuted := ⟨by simp [ShellNotice.ofMarker], fun _ => h.running⟩
  obtain ⟨q, htext, htyped⟩ := h.poised_typed he
  have hstands := h.marked printable_marks.2.2 hsimple htyped
  obtain ⟨hstarted, hevents⟩ := hstands.started
  have hnoted : (r.marked (lineBytes e.command ++ mark outputMark) .commandExecuted).prompt =
      some e.prompt := hprompt
  rw [hstands.nextCommand_eq hnoted htext he, hnoted] at hevents
  have hplain : ∀ b ∈ lineBytes e.command, b ≠ 0x1B := ne_escape_of_mem_lineBytes he.command
  have hblank : (((r.marked (lineBytes e.command ++ mark outputMark) .commandExecuted).act
      .commandExecuted).1.terminal.snapshot).Genuine all :=
    Snapshot.genuine_of_within hall hstarted.epoch settings.columns_pos
      ⟨{}, hstarted.poised.shows, List.nil_prefix⟩
  obtain ⟨hpasses, halike, hdecoder⟩ := passes_mark (Q := Snapshot.Genuine all) h.between hplain
    printable_marks.2.2 (by decide) ofPayload?_fixed.2.2 hsimple
    (fun _ _ _ => Snapshot.genuine_of_even h.epoch) hblank
  refine ⟨?_, hstarted.of_alike halike hdecoder⟩
  rwa [ShellNotice.ofMarker, hevents] at hpasses

-- The output is written on an empty screen, which never shows more of it than there is.
theorem Stands.poised_written (h : r.Stands settings {} epoch isRunning) (he : e.Proper settings) :
    ∃ q : Page, q.text = e.outputText ∧
      (r.terminal.emulator.feed (e.output.flatMap lineBytes)).Poised settings.size
        settings.scrollback q ∧
      r.terminal.emulator.Throughout (Emulator.Within settings.size settings.scrollback e.outputText)
        (e.output.flatMap lineBytes ++ mark (exitMark e.exitCode)) := by
  have hlines : ∀ line ∈ e.output, (∀ c ∈ line, Printable c) ∧ line.getLast? ≠ some ' ' :=
    fun line hline => ⟨he.output line hline, getLast?_ne_space (he.outputTrimmed line hline)⟩
  obtain ⟨hwritten, hthroughout⟩ := h.poised.feed_lines settings.columns_pos rfl hlines (by
    rw [Page.height_typeLines rfl settings.columns_pos, Nat.add_comm]
    exact he.outputFits) (List.prefix_refl e.outputText)
  obtain ⟨htyped, hlast⟩ := Page.typed_typeLines (p := {}) settings.size.columns rfl
    fun line hline => (hlines line hline).2
  obtain ⟨-, hstill⟩ := Emulator.feed_mark hwritten.control hwritten.held
    (printable_exitMark e.exitCode)
  refine ⟨_, ?_, hwritten, hthroughout.append fun front back hsplit => ?_⟩
  · rw [Page.text_eq_typed (by simp [hlast]), htyped]
    rfl
  · rw [hstill front back hsplit]
    exact ⟨_, hwritten.shows, htyped ▸ List.prefix_refl _⟩

-- The command finishes with all of its output on the screen.
theorem Stands.reads_output (h : r.Stands settings {} (2 * n + 1) true) (he : e.Proper settings)
    (hall : all[n]? = some e) :
    ∃ output : Snapshot, output.text = e.outputText ∧ output.alternate = false ∧
      output.epoch = 2 * n + 1 ∧ output.RangesInside ∧
      r.Passes (Snapshot.Genuine all) (e.output.flatMap lineBytes ++ mark (exitMark e.exitCode))
        [.commandFinished e.exitCode output] ∧
      (r.after (e.output.flatMap lineBytes ++ mark (exitMark e.exitCode))).Stands settings {}
        (2 * (n + 1)) false := by
  have hsimple : r.Simple (.commandFinished (some e.exitCode)) :=
    ⟨by simp [ShellNotice.ofMarker], by simp [ShellNotice.ofMarker]⟩
  obtain ⟨q, htext, hwritten, hquiet⟩ := h.poised_written he
  have hstands := h.marked (printable_exitMark e.exitCode) hsimple hwritten
  obtain ⟨hfinished, hevents⟩ := hstands.finished e.exitCode
  obtain ⟨hpasses, halike, hdecoder⟩ := passes_mark (Q := Snapshot.Genuine all) h.between
    (ne_escape_of_mem_lines he.output) (printable_exitMark e.exitCode)
    (length_exitMark_le he.lowExit he.highExit)
    (ofPayload?_exitMark he.lowExit he.highExit) hsimple
    (fun front back hsplit => Snapshot.genuine_of_within hall h.epoch settings.columns_pos
      (hquiet front back hsplit))
    (Snapshot.genuine_of_even (n := n + 1) hfinished.epoch)
  refine ⟨(r.marked (e.output.flatMap lineBytes ++ mark (exitMark e.exitCode))
    (.commandFinished (some e.exitCode))).terminal.snapshot, ?_, ?_, hstands.epoch,
    Terminal.snapshot_rangesInside _, ?_, hfinished.of_alike halike hdecoder⟩
  · exact (hstands.poised.shows.plainText settings.columns_pos).trans htext
  · exact hstands.poised.shows.plain.isAlternate
  · rwa [ShellNotice.ofMarker, Option.getD_some, hevents] at hpasses

theorem stands_new (settings : Settings) (echo : EchoPredictor) :
    Stands { terminal := .new settings.size settings.scrollback, echo } settings {} 0 false :=
  ⟨Emulator.poised_new settings.size settings.scrollback settings.rows_pos settings.columns_pos, rfl,
    ⟨rfl, rfl⟩, rfl, rfl, rfl⟩

theorem Stands.reads_episode (h : r.Stands settings {} (2 * n) false) (he : e.Proper settings)
    (hall : all[n]? = some e) :
    ∃ output : Snapshot, output.text = e.outputText ∧ output.alternate = false ∧
      output.epoch = 2 * n + 1 ∧ output.RangesInside ∧
      r.Passes (Snapshot.Genuine all) e.bytes [.commandStarted (some e.command) (some e.prompt)
        (2 * n + 1), .commandFinished e.exitCode output] ∧
      (r.after e.bytes).Stands settings {} (2 * (n + 1)) false := by
  obtain ⟨hpasses₁, hstands₁⟩ := h.reads_promptMark all
  obtain ⟨hpasses₂, hstands₂, hprompt⟩ := hstands₁.reads_prompt he all
  obtain ⟨hpasses₃, hstands₃⟩ := hstands₂.reads_command hprompt he hall
  obtain ⟨output, htext, hmain, hepoch, hinside, hpasses₄, hstands₄⟩ :=
    hstands₃.reads_output he hall
  have hbytes : e.bytes = mark promptMark ++ ((Utf8.encode e.prompt ++ mark inputMark) ++
      ((lineBytes e.command ++ mark outputMark) ++
        (e.output.flatMap lineBytes ++ mark (exitMark e.exitCode)))) := by
    rw [Episode.bytes, List.append_assoc, List.append_assoc]
  rw [hbytes, after_append, after_append, after_append]
  exact ⟨output, htext, hmain, hepoch, hinside,
    hpasses₁.append (hpasses₂.append (hpasses₃.append hpasses₄)), hstands₄⟩

-- By induction on the commands that are still to come.
theorem Stands.reads_script {done todo : List Episode}
    (h : r.Stands settings {} (2 * done.length) false)
    (htodo : ∀ e ∈ todo, e.Proper settings) :
    ∃ events, Announced done.length todo events ∧
      r.Passes (Snapshot.Genuine (done ++ todo)) (todo.flatMap Episode.bytes) events := by
  induction todo generalizing r done with
  | nil =>
    exact ⟨[], .nothing _, .nil (Snapshot.genuine_of_even h.epoch)⟩
  | cons e todo ih =>
    have hall : (done ++ e :: todo)[done.length]? = some e := by simp
    obtain ⟨output, htext, hmain, hepoch, hinside, hpasses, hstands⟩ :=
      h.reads_episode (htodo e List.mem_cons_self) hall
    have hlength : (done ++ [e]).length = done.length + 1 := by simp
    rw [← hlength] at hstands
    obtain ⟨events, hannounced, hrest⟩ :=
      ih hstands fun d hd => htodo d (List.mem_cons_of_mem _ hd)
    rw [hlength] at hannounced
    rw [List.append_assoc, List.singleton_append] at hrest
    exact ⟨_, .command htext hmain hepoch hinside hannounced, hpasses.append hrest⟩

end Stages

end Reading

end ShellTranscript
