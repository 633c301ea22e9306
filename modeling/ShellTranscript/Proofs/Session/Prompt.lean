import Mathlib.Tactic.Common
import ShellTranscript.Proofs.Screen.Lines
import ShellTranscript.Proofs.Session.Episodes

-- The prompt that is told with a command. It is everything from the oldest row down to the cursor at
-- the moment when the input starts, so that lines which stand above the prompt since the last reset
-- are told with it.
namespace ShellTranscript

open Text Signal Episode

namespace ShellDecoder

-- A marker behind plain output is all that is told of both.
theorem Between.told_mark {d : ShellDecoder} (h : d.Between) {plain : List UInt8}
    (hplain : ∀ b ∈ plain, b ≠ 0x1B) {payload : Text} (hpayload : ∀ c ∈ payload, Printable c)
    (hroom : payload.length ≤ MarkerDecoder.capacity) {m : Marker}
    (hmarker : Marker.ofPayload? payload = some m) :
    d.told (plain ++ mark payload) = [.ofMarker m] ∧
      (d.feed (plain ++ mark payload)).1.Between := by
  obtain ⟨hhears, hdecoder⟩ := h.hears_mark hplain hpayload hroom hmarker
  have hbytes : plain ++ mark payload =
      plain ++ ([0x1B, 0x5D] ++ Utf8.encode payload) ++ [0x07] := by
    rw [mark, List.append_assoc plain]
  refine ⟨?_, ?_⟩
  · rw [hbytes, told_concat hhears.tells, hhears.silent, List.nil_append]
  · have hfeed : (d.feed (plain ++ mark payload)).1 =
        ((d.feed (plain ++ ([0x1B, 0x5D] ++ Utf8.encode payload))).1.step 0x07).1 := by
      rw [hbytes, feed_append]
      rfl
    rw [hfeed, hdecoder]
    exact ⟨h.markers, h.modes⟩

end ShellDecoder

namespace Reading

-- Nothing comes after a start that is the last thing told.
theorem unambiguous_of_told {r : Reading} {front : List UInt8} (b : UInt8)
    (h : .commandExecuted ∉ r.decoder.told front) : r.Unambiguous (front ++ [b]) := by
  intro before c back hstream hstart
  rcases List.eq_nil_or_concat back with rfl | ⟨middle, last, rfl⟩
  · refine ⟨⟨fun line hline => ?_, fun _ code hcode => ?_⟩, fun front' c' back' hnone => ?_⟩
    · cases hline
    · cases hcode
    · cases front' <;> cases hnone
  · rw [List.concat_eq_append, ← List.cons_append, ← List.append_assoc] at hstream
    obtain ⟨rfl, -⟩ := List.append_inj' hstream rfl
    have hstep := ((r.after_inStep before).step c).2
    rw [hstart] at hstep
    refine absurd ?_ h
    rw [ShellDecoder.told_append, ShellDecoder.told_cons, ← hstep]
    simp

-- No command runs, and the screen goes on behind a page.
structure Awaits (r : Reading) (size : ScreenSize) (limit : Nat) (p : Page) : Prop where
  poised : r.terminal.emulator.Poised size limit p
  between : r.decoder.Between
  idle : r.isRunning = false

section Awaiting

variable {r r' : Reading} {size : ScreenSize} {limit : Nat} {p q : Page} {plain : List UInt8}
  {payload : Text} {m : Marker}

theorem Awaits.of_alike (h : r.Awaits size limit p) (halike : r.Alike r')
    (hdecoder : r'.decoder = r.decoder) : r'.Awaits size limit p :=
  ⟨h.poised.of_alike halike.terminal.emulator, hdecoder ▸ h.between, halike.isRunning.trans h.idle⟩

-- What is written before a marker is there when the marker is acted on.
theorem Awaits.marked (h : r.Awaits size limit p) (hpayload : ∀ c ∈ payload, Printable c) (m : Marker)
    (hplain : (r.terminal.emulator.feed plain).Poised size limit q) :
    (r.marked (plain ++ mark payload) m).Awaits size limit q := by
  refine ⟨?_, ⟨h.between.markers, h.between.modes⟩, h.idle⟩
  rw [marked_emulator hplain.control hplain.held hpayload]
  exact hplain

theorem awaits_new (size : ScreenSize) (limit : Nat) (echo : EchoPredictor) (hrows : 0 < size.rows)
    (hpos : 0 < size.columns) :
    Awaits { terminal := .new size limit, echo } size limit {} :=
  ⟨Emulator.poised_new size limit hrows hpos, ⟨rfl, rfl⟩, rfl⟩

theorem Awaits.reset (h : r.Awaits size limit p) (hrows : 0 < size.rows) (hpos : 0 < size.columns) :
    r.reset.Awaits size limit {} :=
  ⟨h.poised.reset hrows hpos, h.between, h.idle⟩

theorem Awaits.reads_mark (h : r.Awaits size limit p) (hplain : ∀ b ∈ plain, b ≠ 0x1B)
    (hpayload : ∀ c ∈ payload, Printable c) (hroom : payload.length ≤ MarkerDecoder.capacity)
    (hmarker : Marker.ofPayload? payload = some m) (hsimple : r.Simple m) :
    ((r.marked (plain ++ mark payload) m).act (.ofMarker m)).1.Alike
        (r.after (plain ++ mark payload)) ∧
      (r.after (plain ++ mark payload)).decoder =
        ((r.marked (plain ++ mark payload) m).act (.ofMarker m)).1.decoder ∧
      (r.readBytes (plain ++ mark payload)).2.map Notice.event =
        ((r.marked (plain ++ mark payload) m).act (.ofMarker m)).2.map Notice.event := by
  obtain ⟨hpasses, halike, hdecoder⟩ := passes_mark (Q := fun _ => True) h.between hplain hpayload
    hroom hmarker hsimple (fun _ _ _ => trivial) trivial
  exact ⟨halike, hdecoder, hpasses.events⟩

theorem marked_epoch (r : Reading) (bytes : List UInt8) (m : Marker) :
    (r.marked bytes m).terminal.epoch = r.terminal.epoch := r.terminal.write_epoch bytes

-- The lines above the prompt.
theorem Awaits.reads_lines (h : r.Awaits size limit {}) (hpos : 0 < size.columns) {lines : List Text}
    (hlines : ∀ line ∈ lines, ∀ c ∈ line, Printable c) :
    (r.after (lines.flatMap lineBytes ++ mark promptMark)).Awaits size limit
        ((Page.typeLines size.columns {} lines).newest (limit + size.rows)) ∧
      (r.after (lines.flatMap lineBytes ++ mark promptMark)).terminal.epoch = r.terminal.epoch ∧
      (r.readBytes (lines.flatMap lineBytes ++ mark promptMark)).2.map Notice.event = [] := by
  have hwritten := h.poised.feed_rows hpos fun line hline c hc =>
    cellWidth?_of_ascii (hlines line hline c hc).1 (hlines line hline c hc).2
  have hmarked := h.marked printable_marks.1 .promptStart hwritten
  obtain ⟨halike, hdecoder, hevents⟩ := h.reads_mark (ne_escape_of_mem_lines hlines)
    printable_marks.1 (by decide) ofPayload?_fixed.1
    ⟨by simp [ShellNotice.ofMarker], by simp [ShellNotice.ofMarker]⟩
  exact ⟨hmarked.of_alike halike hdecoder, halike.terminal.epoch.trans (r.marked_epoch _ _), hevents⟩

-- A short prompt on an empty row, noted together with the rows above it.
theorem Awaits.reads_prompt (h : r.Awaits size limit p) (hlast : p.last = []) {prompt : Text}
    (hprompt : ∀ c ∈ prompt, Printable c) (hshown : trim prompt ≠ [])
    (hshort : prompt.length < size.columns) :
    (r.after (Utf8.encode prompt ++ mark inputMark)).Awaits size limit { p with last := prompt } ∧
      (r.after (Utf8.encode prompt ++ mark inputMark)).prompt = some (p.textAbove ++ prompt) ∧
      (r.after (Utf8.encode prompt ++ mark inputMark)).terminal.epoch = r.terminal.epoch ∧
      (r.readBytes (Utf8.encode prompt ++ mark inputMark)).2.map Notice.event = [] := by
  have hpos : 0 < size.columns := Nat.lt_of_le_of_lt (Nat.zero_le _) hshort
  have hpage : p.type size.columns prompt = { p with last := prompt } := by
    rw [Page.type_of_short _ _ (by rw [hlast, List.length_nil, Nat.zero_add]; exact Nat.le_of_lt hshort),
      hlast, List.nil_append]
  have hheight : (p.type size.columns prompt).height ≤ limit + size.rows := by
    rw [hpage]
    exact h.poised.shows.height_le
  have hwritten := h.poised.feed_chars hpos fun c hc =>
    cellWidth?_of_ascii (hprompt c hc).1 (hprompt c hc).2
  rw [Page.newest_of_le hheight, hpage] at hwritten
  have hmarked := h.marked printable_marks.2.1 .commandStart hwritten
  have htext : (r.marked (Utf8.encode prompt ++ mark inputMark) .commandStart).terminal.textToCursor =
      p.textAbove ++ prompt :=
    hmarked.poised.shows.textToCursor_eq_typed hmarked.poised.atEnd hshort
  -- the character that the prompt shows is also in the whole text
  have hnot : trim (p.textAbove ++ prompt) ≠ [] := by
    obtain ⟨c, hc, hblank⟩ : ∃ c ∈ prompt, isBlank c = false := by
      by_contra hnone
      push Not at hnone
      exact hshown (trim_eq_nil fun c hc => Bool.of_not_eq_false (hnone c hc))
    exact trim_ne_nil (List.mem_append_right _ hc) hblank
  have hnoted : (r.marked (Utf8.encode prompt ++ mark inputMark) .commandStart).notePrompt =
      { r.marked (Utf8.encode prompt ++ mark inputMark) .commandStart with
        prompt := some (p.textAbove ++ prompt) } := by
    rw [notePrompt, htext, if_neg (by simpa using hnot)]
  obtain ⟨halike, hdecoder, hevents⟩ := h.reads_mark (ne_escape_of_mem_encode hprompt)
    printable_marks.2.1 (by decide) ofPayload?_fixed.2.1
    ⟨by simp [ShellNotice.ofMarker], by simp [ShellNotice.ofMarker]⟩
  have hawaits : ((r.marked (Utf8.encode prompt ++ mark inputMark) .commandStart).act
      (.ofMarker .commandStart)).1.Awaits size limit { p with last := prompt } :=
    ⟨hmarked.poised, hmarked.between, hmarked.idle⟩
  exact ⟨hawaits.of_alike halike hdecoder,
    halike.prompt.trans (congrArg Reading.prompt hnoted),
    halike.terminal.epoch.trans (r.marked_epoch _ _), hevents⟩

-- Whatever was typed, the command starts with the prompt that was noted.
theorem Awaits.reads_command (h : r.Awaits size limit p) (hplain : ∀ b ∈ plain, b ≠ 0x1B) :
    ∃ name, (r.readBytes (plain ++ mark outputMark)).2.map Notice.event =
      [.commandStarted name r.prompt (r.terminal.epoch + 1)] := by
  obtain ⟨-, -, hevents⟩ := h.reads_mark hplain printable_marks.2.2 (by decide)
    ofPayload?_fixed.2.2 ⟨by simp [ShellNotice.ofMarker], fun _ => h.idle⟩
  have hidle : (r.marked (plain ++ mark outputMark) .commandExecuted).isRunning = false := h.idle
  have hepoch : (r.marked (plain ++ mark outputMark) .commandExecuted).started.terminal.epoch =
      r.terminal.epoch + 1 := by
    rw [Reading.started, interrupted_of_idle hidle]
    exact congrArg (· + 1) (r.marked_epoch _ _)
  refine ⟨(r.marked (plain ++ mark outputMark) .commandExecuted).nextCommand, ?_⟩
  rw [hevents, ShellNotice.ofMarker, act, startCommand_events, hidle, hepoch]
  rfl

-- The only start in these bytes is told at their end.
theorem unambiguous_prompted (hbetween : r.decoder.Between) {first second : List UInt8}
    (hfirst : ∀ b ∈ first, b ≠ 0x1B) (hsecond : ∀ b ∈ second, b ≠ 0x1B)
    (hplain : ∀ b ∈ plain, b ≠ 0x1B) :
    r.Unambiguous (first ++ mark promptMark ++ (second ++ mark inputMark) ++
      (plain ++ mark outputMark)) := by
  obtain ⟨htold₁, hbetween₁⟩ := hbetween.told_mark hfirst printable_marks.1 (by decide)
    ofPayload?_fixed.1
  obtain ⟨htold₂, hbetween₂⟩ := hbetween₁.told_mark hsecond printable_marks.2.1 (by decide)
    ofPayload?_fixed.2.1
  obtain ⟨hhears, -⟩ := hbetween₂.hears_mark hplain printable_marks.2.2 (by decide)
    ofPayload?_fixed.2.2
  generalize first ++ mark promptMark = first at *
  generalize second ++ mark inputMark = second at *
  have hbytes : plain ++ mark outputMark =
      plain ++ ([0x1B, 0x5D] ++ Utf8.encode outputMark) ++ [0x07] := by
    rw [mark, List.append_assoc plain]
  rw [hbytes, ← List.append_assoc (first ++ second)]
  refine unambiguous_of_told 0x07 ?_
  rw [ShellDecoder.told_append, ShellDecoder.told_append, ShellDecoder.feed_append, htold₁, htold₂,
    hhears.silent]
  decide

end Awaiting

end Reading

namespace Page

-- Lines leave something above the next row, unless only one row is kept.
theorem textAbove_newest_typeLines (columns : Nat) {n : Nat} (hpos : 0 < n) (lines : List Text) :
    ((Page.typeLines columns {} lines).newest n).textAbove = [] ↔ lines = [] ∨ n = 1 := by
  rcases List.eq_nil_or_concat lines with rfl | ⟨front, line, rfl⟩
  · refine iff_of_true ?_ (Or.inl rfl)
    rw [typeLines, List.foldl_nil, textAbove, newest, List.rtake_nil]
    rfl
  · have habove : (Page.typeLines columns {} (front ++ [line])).above =
        ((Page.typeLines columns {} front).type columns line).above ++
          [(((Page.typeLines columns {} front).type columns line).last, false)] := by
      rw [typeLines, List.foldl_append]
      rfl
    rw [List.concat_eq_append, textAbove, newest, habove]
    obtain ⟨m, rfl⟩ : ∃ m, n = m + 1 := ⟨n - 1, by omega⟩
    cases m with
    | zero => exact iff_of_true (by rw [List.rtake_zero]; rfl) (Or.inr rfl)
    | succ m =>
      rw [Nat.add_sub_cancel, List.rtake_concat_succ, List.flatMap_append]
      refine iff_of_false ?_ ?_
      · simp [rowText]
      · simp

end Page

namespace Reading

-- With no command running, behind a reset: whatever is typed, the prompt that is told is what is left
-- above it of the lines since then, and the prompt. So it is the prompt exactly if there were no
-- lines, or none is kept.
theorem told_prompt {r : Reading} {size : ScreenSize} {limit : Nat} (hready : r.Awaits size limit {})
    {lines : List Text} (hlines : ∀ line ∈ lines, ∀ c ∈ line, Printable c)
    {prompt : Text} (hprompt : ∀ c ∈ prompt, Printable c) (hshown : trim prompt ≠ [])
    (hshort : prompt.length < size.columns)
    {command : List UInt8} (hcommand : ∀ b ∈ command, b ≠ 0x1B) {chunks : List (List UInt8)}
    (hchunks : chunks.flatten = lines.flatMap lineBytes ++ mark promptMark ++
      (Utf8.encode prompt ++ mark inputMark) ++ (command ++ lineEnd ++ mark outputMark)) :
    ∃ name told, (r.readAll chunks).2.map Notice.event =
        [.commandStarted name (some told) (r.terminal.epoch + 1)] ∧
      told = ((Page.typeLines size.columns {} lines).newest (limit + size.rows)).textAbove ++ prompt ∧
      (told = prompt ↔ lines = [] ∨ limit + size.rows = 1) := by
  have hpos : 0 < size.columns := Nat.lt_of_le_of_lt (Nat.zero_le _) hshort
  have hplaces : 0 < limit + size.rows :=
    Nat.lt_of_lt_of_le (Nat.succ_pos _) hready.poised.shows.height_le
  obtain ⟨hawaits₁, hepoch₁, hevents₁⟩ := hready.reads_lines hpos hlines
  obtain ⟨hawaits₂, hnoted, hepoch₂, hevents₂⟩ := hawaits₁.reads_prompt
    (Page.last_typeLines size.columns rfl lines) hprompt hshown hshort
  obtain ⟨name, hevents₃⟩ := hawaits₂.reads_command (ne_escape_of_mem_entered hcommand)
  refine ⟨name, _, ?_, rfl, ?_⟩
  · have hclear := unambiguous_prompted hready.between (ne_escape_of_mem_lines hlines)
      (ne_escape_of_mem_encode hprompt) (ne_escape_of_mem_entered hcommand)
    have hevents := (readAll_follows (Alike.refl r) (.refl _) chunks).2 (hchunks ▸ hclear) (.refl r _)
    rw [hevents, hchunks, readBytes_append r (_ ++ _) (_ ++ _), readBytes_append r (_ ++ _) (_ ++ _),
      after_append r (_ ++ _) (_ ++ _), List.map_append, List.map_append, hevents₁, hevents₂, hevents₃,
      hnoted, hepoch₂, hepoch₁]
    rfl
  · rw [← Page.textAbove_newest_typeLines size.columns hplaces]
    exact List.append_left_eq_self

-- Below one line, behind a reset, and cut inside the marker that ends the prompt.
theorem told_prompt_below_line : ∃ name,
    (Reading.readAll ({ terminal := .new ⟨20, 4⟩ 10, echo := .new false 0 0 } : Reading).reset
      [lineBytes ['h', 'i'] ++ mark promptMark ++ Utf8.encode ['$', ' '] ++ [0x1B],
        (mark inputMark).tail ++ lineBytes ['l', 's'] ++ mark outputMark]).2.map Notice.event =
      [.commandStarted name (some ['h', 'i', '\n', '$', ' ']) 2] := by
  have hready := (awaits_new ⟨20, 4⟩ 10 (.new false 0 0) (by decide) (by decide)).reset
    (by decide) (by decide)
  have hlines : ∀ line ∈ [['h', 'i']], ∀ c ∈ line, Printable c := by decide
  have hprompt : ∀ c ∈ ['$', ' '], Printable c := by decide
  have hcommand : ∀ b ∈ Utf8.encode ['l', 's'], b ≠ 0x1B := ne_escape_of_mem_encode (by decide)
  have hchunks : [lineBytes ['h', 'i'] ++ mark promptMark ++ Utf8.encode ['$', ' '] ++ [0x1B],
      (mark inputMark).tail ++ lineBytes ['l', 's'] ++ mark outputMark].flatten =
    [['h', 'i']].flatMap lineBytes ++ mark promptMark ++ (Utf8.encode ['$', ' '] ++ mark inputMark) ++
      (Utf8.encode ['l', 's'] ++ lineEnd ++ mark outputMark) := by decide +kernel
  obtain ⟨name, told, hevents, htold, -⟩ :=
    told_prompt hready hlines hprompt (by decide) (by decide) hcommand hchunks
  have habove : ((Page.typeLines 20 {} [['h', 'i']]).newest (10 + 4)).textAbove ++ ['$', ' '] =
      ['h', 'i', '\n', '$', ' '] := by decide +kernel
  rw [habove] at htold
  rw [htold] at hevents
  exact ⟨name, hevents⟩

-- With a line above it, the prompt is not told as it is.
theorem told_prompt_not_alone :
    ¬∀ (r : Reading) (size : ScreenSize) (limit : Nat) (lines : List Text) (prompt command : Text),
      r.Awaits size limit {} → (∀ line ∈ lines, ∀ c ∈ line, Printable c) →
        (∀ c ∈ prompt, Printable c) → trim prompt ≠ [] → prompt.length < size.columns →
          (∀ c ∈ command, Printable c) → ∃ name,
            (r.readAll [lines.flatMap lineBytes ++ mark promptMark ++
              (Utf8.encode prompt ++ mark inputMark) ++
                (lineBytes command ++ mark outputMark)]).2.map Notice.event =
              [.commandStarted name (some prompt) (r.terminal.epoch + 1)] := by
  intro h
  obtain ⟨name, hevents⟩ := h _ ⟨20, 4⟩ 10 [['h', 'i']] ['$', ' '] ['l', 's']
    (awaits_new ⟨20, 4⟩ 10 (.new false 0 0) (by decide) (by decide)) (by decide) (by decide)
    (by decide) (by decide) (by decide)
  have hread : (Reading.readAll { terminal := .new ⟨20, 4⟩ 10, echo := .new false 0 0 }
      [[['h', 'i']].flatMap lineBytes ++ mark promptMark ++ (Utf8.encode ['$', ' '] ++ mark inputMark) ++
        (lineBytes ['l', 's'] ++ mark outputMark)]).2.map Notice.event =
      [.commandStarted (some ['l', 's']) (some ['h', 'i', '\n', '$', ' ']) 1] := by decide +kernel
  rw [hread] at hevents
  simp at hevents

end Reading

end ShellTranscript
