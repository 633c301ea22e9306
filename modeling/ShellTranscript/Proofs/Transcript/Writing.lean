import Mathlib.Tactic.Common
import ShellTranscript.Proofs.Screen.Spans
import ShellTranscript.Proofs.Transcript.LastBlock

-- Writing a command into a transcript: what its block and the text are after the header and after
-- every snapshot.
namespace ShellTranscript

open Text

namespace Transcript

-- The prompt and the command on one line, if there is one of them.
def header (prompt command : Option Text) : Text :=
  prompt.getD [] ++ command.getD [] ++ if prompt.isSome || command.isSome then ['\n'] else []

-- The parts of the header. The line feed belongs to the later one that is there.
def headerParts : Option Text → Option Text → Text × Text
  | some prompt, some command => (prompt, command ++ ['\n'])
  | some prompt, none => (prompt ++ ['\n'], [])
  | none, some command => ([], command ++ ['\n'])
  | none, none => ([], [])

theorem headerParts_append (prompt command : Option Text) :
    (headerParts prompt command).1 ++ (headerParts prompt command).2 = header prompt command := by
  cases prompt <;> cases command <;> simp [headerParts, header]

theorem byteLength_header_le (prompt command : Option Text) :
    byteLength (header (notEmpty prompt) (notEmpty command)) ≤
      byteLength (command.getD []) + byteLength (prompt.getD []) + 1 := by
  have hpart : ∀ part : Option Text,
      byteLength ((notEmpty part).getD []) ≤ byteLength (part.getD []) := by
    intro part
    cases part with
    | none => exact Nat.le_refl _
    | some text =>
      simp only [notEmpty, Option.filter]
      split
      · exact Nat.le_refl _
      · exact Nat.zero_le _
  have hprompt := hpart prompt
  have hcommand := hpart command
  have hfeed : byteLength ['\n'] = 1 := by decide
  simp only [header, byteLength_append]
  split
  · omega
  · rw [byteLength_nil]
    omega

-- A block whose header has been written behind some text.
def headed (b : Block) (before : Text) (parts : Text × Text) : Block :=
  { b with
    commandStart := byteLength (before ++ parts.1)
    outputStart := byteLength (before ++ parts.1 ++ parts.2)
    stop := byteLength (before ++ parts.1 ++ parts.2) }

theorem EndsIn.writeHeader {t : Transcript} {whole : Text} {closed : List Block} {b : Block}
    (h : t.EndsIn whole closed b) (hcommand : b.commandStart = b.stop)
    (houtput : b.outputStart = b.stop) (prompt command : Option Text)
    (hfits : byteLength (whole ++ header prompt command) ≤ maxOffset) :
    ∃ t', t.writeHeader b.id command prompt = .ok t' ∧
      t'.EndsIn (whole ++ header prompt command) closed
        (headed b whole (headerParts prompt command)) ∧
      t'.nextId = t.nextId := by
  have hstop := h.stop
  cases prompt with
  | none =>
    cases command with
    | none =>
      have hsame : headed b whole (headerParts none none) = b := by
        cases b
        simp_all [headed, headerParts]
      rw [hsame]
      exact ⟨t, rfl, by simpa [header] using h, rfl⟩
    | some command =>
      obtain ⟨range, t', happend, hends, hnext⟩ := h.append .command hfits
      have hblock : (b.endingAt (byteLength (whole ++ header none (some command)))).endPart .command =
          headed b whole (headerParts none (some command)) := by
        cases b
        simp_all [headed, headerParts, header, Block.endingAt, Block.endPart]
      refine ⟨t', ?_, hblock ▸ hends, hnext⟩
      have hheader : header none (some command) = command ++ ['\n'] := rfl
      rw [hheader] at happend
      simp only [Transcript.writeHeader, happend, bind, Except.bind, pure, Except.pure]
  | some prompt =>
    cases command with
    | none =>
      obtain ⟨range, t', happend, hends, hnext⟩ := h.append .prompt hfits
      have hblock : (b.endingAt (byteLength (whole ++ header (some prompt) none))).endPart .prompt =
          headed b whole (headerParts (some prompt) none) := by
        simp [headed, headerParts, header, Block.endingAt, Block.endPart]
      refine ⟨t', ?_, hblock ▸ hends, hnext⟩
      have hheader : header (some prompt) none = prompt ++ ['\n'] := by simp [header]
      rw [hheader] at happend
      simp only [Transcript.writeHeader, happend, bind, Except.bind, pure, Except.pure]
    | some command =>
      have hheader : whole ++ header (some prompt) (some command) =
          (whole ++ prompt) ++ (command ++ ['\n']) := by simp [header]
      rw [hheader] at hfits ⊢
      have hprompt : byteLength (whole ++ prompt) ≤ maxOffset := by
        rw [byteLength_append] at hfits
        omega
      obtain ⟨range, t₁, hfirst, hends₁, hnext₁⟩ := h.append .prompt hprompt
      obtain ⟨range', t₂, hsecond, hends₂, hnext₂⟩ := hends₁.append .command hfits
      have hid : ((b.endingAt (byteLength (whole ++ prompt))).endPart .prompt).id = b.id := rfl
      refine ⟨t₂, ?_, ?_, hnext₂.trans hnext₁⟩
      · rw [hid] at hsecond
        simp only [Transcript.writeHeader, hfirst, hsecond, bind, Except.bind, pure, Except.pure]
      · simpa [headed, headerParts, Block.endingAt, Block.endPart] using hends₂

-- A transcript with no open block. A separator that is already there was put behind a laid out text.
structure Rests (t : Transcript) : Prop where
  laid : Laid t.document.text t.blocks
  closed : AllClosed t.blocks
  numbered : t.Numbered
  separator : t.separatorPending = true →
    ∃ s, t.document.text = s ++ ['\n'] ∧ Laid s t.blocks

theorem Rests.of_sameRecord {t t' : Transcript} (h : t.Rests) (hsame : t.SameRecord t') : t'.Rests := by
  refine ⟨?_, ?_, hsame.numbered h.numbered, ?_⟩
  · rw [hsame.text, hsame.blocks]
    exact h.laid
  · rw [hsame.blocks]
    exact h.closed
  · rw [hsame.separatorPending, hsame.text, hsame.blocks]
    exact h.separator

theorem activeBlock?_eq_none {t : Transcript} (h : AllClosed t.blocks) : t.activeBlock? = none := by
  rw [activeBlock?, lastBlock?, Option.filter_eq_none_iff]
  intro b hb
  simp [h b (List.mem_of_getLast? hb)]

theorem allClosed_of_dropLast {t : Transcript} (h : AllClosed t.blocks.dropLast)
    (hactive : t.activeBlock? = none) : AllClosed t.blocks := by
  rw [activeBlock?, lastBlock?, Option.filter_eq_none_iff] at hactive
  intro b hb
  rcases List.eq_nil_or_concat t.blocks with hnil | ⟨front, last, hblocks⟩
  · simp [hnil] at hb
  · rw [List.concat_eq_append] at hblocks
    rw [hblocks] at hb h hactive
    rw [List.dropLast_concat] at h
    rcases List.mem_append.mp hb with hb | hb
    · exact h b hb
    · obtain rfl := List.mem_singleton.mp hb
      simpa using hactive b (by simp)

-- The text that the next block stands behind.
def opening (t : Transcript) : Text :=
  if t.document.text.isEmpty || t.separatorPending then t.document.text
  else t.document.text ++ ['\n']

theorem byteLength_opening_le (t : Transcript) :
    byteLength t.opening ≤ t.document.length + 1 := by
  have hfeed : byteLength ['\n'] = 1 := by decide
  rw [opening, Document.length]
  split
  · omega
  · rw [byteLength_append, hfeed]

-- A text that a block can stand behind.
def Ready (before : Text) (closed : List Block) : Prop :=
  AllClosed closed ∧ ∃ s separator, before = s ++ separator ∧ Laid s closed ∧ Separates s separator

theorem Ready.eq_nil_or {before : Text} {closed : List Block} (h : Ready before closed) :
    before = [] ∨ ∃ s, before = s ++ ['\n'] := by
  obtain ⟨-, s, separator, rfl, -, hsep⟩ := h
  cases hsep with
  | lineFeed => exact Or.inr ⟨s, rfl⟩
  | atStart => exact Or.inl rfl

-- Without the block, and without what separates it, the text before it is laid out.
theorem Ready.laid_dropLast {before : Text} {closed : List Block} (h : Ready before closed) :
    Laid before.dropLast closed := by
  obtain ⟨-, s, separator, rfl, hlaid, hsep⟩ := h
  cases hsep with
  | lineFeed => simpa using hlaid
  | atStart => exact hlaid

theorem Rests.ready {t : Transcript} (h : t.Rests) : Ready t.opening t.blocks := by
  refine ⟨h.closed, ?_⟩
  rw [opening]
  split
  · rename_i hready
    cases htext : t.document.text with
    | nil => exact ⟨[], [], rfl, htext ▸ h.laid, .atStart⟩
    | cons c rest =>
      have hpending : t.separatorPending = true := by simpa [htext] using hready
      obtain ⟨s, hs, hlaid⟩ := h.separator hpending
      exact ⟨s, ['\n'], htext ▸ hs, hlaid, .lineFeed s⟩
  · exact ⟨_, _, rfl, h.laid, .lineFeed _⟩

-- A block with its header, the spans of the header and, if there is a header, a frame.
def startedBlock (t : Transcript) (command prompt : Option Text) : Block :=
  let b := headed (.opened t.nextId (byteLength t.opening) (notEmpty command) (notEmpty prompt))
    t.opening (headerParts (notEmpty prompt) (notEmpty command))
  { b with
    spans := some b.fixedSpans
    frame := if (notEmpty prompt).isSome || (notEmpty command).isSome then
      some { firstBlock := t.blocks.isEmpty } else none }

theorem startedBlock_covers (t : Transcript) (command prompt : Option Text) :
    (t.startedBlock command prompt).Covers t.opening
      (headerParts (notEmpty prompt) (notEmpty command)).1
      (headerParts (notEmpty prompt) (notEmpty command)).2 [] :=
  ⟨rfl, rfl, rfl, by rw [List.append_nil]; rfl⟩

-- A block with the next identity behind all others.
theorem Numbered.concat {t t' : Transcript} {b : Block} (h : t.Numbered)
    (hblocks : t'.blocks = t.blocks ++ [b]) (hid : b.id = t.nextId)
    (hnext : t'.nextId = t.nextId + 1) : t'.Numbered := by
  refine ⟨?_, ?_⟩
  · rw [hblocks, List.map_append, List.pairwise_append]
    refine ⟨h.ascending, by simp, ?_⟩
    intro m hm n hn
    obtain ⟨c, hc, rfl⟩ := List.mem_map.mp hm
    obtain rfl := List.mem_singleton.mp hn
    rw [hid]
    exact h.below c hc
  · intro c hc
    rw [hblocks] at hc
    rw [hnext]
    cases List.mem_append.mp hc with
    | inl hc => exact Nat.lt_succ_of_lt (h.below c hc)
    | inr hc =>
      obtain rfl := List.mem_singleton.mp hc
      rw [hid]
      exact Nat.lt_succ_self _

theorem createBlock_eq {t : Transcript} (hactive : t.activeBlock? = none)
    (command prompt : Option Text) :
    ∃ t', t.createBlock command prompt = .ok (t.nextId, t') ∧ t'.document.text = t.opening ∧
      t'.blocks = t.blocks ++ [.opened t.nextId (byteLength t.opening) command prompt] ∧
      t'.separatorPending = false ∧ t'.nextId = t.nextId + 1 := by
  have htext : (if t.document.text.isEmpty || t.separatorPending then t.document
      else t.document.append ['\n']).text = t.opening := by
    rw [opening]
    split
    · rfl
    · simp [Document.append, Document.tell]
  simp only [Transcript.createBlock, hactive, Document.length, htext]
  exact ⟨_, rfl, htext, rfl, rfl, rfl⟩

theorem Rests.createBlock {t : Transcript} (h : t.Rests) (command prompt : Option Text)
    (hfits : byteLength t.opening ≤ maxOffset) :
    ∃ t', t.createBlock command prompt = .ok (t.nextId, t') ∧
      t'.EndsIn t.opening t.blocks (.opened t.nextId (byteLength t.opening) command prompt) ∧
      t'.nextId = t.nextId + 1 := by
  obtain ⟨t', hcreate, htext, hblocks, hpending, hnext⟩ :=
    createBlock_eq (activeBlock?_eq_none h.closed) command prompt
  exact ⟨t', hcreate,
    ⟨htext, hblocks, rfl, hfits, h.numbered.concat hblocks rfl hnext, hpending⟩, hnext⟩

theorem Rests.start {t : Transcript} (h : t.Rests) (command prompt : Option Text)
    (hfits : byteLength (t.opening ++ header (notEmpty prompt) (notEmpty command)) ≤ maxOffset) :
    ∃ t', t.start command prompt = .ok (t.nextId, t') ∧
      t'.EndsIn (t.opening ++ header (notEmpty prompt) (notEmpty command)) t.blocks
        (t.startedBlock command prompt) ∧
      t'.nextId = t.nextId + 1 := by
  have hopening : byteLength t.opening ≤ maxOffset := by
    rw [byteLength_append] at hfits
    omega
  obtain ⟨t₁, hcreate, hends₁, hnext₁⟩ :=
    h.createBlock (notEmpty command) (notEmpty prompt) hopening
  obtain ⟨t₂, hwrite, hends₂, hnext₂⟩ :=
    hends₁.writeHeader rfl rfl (notEmpty prompt) (notEmpty command) hfits
  have hlocate := hends₂.locate
  obtain ⟨t₃, hput, hends₃, hnext₃⟩ := hends₂.putSpans (headed
    (.opened t.nextId (byteLength t.opening) (notEmpty command) (notEmpty prompt)) t.opening
    (headerParts (notEmpty prompt) (notEmpty command))).fixedSpans
  obtain ⟨t₄, hframe, hends₄, hnext₄⟩ := hends₃.frame
  have hnext : t₂.nextId = t.nextId + 1 := hnext₂.trans hnext₁
  simp only [headed, Block.opened] at hwrite hlocate hput hframe
  by_cases hheader : ((notEmpty prompt).isSome || (notEmpty command).isSome) = true
  · refine ⟨t₄, ?_, ?_, hnext₄.trans (hnext₃.trans hnext)⟩
    · simp only [Transcript.start, hcreate, hwrite, hlocate, hput, hframe, if_pos hheader, bind,
        Except.bind, pure, Except.pure]
    · simpa only [startedBlock, if_pos hheader, headed, Block.opened, Option.getD_none] using hends₄
  · refine ⟨t₃, ?_, ?_, hnext₃.trans hnext⟩
    · simp only [Transcript.start, hcreate, hwrite, hlocate, hput, if_neg hheader, bind,
        Except.bind, pure, Except.pure]
    · simpa only [startedBlock, if_neg hheader, headed, Block.opened] using hends₃

def outputSpans (base : Nat) (output : Snapshot) : List Span :=
  output.ranges.map fun range => ⟨base + range.start, base + range.stop, .output range.style⟩

theorem mapM_outputSpan {base : Nat} {ranges : List StyledSpan}
    (hfits : ∀ range ∈ ranges, base + range.start ≤ maxOffset ∧ base + range.stop ≤ maxOffset) :
    ranges.mapM (outputSpan base) =
      .ok (ranges.map fun range => ⟨base + range.start, base + range.stop, .output range.style⟩) := by
  induction ranges with
  | nil => rfl
  | cons range ranges ih =>
    have hrest := ih fun r hr => hfits r (List.mem_cons_of_mem _ hr)
    rw [List.mapM_cons, hrest, outputSpan, if_pos (hfits range List.mem_cons_self)]
    rfl

theorem mapM_outputSpans {base : Nat} {output : Snapshot} (hinside : output.RangesInside)
    (hroom : base + byteLength output.text ≤ maxOffset) :
    output.ranges.mapM (outputSpan base) = .ok (outputSpans base output) := by
  apply mapM_outputSpan
  intro range hrange
  have := hinside range hrange
  omega

-- Styles that lie beyond all offsets are the one reason to refuse a snapshot.
theorem mapM_outputSpan_ok_or (base : Nat) (ranges : List StyledSpan) :
    (∃ spans, ranges.mapM (outputSpan base) = .ok spans) ∨
      ranges.mapM (outputSpan base) = .error .badOffset := by
  induction ranges with
  | nil => exact Or.inl ⟨[], rfl⟩
  | cons range ranges ih =>
    rw [List.mapM_cons, outputSpan]
    split
    · rcases ih with ⟨spans, hspans⟩ | hrefused
      · rw [hspans]
        exact Or.inl ⟨_, rfl⟩
      · rw [hrefused]
        exact Or.inr rfl
    · exact Or.inr rfl

-- A block after its output was replaced by a snapshot's, whose styles are these spans.
def writtenWith (b : Block) (isFirst : Bool) (output : Text) (spans : List Span) : Block :=
  { b with
    stop := b.outputStart + byteLength output
    spans := some (b.fixedSpans ++ spans)
    frame := if b.frame.isNone && showsOutput output then some { firstBlock := isFirst }
      else b.frame }

def writtenBlock (b : Block) (isFirst : Bool) (output : Snapshot) : Block :=
  writtenWith b isFirst output.text (outputSpans b.outputStart output)

section Output

variable {t : Transcript} {front old : Text} {closed : List Block} {b : Block} {output : Snapshot}

theorem EndsIn.writeOutput_spans (h : t.EndsIn (front ++ old) closed b)
    (hstart : b.outputStart = byteLength front) {spans : List Span}
    (hspans : output.ranges.mapM (outputSpan b.outputStart) = .ok spans)
    (hfits : byteLength (front ++ output.text) ≤ maxOffset) :
    ∃ t', t.writeOutput b.id output = .ok t' ∧
      t'.EndsIn (front ++ output.text) closed
        (writtenWith b closed.isEmpty output.text spans) ∧
      t'.nextId = t.nextId := by
  obtain ⟨t₁, hreplace, hends₁, hnext₁⟩ := h.replaceOutput hstart hfits
  have hlocate : t₁.locate b.id = .ok (closed.length, _) := hends₁.locate
  have hstop : byteLength (front ++ output.text) = b.outputStart + byteLength output.text := by
    rw [byteLength_append, hstart]
  rw [hstop] at hends₁ hlocate
  obtain ⟨t₂, hput, hends₂, hnext₂⟩ := hends₁.putSpans (b.fixedSpans ++ spans)
  obtain ⟨t₃, hframe, hends₃, hnext₃⟩ := hends₂.frame
  have hnext := hnext₂.trans hnext₁
  simp only [Block.endingAt_id] at hput hframe
  simp only [Transcript.writeOutput, hreplace, hlocate, Block.endingAt_outputStart,
    Block.fixedSpans_endingAt, Block.endingAt_frame, hspans, hput, bind, Except.bind, pure,
    Except.pure]
  by_cases hshows : (b.frame.isNone && showsOutput output.text) = true
  · have hnone : b.frame = none := by
      rw [Bool.and_eq_true, Option.isNone_iff_eq_none] at hshows
      exact hshows.1
    refine ⟨t₃, by simp only [hshows, if_true, hframe], ?_, hnext₃.trans hnext⟩
    rw [writtenWith, if_pos hshows]
    simpa only [Block.endingAt, hnone, Option.getD_none] using hends₃
  · refine ⟨t₂, by simp only [hshows, if_false, Bool.false_eq_true], ?_, hnext⟩
    rw [writtenWith, if_neg hshows]
    simpa only [Block.endingAt] using hends₂

theorem EndsIn.writeOutput_refused (h : t.EndsIn (front ++ old) closed b)
    (hstart : b.outputStart = byteLength front)
    (hspans : output.ranges.mapM (outputSpan b.outputStart) = .error .badOffset)
    (hfits : byteLength (front ++ output.text) ≤ maxOffset) :
    t.writeOutput b.id output = .error .badOffset := by
  obtain ⟨t₁, hreplace, hends₁, -⟩ := h.replaceOutput hstart hfits
  have hlocate : t₁.locate b.id = .ok (closed.length, _) := hends₁.locate
  simp only [Transcript.writeOutput, hreplace, hlocate, Block.endingAt_outputStart, hspans, bind,
    Except.bind]

end Output

end Transcript

end ShellTranscript
