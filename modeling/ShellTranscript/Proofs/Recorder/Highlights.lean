import Mathlib.Tactic.Common
import ShellTranscript.Proofs.Recorder.Advance
import ShellTranscript.Proofs.Recorder.Standing
import ShellTranscript.Proofs.Transcript.Archive

-- The spans of a record. Each block has its prompt and its command marked first, exactly as they
-- stand in the text, and the styles of its output behind them. Snapshots replace the latter; the
-- trimming at the end of a command never reaches the former, since a header ends in a line feed of
-- its own. Nothing stays filed under a block that is gone.
namespace ShellTranscript

open Text Transcript

-- Spans of output between two offsets: none is empty, and each ends before the next one starts.
structure Outputs (first last : Nat) (spans : List Span) : Prop where
  kind : ∀ s ∈ spans, ∃ look, s.kind = .output look
  inside : ∀ s ∈ spans, first ≤ s.start ∧ s.start < s.stop ∧ s.stop ≤ last
  ascending : spans.Pairwise fun earlier later => earlier.stop ≤ later.start

namespace Block

-- The prompt and the command, as they stand at the beginning of a block.
def heading (b : Block) : Text := b.prompt.getD [] ++ b.command.getD []

-- How a block stands in a text and what is marked of it. The header is known in full as long as the
-- block is open.
structure Lit (t : Text) (b : Block) : Prop where
  named : b.prompt ≠ some [] ∧ b.command ≠ some []
  heading : slice? t b.start (b.start + byteLength b.heading) = some b.heading
  commandStart : b.command ≠ none → b.commandStart = b.start + byteLength (b.prompt.getD [])
  headed : b.start + byteLength b.heading ≤ b.outputStart
  outputStart : b.outputStart ≤ b.stop
  opened : b.isOpen = true → slice? t b.start b.outputStart = some (header b.prompt b.command)
  spans : ∃ outs, b.spans = some (b.fixedSpans ++ outs) ∧ Outputs b.outputStart b.stop outs

end Block

theorem outputs_nil (first last : Nat) : Outputs first last [] :=
  ⟨fun _ hs => (List.not_mem_nil hs).elim, fun _ hs => (List.not_mem_nil hs).elim, .nil⟩

theorem Snapshot.RangesOrdered.outputs {output : Snapshot} (h : output.RangesOrdered) (base : Nat) :
    Outputs base (base + byteLength output.text) (outputSpans base output) := by
  refine ⟨?_, ?_, ?_⟩
  · intro s hs
    obtain ⟨range, -, rfl⟩ := List.mem_map.mp hs
    exact ⟨range.style, rfl⟩
  · intro s hs
    obtain ⟨range, hrange, rfl⟩ := List.mem_map.mp hs
    have hinside := h.inside range hrange
    simp only
    omega
  · rw [outputSpans, List.pairwise_map]
    refine h.ascending.imp fun hle => ?_
    simp only
    omega

-- What is left of the spans when the output is cut off.
theorem Outputs.cutOff {first last : Nat} {spans : List Span} (h : Outputs first last spans)
    (stop : Nat) :
    Outputs (min first stop) stop (spans.filter fun s => s.stop ≤ stop) := by
  refine ⟨fun s hs => h.kind s (List.mem_of_mem_filter hs), fun s hs => ?_,
    h.ascending.filter _⟩
  have hinside := h.inside s (List.mem_of_mem_filter hs)
  have hstop : s.stop ≤ stop := by simpa using List.of_mem_filter hs
  omega

namespace Transcript

theorem header_eq (prompt command : Option Text) :
    header prompt command = [] ∧ prompt.getD [] ++ command.getD [] = [] ∨
      header prompt command = prompt.getD [] ++ command.getD [] ++ ['\n'] := by
  cases prompt <;> cases command <;> simp [header]

theorem headerParts_fst (prompt : Option Text) {command : Option Text} (h : command ≠ none) :
    (headerParts prompt command).1 = prompt.getD [] := by
  cases command with
  | none => exact absurd rfl h
  | some command => cases prompt <;> rfl

theorem notEmpty_ne (text : Option Text) : notEmpty text ≠ some [] := by
  cases text with
  | none => simp [notEmpty]
  | some text => cases text <;> simp [notEmpty, Option.filter]

theorem local_lit : Local Block.Lit := by
  intro front more more' b hstop h
  have houtput := h.outputStart
  have hheaded := h.headed
  have hheading := h.heading
  have hheader := h.opened
  rw [slice?_append_of_le (by omega)] at hheading
  rw [slice?_append_of_le (by omega)] at hheader
  refine ⟨h.named, ?_, h.commandStart, hheaded, houtput, ?_, h.spans⟩
  · rw [slice?_append_of_le (by omega), hheading]
  · rw [slice?_append_of_le (by omega)]
    exact hheader

theorem lit_started (t : Transcript) (command prompt : Option Text) :
    (t.startedBlock command prompt).Lit (t.opening ++
      (headerParts (notEmpty prompt) (notEmpty command)).1 ++
      (headerParts (notEmpty prompt) (notEmpty command)).2 ++ []) := by
  have hparts := headerParts_append (notEmpty prompt) (notEmpty command)
  have hstop : (t.startedBlock command prompt).outputStart =
      byteLength (t.opening ++ header (notEmpty prompt) (notEmpty command)) := by
    rw [← hparts, ← List.append_assoc]
    rfl
  have hwhole : t.opening ++ (headerParts (notEmpty prompt) (notEmpty command)).1 ++
      (headerParts (notEmpty prompt) (notEmpty command)).2 ++ [] =
        t.opening ++ header (notEmpty prompt) (notEmpty command) := by
    rw [List.append_nil, List.append_assoc, hparts]
  obtain ⟨rest, hrest⟩ : ∃ rest, header (notEmpty prompt) (notEmpty command) =
      (t.startedBlock command prompt).heading ++ rest := ⟨_, rfl⟩
  have hheading := slice?_append t.opening (t.startedBlock command prompt).heading rest
  have hheader := slice?_append t.opening (header (notEmpty prompt) (notEmpty command)) []
  rw [byteLength_append, List.append_assoc, ← hrest] at hheading
  rw [List.append_nil] at hheader
  rw [hwhole]
  refine ⟨⟨notEmpty_ne _, notEmpty_ne _⟩, hheading, fun hcommand => ?_, ?_, Nat.le_refl _,
    fun _ => hstop.symm ▸ hheader, ⟨[], ?_, outputs_nil _ _⟩⟩
  · have hfirst : (headerParts (notEmpty prompt) (notEmpty command)).1 =
        (notEmpty prompt).getD [] := headerParts_fst _ hcommand
    have hstart : (t.startedBlock command prompt).commandStart =
        byteLength (t.opening ++ (headerParts (notEmpty prompt) (notEmpty command)).1) := rfl
    rw [hstart, hfirst, byteLength_append]
    rfl
  · rw [hstop, hrest, byteLength_append, byteLength_append, ← Nat.add_assoc]
    exact Nat.le_add_right _ _
  · rw [List.append_nil]
    rfl

theorem mapM_outputSpan_eq {base : Nat} {spans : List Span} {output : Snapshot}
    (hspans : output.ranges.mapM (outputSpan base) = .ok spans) (hinside : output.RangesInside)
    (hroom : base + byteLength output.text ≤ maxOffset) : spans = outputSpans base output :=
  Except.ok.inj (hspans.symm.trans (mapM_outputSpans hinside hroom))

end Transcript

namespace Block.Lit

section Lit

variable {t before prompt command output : Text} {b : Block}

theorem fixed_inside (h : b.Lit t) : ∀ s ∈ b.fixedSpans,
    b.start ≤ s.start ∧ s.start < s.stop ∧ s.stop ≤ b.start + byteLength b.heading ∧
      b.start + byteLength b.heading ≤ b.outputStart := by
  intro s hs
  have hheaded := h.headed
  have hlength : byteLength b.heading =
      byteLength (b.prompt.getD []) + byteLength (b.command.getD []) := byteLength_append _ _
  rcases List.mem_append.mp hs with hs | hs
  · obtain ⟨prompt, hprompt, rfl⟩ := Option.map_eq_some_iff.mp (Option.mem_toList.mp hs)
    have hne : byteLength prompt ≠ 0 := fun hzero =>
      h.named.1 (by rw [hprompt, byteLength_eq_zero_iff.mp hzero])
    rw [hprompt, Option.getD_some] at hlength
    simp only
    omega
  · obtain ⟨command, hcommand, rfl⟩ := Option.map_eq_some_iff.mp (Option.mem_toList.mp hs)
    have hstart := h.commandStart (by simp [hcommand])
    have hne : byteLength command ≠ 0 := fun hzero =>
      h.named.2 (by rw [hcommand, byteLength_eq_zero_iff.mp hzero])
    rw [hcommand, Option.getD_some] at hlength
    simp only
    omega

theorem fixed_ascending (h : b.Lit t) :
    b.fixedSpans.Pairwise fun earlier later => earlier.stop ≤ later.start := by
  have hone : ∀ {option : Option Span}, option.toList.Pairwise fun earlier later =>
      earlier.stop ≤ later.start := by
    intro option
    cases option <;> simp
  refine List.pairwise_append.mpr ⟨hone, hone, fun r hr s hs => ?_⟩
  obtain ⟨prompt, hprompt, rfl⟩ := Option.map_eq_some_iff.mp (Option.mem_toList.mp hr)
  obtain ⟨command, hcommand, rfl⟩ := Option.map_eq_some_iff.mp (Option.mem_toList.mp hs)
  have hstart := h.commandStart (by simp [hcommand])
  rw [hprompt, Option.getD_some] at hstart
  exact Nat.le_of_eq hstart.symm

-- What is marked as the prompt is the prompt, and what is marked as the command the command.
theorem fixed_texts (h : b.Lit t) :
    b.fixedSpans.map (fun s => (s.kind, slice? t s.start s.stop)) =
      (b.prompt.map fun prompt => (SpanKind.prompt, some prompt)).toList ++
        (b.command.map fun command => (SpanKind.command, some command)).toList := by
  obtain ⟨hprompt, hcommand⟩ := slice?_parts h.heading
  rw [byteLength_append, ← Nat.add_assoc] at hcommand
  have hstart := h.commandStart
  cases hp : b.prompt <;> cases hc : b.command <;>
    simp_all [Block.fixedSpans]

theorem spans_inside (h : b.Lit t) : ∀ s ∈ b.spans.getD [],
    b.start ≤ s.start ∧ s.start < s.stop ∧ s.stop ≤ b.stop := by
  have houtput := h.outputStart
  have hheaded := h.headed
  obtain ⟨outs, hspans, houts⟩ := h.spans
  intro s hs
  rw [hspans, Option.getD_some] at hs
  rcases List.mem_append.mp hs with hs | hs
  · have hfixed := h.fixed_inside s hs
    omega
  · have hinside := houts.inside s hs
    omega

theorem spans_ascending (h : b.Lit t) :
    (b.spans.getD []).Pairwise fun earlier later => earlier.stop ≤ later.start := by
  obtain ⟨outs, hspans, houts⟩ := h.spans
  rw [hspans, Option.getD_some, List.pairwise_append]
  refine ⟨h.fixed_ascending, houts.ascending, fun f hf s hs => ?_⟩
  have hfixed := h.fixed_inside f hf
  have hinside := houts.inside s hs
  omega

-- A snapshot takes the place of the output, and of its spans.
theorem written {old : Text} {output : Snapshot} {spans : List Span}
    (h : b.Lit (before ++ prompt ++ command ++ old)) (hcovers : b.Covers before prompt command old)
    (hordered : output.RangesOrdered)
    (hspans : output.ranges.mapM (outputSpan b.outputStart) = .ok spans)
    (hfits : byteLength (before ++ prompt ++ command ++ output.text) ≤ maxOffset)
    (isFirst : Bool) :
    (writtenWith b isFirst output.text spans).Lit
      (before ++ prompt ++ command ++ output.text) := by
  have hstart := hcovers.outputStart
  have hheaded := h.headed
  have hheading := h.heading
  have hheader := h.opened
  rw [byteLength_append, ← hstart] at hfits
  obtain rfl := mapM_outputSpan_eq hspans hordered.rangesInside hfits
  rw [slice?_append_of_le (by omega)] at hheading hheader
  refine ⟨h.named, ?_, h.commandStart, hheaded, Nat.le_add_right _ _, ?_,
    ⟨_, rfl, hordered.outputs b.outputStart⟩⟩
  · rw [slice?_append_of_le (by rw [← hstart]; exact hheaded)]
    exact hheading
  · rw [slice?_append_of_le (by rw [← hstart]; exact Nat.le_refl _)]
    exact hheader

theorem close (h : b.Lit t) : b.close.Lit t :=
  ⟨h.named, h.heading, h.commandStart, h.headed, h.outputStart, fun hopen => Bool.noConfusion hopen,
    h.spans⟩

theorem header_parts (h : b.Lit (before ++ prompt ++ command ++ output))
    (hcovers : b.Covers before prompt command output) (hopen : b.isOpen = true) :
    prompt ++ command = header b.prompt b.command := by
  have hheader := h.opened hopen
  have hslice := slice?_append before (prompt ++ command) output
  rw [← List.append_assoc, ← hcovers.start, ← hcovers.outputStart, hheader] at hslice
  exact (Option.some.inj hslice).symm

-- The line feed that a header ends in keeps the trimming away from what stands before it.
theorem heading_prefix_trimmed (b : Block) (output : Text) :
    ∃ rest, dropBlankLine (header b.prompt b.command ++ output) = b.heading ++ rest := by
  rcases header_eq b.prompt b.command with ⟨-, hnone⟩ | hheader
  · have hheading : b.heading = [] := hnone
    exact ⟨_, by rw [hheading, List.nil_append]⟩
  · rw [hheader]
    exact dropBlankLine_append b.heading output

-- Behind the heading a block can be cut off anywhere.
theorem cutOff {t' : Text} {stop : Nat} (h : b.Lit t) (hclosed : b.isOpen = false)
    (hstop : b.start + byteLength b.heading ≤ stop)
    (hheading : slice? t' b.start (b.start + byteLength b.heading) = some b.heading) :
    (b.cutOff stop).Lit t' := by
  have hheaded := h.headed
  have hcommand : b.command ≠ none →
      min b.commandStart (min b.outputStart stop) = b.commandStart := by
    intro hsome
    have hcommandStart := h.commandStart hsome
    have hlength : byteLength b.heading =
        byteLength (b.prompt.getD []) + byteLength (b.command.getD []) := byteLength_append _ _
    omega
  have hfixed : (b.cutOff stop).fixedSpans = b.fixedSpans := by
    cases hsome : b.command with
    | none => simp only [Block.fixedSpans, Block.cutOff, Block.clampToStop, Block.endingAt, hsome,
        Option.map_none]
    | some command =>
      have hsame := hcommand (by simp [hsome])
      simp only [Block.fixedSpans, Block.cutOff, Block.clampToStop, Block.endingAt, hsome, hsame]
  have hkept : b.fixedSpans.filter (fun s => s.stop ≤ stop) = b.fixedSpans := by
    rw [List.filter_eq_self]
    intro s hs
    exact decide_eq_true (Nat.le_trans (fixed_inside h s hs).2.2.1 hstop)
  obtain ⟨outs, hspans, houts⟩ := h.spans
  refine ⟨h.named, hheading, fun hsome => (hcommand hsome).trans (h.commandStart hsome),
    Nat.le_min.mpr ⟨hheaded, hstop⟩, Nat.min_le_right _ _, fun hopen => ?_,
    ⟨_, ?_, houts.cutOff stop⟩⟩
  · exact Bool.noConfusion (hopen.symm.trans hclosed)
  · rw [hfixed]
    simp only [Block.cutOff, hspans, Option.map_some, List.filter_append, hkept]

theorem trimmed (h : b.Lit (before ++ prompt ++ command ++ output))
    (hstart : b.start = byteLength before) (hclosed : b.isOpen = false)
    (hheader : prompt ++ command = header b.prompt b.command) :
    (trimmedBlock b (prompt ++ command ++ output)).Lit
      (before ++ dropBlankLine (prompt ++ command ++ output)) := by
  by_cases hblank : (trim (lastLine (prompt ++ command ++ output))).isEmpty = true
  · obtain ⟨rest, hrest⟩ := heading_prefix_trimmed b output
    rw [← hheader] at hrest
    have hslice := slice?_append before b.heading rest
    rw [byteLength_append, ← hstart, List.append_assoc] at hslice
    rw [trimmedBlock, if_pos hblank, hrest]
    refine cutOff h hclosed ?_ hslice
    rw [byteLength_append]
    omega
  · rw [trimmedBlock, if_neg hblank, dropBlankLine, if_neg hblank, ← List.append_assoc,
      ← List.append_assoc]
    exact h

theorem framed (h : b.Lit t) (frame : Option Frame) : ({ b with frame } : Block).Lit t :=
  ⟨h.named, h.heading, h.commandStart, h.headed, h.outputStart, h.opened, h.spans⟩

theorem concluded (h : b.Lit (before ++ prompt ++ command ++ output))
    (hcovers : b.Covers before prompt command output) (hopen : b.isOpen = true) (exitCode : Int)
    (isFirst : Bool) :
    (concludedBlock b (prompt ++ command ++ output) exitCode isFirst).Lit
      (before ++ dropBlankLine (prompt ++ command ++ output)) := by
  have hfinished : (b.finish exitCode).Lit (before ++ prompt ++ command ++ output) :=
    ⟨h.named, h.heading, h.commandStart, h.headed, h.outputStart, fun hnot => Bool.noConfusion hnot,
      h.spans⟩
  have hheader : prompt ++ command = header b.prompt b.command := header_parts h hcovers hopen
  have htrimmed := trimmed hfinished hcovers.start rfl hheader
  unfold concludedBlock
  split
  · exact htrimmed.framed _
  · exact htrimmed

end Lit

end Block.Lit

-- The snapshots that a call brings along have their ranges in order.
def Call.RangesOrdered (c : Call) : Prop :=
  ∀ e, c = .handle e → ∀ output, e.snapshot? = some output → output.RangesOrdered

namespace Desk

def Act.RangesOrdered (a : Act) : Prop := ∀ output, a = .write output → output.RangesOrdered

section Runs

variable {d d' : Desk} {a : Act} {c : Call}

theorem Act.Serves.rangesOrdered (h : a.Serves d c) (hc : c.RangesOrdered) : a.RangesOrdered := by
  rintro output rfl
  rcases h.written with ⟨t, rfl⟩ | ⟨e, rfl, hbrings⟩
  · exact t.snapshot_rangesOrdered
  · exact hc e rfl output hbrings

theorem Does.lit (h : d.Does a d') (ha : a.RangesOrdered)
    (hlit : d.recorder.transcript.Every Block.Lit) : d'.recorder.transcript.Every Block.Lit := by
  cases h with
  | start command prompt epoch resting recording =>
    exact resting.every_started local_lit hlit recording (lit_started _ _ _)
  | write output recording hspans _ recording' =>
    exact recording.every_written local_lit hlit recording' (Block.Lit.written
      (recording.of_every hlit) recording.covers (ha output rfl) hspans recording'.ends.fits _)
  | conclude exitCode recording resting htext hblocks =>
    exact recording.every_concluded local_lit hlit htext hblocks
      (Block.Lit.concluded (recording.of_every hlit) recording.covers recording.isOpen exitCode _)
  | breakLine shaped resting htext hblocks =>
    exact shaped.every_broken local_lit hlit htext hblocks fun t b hb => hb.close
  | clear resting hblocks =>
    intro b hb
    rw [hblocks] at hb
    cases hb

theorem Through.lit (h : d.Through Act.RangesOrdered d')
    (hlit : d.recorder.transcript.Every Block.Lit) : d'.recorder.transcript.Every Block.Lit := by
  induction h with
  | here => exact hlit
  | still _ hstill ih => exact ih.of_sameRecord hstill.record
  | act _ ha hdoes ih => exact hdoes.lit ha ih

theorem Leads.lit {stage : Stage} (h : Leads Call.RangesOrdered { stage } d) :
    d.recorder.transcript.Every Block.Lit := by
  induction h with
  | here => exact fun b hb => (List.not_mem_nil hb).elim
  | call c hleads hc hfits ih =>
    have hshaped := (resting_new stage).shaped.of_leads hleads
    exact ((hshaped.through_call c hfits).mono fun a ha => ha.rangesOrdered hc).lit ih
  | around _ haround ih => exact ih.of_sameRecord haround.record

-- What a call does to the record, operations do to an archive with this record.
theorem exists_runs_call {archive : Archive} (h : archive.Kept)
    (hsame : archive.transcript = d.recorder.transcript) (c : Call) : ∃ archive' : Archive,
      archive.Runs archive' ∧ archive'.transcript = (c.run d).state.recorder.transcript := by
  have hruns := (d.advances_call c).runs
  rw [← hsame] at hruns
  exact h.exists_runs hruns

-- So the record is always that of an archive.
theorem Leads.kept {stage : Stage} {allowed : Call → Prop} (h : Leads allowed { stage } d) :
    ∃ archive : Archive, archive.Kept ∧ archive.transcript = d.recorder.transcript := by
  induction h with
  | here => exact ⟨{}, Archive.kept_new, rfl⟩
  | call c _ _ _ ih =>
    obtain ⟨archive, hkept, hsame⟩ := ih
    obtain ⟨archive', hruns, hsame'⟩ := exists_runs_call hkept hsame c
    exact ⟨archive', hkept.of_runs hruns, hsame'⟩
  | around _ haround ih =>
    obtain ⟨archive, hkept, hsame⟩ := ih
    obtain ⟨archive', hruns, hsame'⟩ :=
      Archive.exists_runs_of_sameRecord (hsame ▸ haround.record)
    exact ⟨archive', hkept.of_runs hruns, hsame'⟩

-- Every block has its prompt and its command marked, exactly and before everything else, and then
-- its output; what is marked lies in its block, one span behind the other in the whole document.
-- There is an archive with this record, and every such archive has filed all of this under the blocks
-- and nothing under one that is not listed. Operations on it do what the next call does to the record.
structure WellLit (d : Desk) : Prop where
  spans : ∀ b ∈ d.recorder.transcript.blocks, ∃ fixed outs, b.spans = some (fixed ++ outs) ∧
    fixed.map (fun s => (s.kind, d.recorder.transcript.document.slice? s.start s.stop)) =
      (b.prompt.map fun prompt => (SpanKind.prompt, some prompt)).toList ++
        (b.command.map fun command => (SpanKind.command, some command)).toList ∧
    ∀ s ∈ outs, (∃ look, s.kind = .output look) ∧ ∀ f ∈ fixed, f.stop ≤ s.start
  inside : ∀ b ∈ d.recorder.transcript.blocks, ∀ s ∈ b.spans.getD [],
    b.start ≤ s.start ∧ s.start < s.stop ∧ s.stop ≤ b.stop
  ordered : d.recorder.transcript.allSpans.Pairwise fun earlier later => earlier.stop ≤ later.start
  kept : ∃ archive : Archive, archive.Kept ∧ archive.transcript = d.recorder.transcript
  filed : ∀ archive : Archive, archive.Kept → archive.transcript = d.recorder.transcript →
    archive.allSpans = d.recorder.transcript.allSpans ∧
      (∀ b ∈ d.recorder.transcript.blocks,
        archive.spans[b.id]? = b.spans ∧ archive.frames[b.id]? = b.frame) ∧
      ∀ id, (∀ b ∈ d.recorder.transcript.blocks, b.id ≠ id) →
        archive.spans[id]? = none ∧ archive.frames[id]? = none
  followed : ∀ archive : Archive, archive.Kept → archive.transcript = d.recorder.transcript →
    ∀ c : Call, ∃ archive' : Archive, archive.Runs archive' ∧
      archive'.transcript = (c.run d).state.recorder.transcript

theorem Leads.wellLit {stage : Stage} (h : Leads Call.RangesOrdered { stage } d) : d.WellLit := by
  have hlit := h.lit
  have hlaid := ((resting_new stage).shaped.of_leads h).laid
  refine ⟨fun b hb => ?_, fun b hb => (hlit b hb).spans_inside, ?_, h.kept,
    fun archive hkept hsame => ⟨?_, fun b hb => ?_, fun id hunlisted => ?_⟩,
    fun archive hkept hsame => exists_runs_call hkept hsame⟩
  · obtain ⟨outs, hspans, houts⟩ := (hlit b hb).spans
    refine ⟨b.fixedSpans, outs, hspans, (hlit b hb).fixed_texts, fun s hs => ⟨houts.kind s hs, ?_⟩⟩
    intro f hf
    have hfixed := (hlit b hb).fixed_inside f hf
    have hinside := houts.inside s hs
    omega
  · rw [allSpans, List.pairwise_flatMap]
    refine ⟨fun b hb => (hlit b hb).spans_ascending, ?_⟩
    refine hlaid.pairwise.imp_of_mem fun {b c} hb hc hle r hr s hs => ?_
    have hearlier := (hlit b hb).spans_inside r hr
    have hlater := (hlit c hc).spans_inside s hs
    omega
  · rw [← hsame, archive.allSpans_transcript]
  · obtain ⟨bare, -, rfl⟩ := List.mem_map.mp (hsame ▸ hb)
    exact ⟨rfl, rfl⟩
  · refine hkept.unlisted fun b hb => ?_
    exact hunlisted (archive.fill b) (hsame ▸ List.mem_map_of_mem hb)

end Runs

-- A line in two styles, with the empty line behind it that is cut off in the end.
def styledLine : Snapshot where
  text := ['a', 'é', '\n']
  ranges := [⟨0, 1, { bold := true }⟩, ⟨1, 3, { italic := true }⟩]
  epoch := 1

theorem styledLine_rangesOrdered : styledLine.RangesOrdered :=
  ⟨by decide, by decide⟩

-- A command with a prompt, and what is marked of them and of the output.
theorem Leads.wellLit_styledLine :
    let d := ((Call.handle (.commandFinished 1 styledLine)).run
      ((Call.startCommand (some ['l', 's']) (some ['$', ' '])).run
        { stage := { terminal := .new ⟨4, 2⟩ 0 } }).state).state
    d.recorder.transcript.allSpans = [⟨0, 2, .prompt⟩, ⟨2, 4, .command⟩,
      ⟨5, 6, .output { bold := true }⟩, ⟨6, 8, .output { italic := true }⟩] ∧ d.WellLit :=
  ⟨by decide +kernel,
    Leads.wellLit (.call (.handle (.commandFinished 1 styledLine))
      (.call (.startCommand (some ['l', 's']) (some ['$', ' '])) .here
        (fun e he => by cases he) (by unfold Call.Fits; decide +kernel))
      (fun e he output houtput => by
        obtain rfl := Call.handle.inj he
        exact Option.some.inj houtput ▸ styledLine_rangesOrdered)
      (by unfold Call.Fits; decide +kernel))⟩

end Desk

end ShellTranscript
