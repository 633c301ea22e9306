import Mathlib.Tactic.Common
import ShellTranscript.Proofs.Stored.Identifiers
import ShellTranscript.Proofs.Stored.Instants
import ShellTranscript.Proofs.Stored.Looks

-- Blocks and their parts survive storage, and so do snapshots: what is written is read back, also
-- when its members come in another order and with unknown ones between them.
namespace ShellTranscript

open Text JsonReader

namespace SpanKind

def spelling : SpanKind → Spelling
  | prompt => .text "Prompt".toList
  | command => .text "Command".toList
  | output look => .object (fun _ => look.entries.spelling) ["Output".toList]

theorem reads (kind : SpanKind) : Reads read kind.spelling kind := by
  cases kind with
  | prompt => exact reads_choice_plain rfl
  | command => exact reads_choice_plain rfl
  | output look => exact reads_choice_payload rfl (look.reads.map output)

theorem spelling_write (kind : SpanKind) : kind.spelling kind.toJson.write := by
  cases kind with
  | prompt => exact JsonValue.text_write _
  | command => exact JsonValue.text_write _
  | output look => exact JsonValue.payload_write _ look.spelling_write

end SpanKind

namespace Span

structure Fits (s : Span) : Prop where
  start : s.start ≤ maxOffset
  stop : s.stop ≤ maxOffset

def entries (s : Span) : Entries Span where
  list := [⟨"start", .number s.start, fun t => { t with start := s.start }⟩,
    ⟨"end", .number s.stop, fun t => { t with stop := s.stop }⟩,
    ⟨"style", s.kind.spelling, fun t => { t with kind := s.kind }⟩]

theorem reads {s : Span} (h : s.Fits) : Reads read s.entries.spelling s := by
  refine Entries.reads ?_ rfl
  exact .cons (.of (reads_word h.start)) <|
    .cons (.of (reads_word h.stop)) <|
    .cons (.of s.kind.reads) .nil

theorem spelling_write (s : Span) : s.entries.spelling s.toJson.write := by
  refine Entries.spelling_write ?_
  exact .cons (.of (JsonValue.ofNat_write _)) <|
    .cons (.of (JsonValue.ofNat_write _)) <|
    .cons (.of s.kind.spelling_write) .nil

end Span

namespace Frame

def entries (f : Frame) : Entries Frame where
  list := [⟨"state", .text f.state.name.toList, fun g => { g with state := f.state }⟩,
    ⟨"first_block", .bool f.firstBlock, fun g => { g with firstBlock := f.firstBlock }⟩]

theorem reads_state (state : FrameState) :
    Reads FrameState.read (Spelling.text state.name.toList) state := by
  cases state <;> exact reads_choice_plain rfl

theorem reads (f : Frame) : Reads read f.entries.spelling f := by
  refine Entries.reads ?_ rfl
  exact .cons (.of (reads_state _)) <|
    .cons (.of (reads_bool _)) .nil

theorem spelling_write (f : Frame) : f.entries.spelling f.toJson.write := by
  refine Entries.spelling_write ?_
  exact .cons (.of (JsonValue.text_write _)) <|
    .cons (.of rfl) .nil

end Frame

namespace StoredBlock

-- Offsets are words of sixty-four bits, exit codes have thirty-two.
structure Fits (b : StoredBlock) : Prop where
  start : b.start ≤ maxOffset
  commandStart : b.commandStart ≤ maxOffset
  outputStart : b.outputStart ≤ maxOffset
  stop : b.stop ≤ maxOffset
  exitCode : ∀ code ∈ b.exitCode, -0x80000000 ≤ code ∧ code ≤ 0x7FFFFFFF
  startedAt : b.startedAt.Fits
  finishedAt : ∀ time ∈ b.finishedAt, time.Fits

def entries (b : StoredBlock) : Entries StoredBlock where
  list := [⟨"id", .text b.id.write, fun c => { c with id := b.id }⟩,
    ⟨"command", .option .text b.command, fun c => { c with command := b.command }⟩,
    ⟨"prompt", .option .text b.prompt, fun c => { c with prompt := b.prompt }⟩,
    ⟨"start_offset", .number b.start, fun c => { c with start := b.start }⟩,
    ⟨"command_start_offset", .number b.commandStart,
      fun c => { c with commandStart := b.commandStart }⟩,
    ⟨"output_start_offset", .number b.outputStart,
      fun c => { c with outputStart := b.outputStart }⟩,
    ⟨"end_offset", .number b.stop, fun c => { c with stop := b.stop }⟩,
    ⟨"state", .text (stateName b.isOpen).toList, fun c => { c with isOpen := b.isOpen }⟩,
    ⟨"exit_code", .option .number b.exitCode, fun c => { c with exitCode := b.exitCode }⟩,
    ⟨"started_at", .text b.startedAt.write, fun c => { c with startedAt := b.startedAt }⟩,
    ⟨"finished_at", .option (fun time => .text time.write) b.finishedAt,
      fun c => { c with finishedAt := b.finishedAt }⟩]

theorem reads_state (isOpen : Bool) :
    Reads readState (Spelling.text (stateName isOpen).toList) isOpen := by
  cases isOpen <;> exact reads_choice_plain rfl

theorem reads {b : StoredBlock} (h : b.Fits) : Reads read b.entries.spelling b := by
  have hcode : Reads (optional (integer (-0x80000000) 0x7FFFFFFF))
      (Spelling.option .number b.exitCode) b.exitCode := by
    refine reads_optional _ (fun code hmem => ?_) fun code _ => opens_number code
    obtain ⟨hlow, hhigh⟩ := h.exitCode code hmem
    exact reads_integer hlow hhigh ⟨by omega, by unfold maxOffset; omega⟩
  have hfinished : Reads (optional (parsed Instant.parse?))
      (Spelling.option (fun time => .text time.write) b.finishedAt) b.finishedAt :=
    reads_optional _ (fun time hmem => reads_parsed (Instant.parse?_write (h.finishedAt time hmem)))
      fun time _ => opens_text _
  refine Entries.reads ?_ rfl
  exact .cons (.of (reads_parsed (Uuid.parse?_write _))) <|
    .cons (.of (reads_optional_text _)) <|
    .cons (.of (reads_optional_text _)) <|
    .cons (.of (reads_word h.start)) <|
    .cons (.of (reads_word h.commandStart)) <|
    .cons (.of (reads_word h.outputStart)) <|
    .cons (.of (reads_word h.stop)) <|
    .cons (.of (reads_state _)) <|
    .cons (.of hcode) <|
    .cons (.of (reads_parsed (Instant.parse?_write h.startedAt))) <|
    .cons (.of hfinished) .nil

theorem spelling_write (b : StoredBlock) : b.entries.spelling b.toJson.write := by
  have htext : ∀ o : Option Text, Spelling.option .text o (JsonValue.ofOption .text o).write :=
    fun o => JsonValue.option_write JsonValue.text_write o
  refine Entries.spelling_write ?_
  exact .cons (.of (JsonValue.text_write _)) <|
    .cons (.of (htext _)) <|
    .cons (.of (htext _)) <|
    .cons (.of (JsonValue.ofNat_write _)) <|
    .cons (.of (JsonValue.ofNat_write _)) <|
    .cons (.of (JsonValue.ofNat_write _)) <|
    .cons (.of (JsonValue.ofNat_write _)) <|
    .cons (.of (JsonValue.text_write _)) <|
    .cons (.of (JsonValue.option_write JsonValue.number_write _)) <|
    .cons (.of (JsonValue.text_write _)) <|
    .cons (.of (JsonValue.option_write (fun time => JsonValue.text_write _) _)) .nil

end StoredBlock

-- What is written of a value is one of its spellings, and all its spellings are read as this value.
structure Survives {α : Type} (read : JsonReader α) (json : JsonValue) (spelling : Spelling) (a : α) :
    Prop where
  written : readAll read json.write = .ok a
  isSpelling : Spelling.document spelling json.write
  spelled : ∀ t, Spelling.document spelling t → readAll read t = .ok a

theorem survives_of_reads {α : Type} {read : JsonReader α} {json : JsonValue} {spelling : Spelling}
    {a : α} (hwrite : spelling json.write) (hread : Reads read spelling a) :
    Survives read json spelling a := by
  have hdocument : Spelling.document spelling json.write :=
    ⟨[], _, [], blanks_nil, hwrite, blanks_nil, (List.append_nil _).symm⟩
  exact ⟨hread.document hdocument, hdocument, fun t => hread.document⟩

-- Snapshots, spans, frames and blocks are read as they were written, whatever order the members of
-- their records come in, and whatever unknown ones there are. An enumerator with a payload is no record:
-- its object has the one member only.
theorem survives_storage :
    (∀ s : Snapshot, s.Fits → Survives Snapshot.read s.toJson s.entries.spelling s) ∧
    (∀ s : Span, s.Fits → Survives Span.read s.toJson s.entries.spelling s) ∧
    (∀ f : Frame, Survives Frame.read f.toJson f.entries.spelling f) ∧
    ∀ b : StoredBlock, b.Fits → Survives StoredBlock.read b.toJson b.entries.spelling b := by
  refine ⟨fun s h => ?_, fun s h => ?_, fun f => ?_, fun b h => ?_⟩
  · exact survives_of_reads s.spelling_write (Snapshot.reads h)
  · exact survives_of_reads s.spelling_write (Span.reads h)
  · exact survives_of_reads f.spelling_write f.reads
  · exact survives_of_reads b.spelling_write (StoredBlock.reads h)

-- A span with its members in another order and one that is not known.
def strayedSpan : List (String × JsonValue) :=
  [("style", .record [("Output", Appearance.toJson { fg := .rgb 1 2 255 })]),
    ("shade", .array [.null]), ("end", .ofNat 18446744073709551615), ("start", .ofNat 3)]

def styledSnapshot : Snapshot where
  text := ['$', '\n']
  ranges := [⟨0, 1, { bg := .indexed 200 }⟩]
  epoch := 7

-- The command is started in a leap second.
def leapBlock : StoredBlock :=
  { StoredBlock.blank with exitCode := some (-2147483648), startedAt := ⟨17166, 86399, 1500000000⟩ }

theorem survives_storage_samples :
    readAll Snapshot.read styledSnapshot.toJson.write = .ok styledSnapshot ∧
    readAll Span.read (JsonValue.record strayedSpan).write =
      .ok ⟨3, 18446744073709551615, .output { fg := .rgb 1 2 255 }⟩ ∧
    readAll StoredBlock.read leapBlock.toJson.write = .ok leapBlock := by
  let span : Span := ⟨3, 18446744073709551615, .output { fg := .rgb 1 2 255 }⟩
  have hsnapshot : styledSnapshot.Fits := by
    refine ⟨?_, by decide⟩
    exact List.forall_mem_singleton.mpr ⟨by decide, by decide⟩
  have hspan : span.Fits := ⟨by decide, by decide⟩
  have hcode : ∀ code ∈ leapBlock.exitCode, -0x80000000 ≤ code ∧ code ≤ 0x7FFFFFFF := by
    rintro code ⟨rfl⟩
    decide
  have hstarted : leapBlock.startedAt.Fits := ⟨by decide, by decide, by decide⟩
  have hblock : leapBlock.Fits := ⟨by decide, by decide, by decide, by decide, hcode, hstarted,
    fun _ htime => nomatch htime⟩
  have hstrayed : span.entries.spelling (JsonValue.record strayedSpan).write := by
    refine ⟨strayedSpan.map fun field => field.1.toList, once_of_nodup (by decide) _, ?_,
      JsonValue.record_write ?_⟩
    · simp only [Entry.known, Span.entries, List.map_cons, List.map_nil, List.forall_mem_cons]
      exact ⟨by decide, by decide, by decide, fun _ h => (List.not_mem_nil h).elim⟩
    · simp only [strayedSpan, Entry.known, Span.entries, List.map_cons, List.map_nil,
        List.forall_mem_cons, told_cons, told_nil, String.reduceEq, if_true, if_false]
      exact ⟨SpanKind.spelling_write _, JsonValue.any_write _, JsonValue.ofNat_write _,
        JsonValue.ofNat_write _, fun _ h => (List.not_mem_nil h).elim⟩
  refine ⟨(survives_storage.1 _ hsnapshot).written, ?_, (survives_storage.2.2.2 _ hblock).written⟩
  exact (survives_storage.2.1 span hspan).spelled _
    ⟨[], _, [], blanks_nil, hstrayed, blanks_nil, (List.append_nil _).symm⟩

end ShellTranscript
