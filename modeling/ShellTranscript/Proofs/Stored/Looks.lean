import Mathlib.Tactic.Common
import ShellTranscript.Proofs.Json.Records
import ShellTranscript.Stored.Look

-- Colours, styles and snapshots are read from every spelling of them, and what is written of them is
-- one.
namespace ShellTranscript

open Text JsonReader

theorem reads_word {n : Nat} (h : n ≤ maxOffset) : Reads word (Spelling.number n) n :=
  reads_natural (by decide) h

namespace TextColor

-- A colour is told by its name, or its name is that of the one member, which tells the rest.
def spelling : TextColor → Spelling
  | indexed i => .object (fun _ => .number i.toNat) ["Indexed".toList]
  | rgb r g b =>
    .object (fun _ => .array [.number r.toNat, .number g.toNat, .number b.toNat]) ["Rgb".toList]
  | color => .text color.name.toList

theorem reads_byte (b : UInt8) : Reads byte (Spelling.number b.toNat) b := by
  have hread : Reads (UInt8.ofNat <$> natural 8) (Spelling.number b.toNat) (UInt8.ofNat b.toNat) :=
    (reads_natural (by decide) (Nat.le_of_lt_succ b.toNat_lt)).map UInt8.ofNat
  rw [UInt8.ofNat_toNat] at hread
  exact hread

theorem reads_channels (r g b : UInt8) : Reads (tuple {} channels)
    (Spelling.array [.number r.toNat, .number g.toNat, .number b.toNat]) ⟨r, g, b⟩ :=
  reads_tuple (.cons ((reads_byte r).map _) (opens_number _) (.cons ((reads_byte g).map _)
    (opens_number _) (.cons ((reads_byte b).map _) (opens_number _) (.nil _))))

theorem reads (color : TextColor) : Reads read color.spelling color := by
  cases color with
  | indexed i => exact reads_choice_payload rfl ((reads_byte i).map indexed)
  | rgb r g b => exact reads_choice_payload rfl ((reads_channels r g b).map _)
  | default => exact reads_choice_plain rfl
  | plain hue => cases hue <;> exact reads_choice_plain rfl
  | bright hue => cases hue <;> exact reads_choice_plain rfl

theorem spelling_write (color : TextColor) : color.spelling color.toJson.write := by
  cases color with
  | indexed i => exact JsonValue.payload_write _ (JsonValue.ofNat_write _)
  | rgb r g b =>
    exact JsonValue.payload_write _ (JsonValue.array_write (.cons (JsonValue.ofNat_write _)
      (.cons (JsonValue.ofNat_write _) (.cons (JsonValue.ofNat_write _) .nil))))
  | default | plain | bright => exact JsonValue.text_write _

end TextColor

namespace Appearance

def entries (a : Appearance) : Entries Appearance where
  list := [⟨"fg", a.fg.spelling, fun b => { b with fg := a.fg }⟩,
    ⟨"bg", a.bg.spelling, fun b => { b with bg := a.bg }⟩,
    ⟨"bold", .bool a.bold, fun b => { b with bold := a.bold }⟩,
    ⟨"italic", .bool a.italic, fun b => { b with italic := a.italic }⟩,
    ⟨"underline", .bool a.underline, fun b => { b with underline := a.underline }⟩,
    ⟨"inverse", .bool a.inverse, fun b => { b with inverse := a.inverse }⟩,
    ⟨"dim", .bool a.dim, fun b => { b with dim := a.dim }⟩,
    ⟨"strikeout", .bool a.strikeout, fun b => { b with strikeout := a.strikeout }⟩]

theorem reads (a : Appearance) : Reads read a.entries.spelling a := by
  refine Entries.reads ?_ rfl
  exact .cons (.of (TextColor.reads _)) <|
    .cons (.of (TextColor.reads _)) <|
    .cons (.of (reads_bool _)) <|
    .cons (.of (reads_bool _)) <|
    .cons (.of (reads_bool _)) <|
    .cons (.of (reads_bool _)) <|
    .cons (.of (reads_bool _)) <|
    .cons (.of (reads_bool _)) .nil

theorem spelling_write (a : Appearance) : a.entries.spelling a.toJson.write := by
  refine Entries.spelling_write ?_
  exact .cons (.of (TextColor.spelling_write _)) <|
    .cons (.of (TextColor.spelling_write _)) <|
    .cons (.of rfl) <|
    .cons (.of rfl) <|
    .cons (.of rfl) <|
    .cons (.of rfl) <|
    .cons (.of rfl) <|
    .cons (.of rfl) .nil

end Appearance

namespace StyledSpan

-- Offsets are words of sixty-four bits.
structure Fits (s : StyledSpan) : Prop where
  start : s.start ≤ maxOffset
  stop : s.stop ≤ maxOffset

def entries (s : StyledSpan) : Entries StyledSpan where
  list := [⟨"start", .number s.start, fun t => { t with start := s.start }⟩,
    ⟨"end", .number s.stop, fun t => { t with stop := s.stop }⟩,
    ⟨"style", s.style.entries.spelling, fun t => { t with style := s.style }⟩]

theorem reads {s : StyledSpan} (h : s.Fits) : Reads read s.entries.spelling s := by
  refine Entries.reads ?_ rfl
  exact .cons (.of (reads_word h.start)) <|
    .cons (.of (reads_word h.stop)) <|
    .cons (.of (Appearance.reads _)) .nil

theorem spelling_write (s : StyledSpan) : s.entries.spelling s.toJson.write := by
  refine Entries.spelling_write ?_
  exact .cons (.of (JsonValue.ofNat_write _)) <|
    .cons (.of (JsonValue.ofNat_write _)) <|
    .cons (.of (Appearance.spelling_write _)) .nil

end StyledSpan

namespace Snapshot

structure Fits (s : Snapshot) : Prop where
  ranges : ∀ range ∈ s.ranges, range.Fits
  epoch : s.epoch ≤ maxOffset

def entries (s : Snapshot) : Entries Snapshot where
  list := [⟨"text", .text s.text, fun t => { t with text := s.text }⟩,
    ⟨"style_ranges", .array (s.ranges.map fun range => range.entries.spelling),
      fun t => { t with ranges := s.ranges }⟩,
    ⟨"epoch", .number s.epoch, fun t => { t with epoch := s.epoch }⟩,
    ⟨"alternate", .bool s.alternate, fun t => { t with alternate := s.alternate }⟩]

theorem reads {s : Snapshot} (h : s.Fits) : Reads read s.entries.spelling s := by
  have hranges := reads_list (fun range hrange => StyledSpan.reads (h.ranges range hrange))
    fun range _ => range.entries.opens
  refine Entries.reads ?_ rfl
  exact .cons (.of (reads_text _)) <|
    .cons (.of hranges) <|
    .cons (.of (reads_word h.epoch)) <|
    .cons (.of (reads_bool _)) .nil

theorem spelling_write (s : Snapshot) : s.entries.spelling s.toJson.write := by
  have hranges : Spelling.array (s.ranges.map fun range => range.entries.spelling)
      (JsonValue.array (s.ranges.map StyledSpan.toJson)).write := by
    refine JsonValue.array_write (List.forall₂_map_left_iff.mpr (List.forall₂_map_right_iff.mpr ?_))
    exact List.forall₂_same.mpr fun range _ => range.spelling_write
  refine Entries.spelling_write ?_
  exact .cons (.of (JsonValue.text_write _)) <|
    .cons (.of hranges) <|
    .cons (.of (JsonValue.ofNat_write _)) <|
    .cons (.of rfl) .nil

end Snapshot

end ShellTranscript
