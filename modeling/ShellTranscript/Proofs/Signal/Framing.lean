import Mathlib.Tactic.Common
import ShellTranscript.Proofs.Signal.Payload
import ShellTranscript.Proofs.Signal.Resync
import ShellTranscript.Proofs.Signal.Stream
import ShellTranscript.Proofs.Text.Cut
import ShellTranscript.Proofs.Text.Decoded
import ShellTranscript.Proofs.Text.Printable

-- Where a stream is cut into plain bytes and commands. Every command tells what its payload denotes,
-- at its end, and nothing else is told. Of a payload that is too long to be held only the first bytes
-- are looked at, so that it is told cut, unless the cut does not matter.
namespace ShellTranscript.Signal.MarkerDecoder

open Text

-- A part of a stream: plain bytes, or a command with its payload and its end.
inductive Segment where
  | plain (bytes : List UInt8) (hplain : 0x1B ∉ bytes)
  | command (body stop : List UInt8) (hinner : Inner body) (hroom : body.length ≤ capacity)
      (hstop : Ends stop)

namespace Segment

def bytes : Segment → List UInt8
  | plain bytes _ => bytes
  | command body stop _ _ _ => [0x1B, 0x5D] ++ body ++ stop

def marker? : Segment → Option Marker
  | plain _ _ => none
  | command body _ _ _ _ => Marker.ofBytes? body

end Segment

-- The markers of a stream, each with the offset behind the end of its command.
def located : List Segment → List (Located Marker)
  | [] => []
  | s :: rest => (s.marker?.toList.map fun m => (s.bytes.length, m)) ++
      (located rest).map (Located.shift s.bytes.length)

theorem feed_segment (s : Segment) :
    feed .ground s.bytes = (.ground, s.marker?.toList.map fun m => (s.bytes.length, m)) := by
  cases s with
  | plain bytes hplain => exact feed_plain hplain
  | command body stop hinner hroom hstop => exact feed_sequence .ground hinner hroom hstop

theorem feed_segments (segments : List Segment) :
    feed .ground (segments.flatMap Segment.bytes) = (.ground, located segments) := by
  induction segments with
  | nil => rfl
  | cons s rest ih =>
    rw [feed] at ih
    rw [List.flatMap_cons, feed, scan_append]
    have hfirst := feed_segment s
    rw [feed] at hfirst
    simp only [hfirst, ih]
    rfl

-- In whatever chunks a stream of plain bytes and commands arrives, it tells the markers of its
-- commands, in order and each behind its end, and leaves nothing unfinished. Each of them is told with
-- the chunk that its last byte is in.
theorem found_exactly {segments : List Segment} {chunks : List (List UInt8)}
    (h : chunks.flatten = segments.flatMap Segment.bytes) :
    feedAll .ground chunks = (.ground, located segments) ∧
      ∀ (d : MarkerDecoder) (chunk : List UInt8), ∀ item ∈ (d.feed chunk).2,
        1 ≤ item.1 ∧ item.1 ≤ chunk.length := by
  refine ⟨by rw [feedAll_eq_feed, h, feed_segments], ?_⟩
  intro d chunk item hitem
  have hinside := scanFrom_bounds step 0 d chunk item hitem
  omega

-- Text, a command with each of the two ends, and bytes that would introduce and end a command if they
-- were control characters of their own.
def shortStream : List Segment :=
  [.plain [0x24, 0x20] (by decide),
    .command (Utf8.encode "133;A".toList) [0x07] (by decide) (by decide) (.inl rfl),
    .plain [0x9D, 0x31, 0x33, 0x33, 0x3B, 0x42, 0x9C, 0x07] (by decide),
    .command (Utf8.encode "0;title".toList) [0x07] (by decide) (by decide) (.inl rfl),
    .command [0x37, 0x3B, 0x2F, 0xC3] [0x1B, 0x5C] (by decide) (by decide) (.inr rfl)]

theorem found_in_shortStream :
    let bytes := shortStream.flatMap Segment.bytes
    let chunks := [bytes.take 3, (bytes.drop 3).take 32, bytes.drop 35]
    chunks.flatten = bytes ∧ feedAll .ground chunks =
      (.ground, [(10, .promptStart), (36, .workingDirectory ['/', Utf8.replacement])]) := by
  intro bytes chunks
  have hchunks : chunks.flatten = bytes := by decide +kernel
  have hlocated : located shortStream =
      [(10, .promptStart), (36, .workingDirectory ['/', Utf8.replacement])] := by
    decide +kernel
  have hfound := (found_exactly hchunks).1
  rw [hlocated] at hfound
  exact ⟨hchunks, hfound⟩

theorem inner_encode {t : Text} (h : ∀ c ∈ t, 0x20 ≤ c.toNat) : Inner (Utf8.encode t) := by
  intro b hb
  have hcontrol : 0x20 ≤ b.toNat ∨ 0x80 ≤ b.toNat := by
    by_cases hascii : b.toNat < 0x80
    · obtain ⟨c, hc, hvalue⟩ := Utf8.mem_encode_ascii hb hascii
      exact .inl (hvalue ▸ h c hc)
    · exact .inr (Nat.le_of_not_lt hascii)
  constructor <;> rintro rfl <;> exact absurd hcontrol (by decide)

-- A payload of text that denotes a marker and finds room tells it.
theorem feedAll_payload {payload : Text} {m : Marker} (hchars : ∀ c ∈ payload, 0x20 ≤ c.toNat)
    (hroom : byteLength payload ≤ capacity) {stop : List UInt8} (hstop : Ends stop)
    (hm : Marker.ofPayload? payload = some m) {chunks : List (List UInt8)}
    (h : chunks.flatten = [0x1B, 0x5D] ++ Utf8.encode payload ++ stop) :
    feedAll .ground chunks = (.ground, [(chunks.flatten.length, m)]) := by
  rw [← length_encode] at hroom
  rw [feedAll_eq_feed, h, feed_sequence .ground (inner_encode hchars) hroom hstop, Marker.ofBytes?,
    Utf8.decodeLossy_encode, hm]
  rfl

-- Of a command in a stream of its own the held part is told. That is right just if the held part denotes
-- nothing, or what the whole payload denotes.
theorem reports_whole_iff {body stop : List UInt8} {chunks : List (List UInt8)} (hinner : Inner body)
    (hstop : Ends stop) (h : chunks.flatten = [0x1B, 0x5D] ++ body ++ stop) :
    (feedAll .ground chunks).2 =
        ((Marker.ofBytes? (body.take capacity)).toList.map fun m => (chunks.flatten.length, m)) ∧
      ((∀ item ∈ (feedAll .ground chunks).2, Marker.ofBytes? body = some item.2) ↔
        Marker.ofBytes? (body.take capacity) = none ∨
          Marker.ofBytes? (body.take capacity) = Marker.ofBytes? body) := by
  have htold : (feedAll .ground chunks).2 =
      ((Marker.ofBytes? (body.take capacity)).toList.map fun m => (chunks.flatten.length, m)) := by
    rw [feedAll_eq_feed, h, feed_command rfl hinner hstop]
  refine ⟨htold, ?_⟩
  rw [htold]
  cases Marker.ofBytes? (body.take capacity) with
  | none => simp
  | some m => simp [eq_comm]

section Held

variable {nulls number kind argument : Text} {front : List UInt8}

theorem ofBytes?_closed (hnulls : ∀ c ∈ nulls, c = Char.ofNat 0) (hnumber : Marker.IsLife number)
    (hkind : ';' ∉ kind) (hargument : ';' ∉ argument)
    (hfront : Utf8.decodeLossy front = nulls ++ (number ++ ';' :: (kind ++ ';' :: argument)))
    (back : List UInt8) :
    Marker.ofBytes? (front ++ 0x3B :: back) = Marker.ofFields [kind, argument] := by
  have hclosed := Marker.ofPayload?_closed hnulls hnumber hkind hargument (Utf8.decodeLossy back)
  rw [Marker.ofBytes?, Utf8.decodeLossy_append_cons (by decide), hfront, ← hclosed]
  simp only [List.append_assoc, List.cons_append]
  rfl

-- A payload whose second field ends within the held part is not told cut.
theorem ofBytes?_take_of_closed (hnulls : ∀ c ∈ nulls, c = Char.ofNat 0)
    (hnumber : Marker.IsLife number) (hkind : ';' ∉ kind) (hargument : ';' ∉ argument)
    (hfront : Utf8.decodeLossy front = nulls ++ (number ++ ';' :: (kind ++ ';' :: argument)))
    (hroom : front.length < capacity) (back : List UInt8) :
    Marker.ofBytes? ((front ++ 0x3B :: back).take capacity) =
      Marker.ofBytes? (front ++ 0x3B :: back) := by
  have hclosed := ofBytes?_closed hnulls hnumber hkind hargument hfront
  have hheld : (front ++ 0x3B :: back).take capacity =
      front ++ 0x3B :: back.take (capacity - front.length - 1) := by
    obtain ⟨n, hn⟩ : ∃ n, capacity - front.length = n + 1 := ⟨capacity - front.length - 1, by omega⟩
    rw [List.take_append, List.take_of_length_le (Nat.le_of_lt hroom), hn, List.take_succ_cons,
      Nat.add_sub_cancel]
  rw [hheld, hclosed, hclosed]

end Held

section PlainLines

variable {line : Text} {stop : List UInt8}

theorem printable_payload (hline : ∀ c ∈ line, Printable c) :
    ∀ c ∈ "633;E;".toList ++ line, Printable c := by
  have hfixed : ∀ c ∈ "633;E;".toList, Printable c := by decide
  exact List.forall_mem_append.mpr ⟨hfixed, hline⟩

theorem ofBytes?_plainLine (hline : ∀ c ∈ line, Printable c) (hfield : ';' ∉ line)
    (hplain : '\\' ∉ line) :
    Marker.ofBytes? (Utf8.encode ("633;E;".toList ++ line)) = some (.commandLine line) := by
  have hend : ∀ c, line.getLast? = some c → c ≠ Char.ofNat 0 := by
    rintro c hc rfl
    exact absurd (hline _ (List.mem_of_getLast? hc)) (by decide)
  rw [Marker.ofBytes?, Utf8.decodeLossy_encode, Marker.ofPayload?_commandLine hfield hend,
    Marker.unescape_of_not_mem hplain]

-- A command line without escapes is told up to where the room for it ends.
theorem feed_plainLine (hline : ∀ c ∈ line, Printable c) (hfield : ';' ∉ line) (hplain : '\\' ∉ line)
    (hstop : Ends stop) :
    feed .ground ([0x1B, 0x5D] ++ Utf8.encode ("633;E;".toList ++ line) ++ stop) =
      (.ground, [(([0x1B, 0x5D] ++ Utf8.encode ("633;E;".toList ++ line) ++ stop).length,
        .commandLine (line.take (capacity - 6)))]) := by
  have hpayload := printable_payload hline
  have hinner := inner_encode fun c hc => (hpayload c hc).1
  have hheld : (Utf8.encode ("633;E;".toList ++ line)).take capacity =
      Utf8.encode ("633;E;".toList ++ line.take (capacity - 6)) := by
    rw [take_encode hpayload, List.take_append, List.take_of_length_le (by decide)]
    rfl
  have hkept : Marker.ofBytes? (Utf8.encode ("633;E;".toList ++ line.take (capacity - 6))) =
      some (.commandLine (line.take (capacity - 6))) :=
    ofBytes?_plainLine (fun c hc => hline c (List.mem_of_mem_take hc))
      (fun hc => hfield (List.mem_of_mem_take hc)) fun hc => hplain (List.mem_of_mem_take hc)
  rw [feed_command rfl hinner hstop, hheld, hkept]
  rfl

end PlainLines

-- A payload that goes on for five thousand bytes behind its exit code is told as a whole.
theorem reports_whole_exit :
    let body := Utf8.encode "133;D;1".toList ++ 0x3B :: List.replicate 5000 0x61
    let chunks := [[0x1B], [0x5D] ++ body ++ [0x1B], [0x5C]]
    Inner body ∧ Ends [0x1B, 0x5C] ∧ chunks.flatten = [0x1B, 0x5D] ++ body ++ [0x1B, 0x5C] ∧
      Marker.ofBytes? body = some (.commandFinished (some 1)) ∧
      (feedAll .ground chunks).2 = [(chunks.flatten.length, .commandFinished (some 1))] ∧
      ∀ item ∈ (feedAll .ground chunks).2, Marker.ofBytes? body = some item.2 := by
  intro body chunks
  have hinner : Inner body := by
    have hfront : Inner (Utf8.encode "133;D;1".toList) := by decide
    refine List.forall_mem_append.mpr ⟨hfront, List.forall_mem_cons.mpr ⟨by decide, ?_⟩⟩
    intro b hb
    rw [List.eq_of_mem_replicate hb]
    decide
  have hstop : Ends [0x1B, 0x5C] := .inr rfl
  have hchunks : chunks.flatten = [0x1B, 0x5D] ++ body ++ [0x1B, 0x5C] := by simp [chunks]
  have hkind : ';' ∉ ['D'] := by decide
  have hargument : ';' ∉ ['1'] := by decide
  have hwhole : Marker.ofBytes? body = some (.commandFinished (some 1)) :=
    ofBytes?_closed (List.forall_mem_nil _) (.inl rfl) hkind hargument (Utf8.decodeLossy_encode _) _
  have hheld : Marker.ofBytes? (body.take capacity) = Marker.ofBytes? body :=
    ofBytes?_take_of_closed (List.forall_mem_nil _) (.inl rfl) hkind hargument
      (Utf8.decodeLossy_encode _) (by decide) _
  obtain ⟨htold, hright⟩ := reports_whole_iff hinner hstop hchunks
  rw [hheld, hwhole] at htold
  exact ⟨hinner, hstop, hchunks, hwhole, htold, hright.mpr (.inr hheld)⟩

-- A command line that is one character too long is told without that character.
theorem reports_cut_line :
    let line := List.replicate 4091 'a'
    let body := Utf8.encode ("633;E;".toList ++ line)
    Inner body ∧ Marker.ofBytes? body = some (.commandLine line) ∧
      (feed .ground ([0x1B, 0x5D] ++ body ++ [0x07])).2 =
        [(4100, .commandLine (List.replicate 4090 'a'))] := by
  intro line body
  have hchar : ∀ c ∈ line, c = 'a' := fun c hc => List.eq_of_mem_replicate hc
  have hline : ∀ c ∈ line, Printable c := by
    intro c hc
    rw [hchar c hc]
    decide
  have hfield : ';' ∉ line := fun hc => absurd (hchar _ hc) (by decide)
  have hplain : '\\' ∉ line := fun hc => absurd (hchar _ hc) (by decide)
  have hpayload := printable_payload hline
  have hlength : ([0x1B, 0x5D] ++ body ++ [0x07]).length = 4100 := by
    have hbody : body.length = 4097 := by
      rw [length_encode, byteLength_printable hpayload, List.length_append, List.length_replicate]
      rfl
    rw [List.length_append, List.length_append, hbody]
    rfl
  have hcut : line.take (capacity - 6) = List.replicate 4090 'a' := List.take_replicate
  refine ⟨inner_encode fun c hc => (hpayload c hc).1, ofBytes?_plainLine hline hfield hplain, ?_⟩
  rw [feed_plainLine hline hfield hplain (.inl rfl), hlength, hcut]

end ShellTranscript.Signal.MarkerDecoder
