import Mathlib.Data.List.Induction
import Mathlib.Tactic.Common
import ShellTranscript.Proofs.Signal.Chunks
import ShellTranscript.Signal.MarkerDecoder

-- What becomes of a marker behind bytes that left something unfinished. Whatever the decoder is in
-- the middle of, the marker is found at its end, but for one place: an escape that broke off a
-- payload has been read already, and the escape that starts the marker is taken for the byte behind
-- it.
namespace ShellTranscript.Signal

namespace MarkerDecoder

def feedAll (d : MarkerDecoder) (chunks : List (List UInt8)) : MarkerDecoder × List (Located Marker) :=
  scanAll step d chunks

theorem feedAll_eq_feed (d : MarkerDecoder) (chunks : List (List UInt8)) :
    d.feedAll chunks = d.feed chunks.flatten :=
  scanAll_eq_scan step d chunks

theorem feed_append_of_silent {d d' : MarkerDecoder} {front : List UInt8} (h : d.feed front = (d', []))
    (back : List UInt8) : d.feed (front ++ back) =
      ((d'.feed back).1, (d'.feed back).2.map (Located.shift front.length)) :=
  scan_append_of_silent h back

-- Right behind an escape in a payload, which may still end the payload or start another one.
def isBroken : MarkerDecoder → Bool
  | payloadEscape _ => true
  | _ => false

-- Bytes that stay inside of a payload.
def Inner (bytes : List UInt8) : Prop := ∀ b ∈ bytes, b ≠ 0x07 ∧ b ≠ 0x1B

instance (bytes : List UInt8) : Decidable (Inner bytes) := List.decidableBAll _ bytes

-- The two ways to end a payload.
def Ends (stop : List UInt8) : Prop := stop = [0x07] ∨ stop = [0x1B, 0x5C]

section Sequences

variable {d : MarkerDecoder} {held body stop : List UInt8}

theorem feed_opening (h : d.isBroken = false) : d.feed [0x1B, 0x5D] = (.payload [], []) := by
  cases d with
  | payloadEscape held => cases h
  | _ => rfl

theorem feed_plain (h : 0x1B ∉ body) : feed .ground body = (.ground, []) := by
  refine scan_of_loop fun b hb => ?_
  rw [step, if_neg (ne_of_mem_of_not_mem hb h)]

theorem feed_inner (h : Inner body) :
    feed (.payload held) body = (.payload (body.foldl hold held), []) := by
  induction body generalizing held with
  | nil => rfl
  | cons b body ih =>
    obtain ⟨⟨hbell, hescape⟩, hbody⟩ := List.forall_mem_cons.mp h
    have hstep : step (.payload held) b = (.payload (hold held b), []) := by
      rw [step, if_neg hbell, if_neg hescape]
    have hone : feed (.payload held) [b] = (.payload (hold held b), []) := by
      rw [feed, scan_cons, hstep]
      rfl
    rw [← List.singleton_append, feed_append_of_silent hone, ih hbody]
    rfl

-- Held are the first bytes of a payload, as many as there is room for.
theorem foldl_hold (h : held.length ≤ capacity) :
    body.foldl hold held = (body.take (capacity - held.length)).reverse ++ held := by
  induction body generalizing held with
  | nil => rw [List.take_nil, List.reverse_nil, List.nil_append, List.foldl_nil]
  | cons b body ih =>
    rw [List.foldl_cons]
    by_cases hroom : held.length < capacity
    · have hheld : hold held b = b :: held := if_pos hroom
      have hleft : capacity - held.length = capacity - (b :: held).length + 1 := by
        rw [List.length_cons]
        omega
      rw [hheld, ih (by rw [List.length_cons]; omega), hleft, List.take_succ_cons, List.reverse_cons,
        List.append_assoc]
      rfl
    · have hheld : hold held b = held := if_neg hroom
      have hfull : capacity - held.length = 0 := by omega
      rw [hheld, ih h, hfull, List.take_zero, List.take_zero]

theorem feed_ends (h : Ends stop) :
    feed (.payload held) stop = (.ground, (complete held).map fun m => (stop.length, m)) := by
  rcases h with rfl | rfl <;>
    simp [feed, scan, scanFrom, step]

-- A command from its start to its end tells what the held part of its payload denotes.
theorem feed_command (hopen : d.isBroken = false) (hinner : Inner body) (hstop : Ends stop) :
    d.feed ([0x1B, 0x5D] ++ body ++ stop) = (.ground,
      (Marker.ofBytes? (body.take capacity)).toList.map fun m =>
        (([0x1B, 0x5D] ++ body ++ stop).length, m)) := by
  have hheld : body.foldl hold [] = (body.take capacity).reverse := by
    rw [foldl_hold (Nat.zero_le _), List.append_nil]
    rfl
  have hopened : d.feed ([0x1B, 0x5D] ++ body) = (.payload (body.foldl hold []), []) := by
    rw [feed_append_of_silent (feed_opening hopen), feed_inner hinner]
    rfl
  rw [feed_append_of_silent hopened, feed_ends hstop, complete, hheld, List.reverse_reverse]
  simp only [List.map_map, Function.comp_def, Located.shift, List.length_append]

-- A marker from its start to its end. An escape that is waiting swallows its start.
theorem feed_sequence (d : MarkerDecoder) (hinner : Inner body) (hroom : body.length ≤ capacity)
    (hstop : Ends stop) : d.feed ([0x1B, 0x5D] ++ body ++ stop) =
      (.ground, if d.isBroken then [] else
        (Marker.ofBytes? body).toList.map fun m => (([0x1B, 0x5D] ++ body ++ stop).length, m)) := by
  cases hbroken : d.isBroken with
  | false =>
    rw [feed_command hbroken hinner hstop, List.take_of_length_le hroom]
    rfl
  | true =>
    obtain ⟨held, rfl⟩ : ∃ held, d = .payloadEscape held := by
      cases d with
      | payloadEscape held => exact ⟨held, rfl⟩
      | _ => cases hbroken
    have hlost : feed (.payloadEscape held) ([0x1B, 0x5D] ++ body) = (.ground, []) := by
      have hopening : feed (.payloadEscape held) [0x1B, 0x5D] = (.ground, []) := rfl
      rw [feed_append_of_silent hopening, feed_plain fun hmem => (hinner _ hmem).2 rfl]
      rfl
    rw [feed_append_of_silent hlost]
    rcases hstop with rfl | rfl <;> rfl

-- What the bytes read so far end in.
def Behind (bytes : List UInt8) : MarkerDecoder → Prop
  | ground => True
  | escape => ∃ front, bytes = front ++ [0x1B] ∧ (feed .ground front).1.isBroken = false
  | payload _ => ∃ front body, bytes = front ++ [0x1B, 0x5D] ++ body ∧ Inner body ∧
      (feed .ground front).1.isBroken = false
  | payloadEscape _ => ∃ front body, bytes = front ++ [0x1B, 0x5D] ++ body ++ [0x1B] ∧ Inner body ∧
      (feed .ground front).1.isBroken = false

theorem feed_append (d : MarkerDecoder) (front back : List UInt8) :
    (d.feed (front ++ back)).1 = ((d.feed front).1.feed back).1 := by
  rw [feed, scan_append]
  rfl

theorem behind_feed (bytes : List UInt8) : Behind bytes (feed .ground bytes).1 := by
  induction bytes using List.reverseRecOn with
  | nil => exact trivial
  | append_singleton bytes b ih =>
    have hstep : (feed .ground (bytes ++ [b])).1 = ((feed .ground bytes).1.step b).1 := feed_append _ _ _
    rw [hstep]
    cases hd : (feed .ground bytes).1 with
    | ground =>
      rw [step]
      split
      · rename_i hescape
        exact ⟨bytes, by rw [hescape], by rw [hd]; rfl⟩
      · exact trivial
    | escape =>
      rw [hd] at ih
      obtain ⟨front, rfl, hfront⟩ := ih
      rw [step]
      split
      · rename_i hbracket
        exact ⟨front, [], by simp [hbracket], fun _ hc => (List.not_mem_nil hc).elim, hfront⟩
      · split
        · rename_i hescape
          exact ⟨_, by rw [hescape], by rw [hd]; rfl⟩
        · exact trivial
    | payload held =>
      rw [hd] at ih
      obtain ⟨front, body, rfl, hinner, hfront⟩ := ih
      rw [step]
      split
      · exact trivial
      · rename_i hbell
        split
        · rename_i hescape
          exact ⟨front, body, by rw [hescape], hinner, hfront⟩
        · rename_i hescape
          refine ⟨front, body ++ [b], by rw [List.append_assoc], ?_, hfront⟩
          exact List.forall_mem_append.mpr ⟨hinner, List.forall_mem_singleton.mpr ⟨hbell, hescape⟩⟩
    | payloadEscape held =>
      rw [hd] at ih
      obtain ⟨front, body, rfl, hinner, hfront⟩ := ih
      rw [step]
      split
      · exact trivial
      · split
        · -- The escape that broke off a payload starts another one.
          rename_i hbracket
          refine ⟨front ++ [0x1B, 0x5D] ++ body, [], by simp [hbracket],
            fun _ hc => (List.not_mem_nil hc).elim, ?_⟩
          rw [feed_append, feed_append, feed_opening hfront, feed_inner hinner]
          rfl
        · exact trivial

-- A payload was broken off last, and the decoder was reading that payload.
theorem isBroken_feed_iff (bytes : List UInt8) : (feed .ground bytes).1.isBroken = true ↔
    ∃ front body, bytes = front ++ [0x1B, 0x5D] ++ body ++ [0x1B] ∧ Inner body ∧
      (feed .ground front).1.isBroken = false := by
  constructor
  · intro hbroken
    have hbehind := behind_feed bytes
    cases hd : (feed .ground bytes).1 with
    | payloadEscape held =>
      rw [hd] at hbehind
      exact hbehind
    | _ =>
      rw [hd] at hbroken
      cases hbroken
  · rintro ⟨front, body, rfl, hinner, hfront⟩
    rw [feed_append, feed_append, feed_append, feed_opening hfront, feed_inner hinner]
    rfl

-- Whatever a stream left unfinished, the marker behind it is found at its end, and nothing else with
-- it, just if the stream does not end in an escape that broke off a payload. What that is, its bytes
-- tell.
theorem found_after_iff (before after : List (List UInt8)) (hinner : Inner body)
    (hroom : body.length ≤ capacity) (hstop : Ends stop) {m : Marker}
    (hm : Marker.ofBytes? body = some m) (hafter : after.flatten = [0x1B, 0x5D] ++ body ++ stop) :
    (((feedAll .ground before).1.feedAll after).2 = [(after.flatten.length, m)] ↔
      (feedAll .ground before).1.isBroken = false) ∧
    ((feedAll .ground before).1.isBroken = true ↔
      ∃ front payload, before.flatten = front ++ [0x1B, 0x5D] ++ payload ++ [0x1B] ∧ Inner payload ∧
        (feed .ground front).1.isBroken = false) := by
  constructor
  · rw [feedAll_eq_feed _ after, hafter, feed_sequence _ hinner hroom hstop, hm]
    cases (feedAll .ground before).1.isBroken <;> simp
  · rw [feedAll_eq_feed]
    exact isBroken_feed_iff before.flatten

-- Behind a payload without an end the next marker is found, to its last byte.
theorem found_after_payload :
    ((feedAll .ground [[0x1B, 0x5D, 0x78]]).1.feedAll
      [[0x1B, 0x5D, 0x31, 0x33, 0x33], [0x3B, 0x41, 0x1B], [0x5C]]).2 = [(9, .promptStart)] := by
  have hinner : Inner [0x31, 0x33, 0x33, 0x3B, 0x41] := by decide
  have hstop : Ends [0x1B, 0x5C] := .inr rfl
  have hm : Marker.ofBytes? [0x31, 0x33, 0x33, 0x3B, 0x41] = some .promptStart := by decide +kernel
  exact (found_after_iff [[0x1B, 0x5D, 0x78]] _ hinner (by decide) hstop hm rfl).1.mpr rfl

-- Behind a payload that an escape broke off it is lost.
theorem lost_after_escape :
    let body : List UInt8 := [0x31, 0x33, 0x33, 0x3B, 0x41]
    Inner body ∧ body.length ≤ capacity ∧ Ends [0x07] ∧ Marker.ofBytes? body = some .promptStart ∧
      ((feedAll .ground [[0x1B, 0x5D, 0x78, 0x1B]]).1.feedAll [[0x1B, 0x5D] ++ body ++ [0x07]]).2 = [] :=
  ⟨by decide, by decide, .inl rfl, by decide +kernel, by decide +kernel⟩

end Sequences

end MarkerDecoder

end ShellTranscript.Signal
