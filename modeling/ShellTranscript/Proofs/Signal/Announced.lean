import Mathlib.Tactic.Common
import ShellTranscript.Proofs.Signal.Payload
import ShellTranscript.Proofs.Signal.Told
import ShellTranscript.Proofs.Text.Cut
import ShellTranscript.Proofs.Text.Decoded
import ShellTranscript.Proofs.Session.Script

-- What the shell tells by a marker in the middle of plain output, and what the markers of a command's
-- life say.
namespace ShellTranscript

open Text Signal

namespace ShellDecoder

-- In the middle of neither a marker nor a control sequence.
structure Between (d : ShellDecoder) : Prop where
  markers : d.markers = .ground
  modes : d.modes.phase = .ground

-- The last of these bytes completes a notice, and nothing is told before.
structure Hears (d : ShellDecoder) (quiet : List UInt8) (b : UInt8) (notice : ShellNotice) : Prop where
  silent : d.told quiet = []
  tells : ((d.feed quiet).1.step b).2 = [notice]

theorem Between.step_plain {d : ShellDecoder} (h : d.Between) {b : UInt8} (hb : b ≠ 0x1B) :
    d.step b = (d, []) := by
  obtain ⟨markers, ⟨phase, alternate⟩, shell⟩ := d
  obtain ⟨hmarkers, hmodes⟩ := h
  simp only at hmarkers hmodes
  subst hmarkers hmodes
  simp only [ShellDecoder.step, MarkerDecoder.step, ModeDecoder.step, if_neg hb, List.map_nil,
    List.append_nil, List.foldl_nil]

theorem Between.feed_plain {d : ShellDecoder} (h : d.Between) {bytes : List UInt8}
    (hbytes : ∀ b ∈ bytes, b ≠ 0x1B) : (d.feed bytes).1 = d ∧ d.told bytes = [] := by
  induction bytes with
  | nil => exact ⟨rfl, rfl⟩
  | cons b bytes ih =>
    obtain ⟨hfeed, htold⟩ := ih fun c hc => hbytes c (List.mem_cons_of_mem _ hc)
    rw [feed_cons, told_cons, h.step_plain (hbytes b List.mem_cons_self)]
    exact ⟨hfeed, htold⟩

-- A payload is held until it ends.
theorem feed_payload {d : ShellDecoder} {held : List UInt8} (hmarkers : d.markers = .payload held)
    (hmodes : d.modes.phase = .ground) {payload : List UInt8}
    (hpayload : ∀ b ∈ payload, b ≠ 0x07 ∧ b ≠ 0x1B)
    (hroom : held.length + payload.length ≤ MarkerDecoder.capacity) :
    (d.feed payload).1 = { d with markers := .payload (payload.reverse ++ held) } ∧
      d.told payload = [] := by
  induction payload generalizing d held with
  | nil =>
    refine ⟨?_, rfl⟩
    rw [List.reverse_nil, List.nil_append, ← hmarkers]
    rfl
  | cons b payload ih =>
    obtain ⟨hbell, hescape⟩ := hpayload b List.mem_cons_self
    rw [List.length_cons] at hroom
    have hstep : d.step b = ({ d with markers := .payload (b :: held) }, []) := by
      obtain ⟨markers, ⟨phase, alternate⟩, shell⟩ := d
      simp only at hmarkers hmodes
      subst hmarkers hmodes
      have hheld : MarkerDecoder.hold held b = b :: held := by
        rw [MarkerDecoder.hold, if_pos (by omega)]
      simp only [ShellDecoder.step, MarkerDecoder.step, ModeDecoder.step, if_neg hbell,
        if_neg hescape, hheld, List.map_nil, List.append_nil, List.foldl_nil]
    obtain ⟨hfeed, htold⟩ := ih (d := { d with markers := .payload (b :: held) }) rfl hmodes
      (fun c hc => hpayload c (List.mem_cons_of_mem _ hc)) (by rw [List.length_cons]; omega)
    rw [feed_cons, told_cons, hstep]
    refine ⟨?_, htold⟩
    rw [hfeed, List.reverse_cons, List.append_assoc]
    rfl

-- A marker behind plain output is told at its end.
theorem Between.hears_mark {d : ShellDecoder} (h : d.Between) {plain : List UInt8}
    (hplain : ∀ b ∈ plain, b ≠ 0x1B) {payload : Text} (hpayload : ∀ c ∈ payload, Printable c)
    (hroom : payload.length ≤ MarkerDecoder.capacity) {m : Marker}
    (hmarker : Marker.ofPayload? payload = some m) :
    d.Hears (plain ++ ([0x1B, 0x5D] ++ Utf8.encode payload)) 0x07 (.ofMarker m) ∧
      ((d.feed (plain ++ ([0x1B, 0x5D] ++ Utf8.encode payload))).1.step 0x07).1 =
        { d with shell := d.shell.apply (.ofMarker m) } := by
  obtain ⟨hfeed, htold⟩ := h.feed_plain hplain
  obtain ⟨markers, ⟨phase, alternate⟩, shell⟩ := d
  obtain ⟨hmarkers, hmodes⟩ := h
  simp only at hmarkers hmodes
  subst hmarkers hmodes
  have hbytes : ∀ b ∈ Utf8.encode payload, b ≠ 0x07 ∧ b ≠ 0x1B := by
    intro b hb
    have hlow := (mem_encode hpayload hb).1
    constructor <;> rintro rfl <;> exact absurd hlow (by decide)
  obtain ⟨hheld, hquiet⟩ := feed_payload (d := ⟨.payload [], ⟨.ground, alternate⟩, shell⟩) rfl rfl
    hbytes (by
      rw [length_encode, byteLength_printable hpayload, List.length_nil, Nat.zero_add]
      exact hroom)
  have hopen : ((⟨.ground, ⟨.ground, alternate⟩, shell⟩ : ShellDecoder).feed [0x1B, 0x5D]).1 =
      ⟨.payload [], ⟨.ground, alternate⟩, shell⟩ := rfl
  have hsilent : (⟨.ground, ⟨.ground, alternate⟩, shell⟩ : ShellDecoder).told [0x1B, 0x5D] = [] := rfl
  have hcomplete : MarkerDecoder.complete ((Utf8.encode payload).reverse ++ []) = [m] := by
    rw [MarkerDecoder.complete, List.append_nil, List.reverse_reverse, Marker.ofBytes?,
      Utf8.decodeLossy_encode, hmarker]
    rfl
  have hbefore : ((⟨.ground, ⟨.ground, alternate⟩, shell⟩ : ShellDecoder).feed
      (plain ++ ([0x1B, 0x5D] ++ Utf8.encode payload))).1 =
        ⟨.payload ((Utf8.encode payload).reverse ++ []), ⟨.ground, alternate⟩, shell⟩ := by
    simp only [feed_append, hfeed, hopen, hheld]
  have hstep : (⟨.payload ((Utf8.encode payload).reverse ++ []), ⟨.ground, alternate⟩, shell⟩ :
      ShellDecoder).step 0x07 =
        (⟨.ground, ⟨.ground, alternate⟩, shell.apply (.ofMarker m)⟩, [.ofMarker m]) := by
    simp only [ShellDecoder.step, MarkerDecoder.step, if_true, hcomplete]
    rfl
  refine ⟨⟨?_, ?_⟩, ?_⟩
  · rw [told_append, told_append, htold, hfeed, hsilent, hopen, hquiet]
    rfl
  · rw [hbefore, hstep]
  · rw [hbefore, hstep]

end ShellDecoder

theorem ofPayload?_fixed : Marker.ofPayload? Episode.promptMark = some .promptStart ∧
    Marker.ofPayload? Episode.inputMark = some .commandStart ∧
    Marker.ofPayload? Episode.outputMark = some .commandExecuted := by
  decide +kernel

theorem ofPayload?_exitMark {exitCode : Int} (hlow : -0x80000000 ≤ exitCode)
    (hhigh : exitCode ≤ 0x7FFFFFFF) : Marker.ofPayload? (Episode.exitMark exitCode) =
      some (.commandFinished (some exitCode)) := by
  have htrim : trim (decimal exitCode) = decimal exitCode :=
    trim_eq_self fun c hc => (mem_decimal hc).2.1
  have hend : ∀ c, (decimal exitCode).getLast? = some c → c ≠ Char.ofNat 0 := by
    rintro c hc rfl
    exact absurd (mem_decimal (List.mem_of_getLast? hc)).1 (by decide)
  have hkind : ';' ∉ ['D'] := by decide
  have hpayload : Marker.ofPayload? (Episode.exitMark exitCode) =
      Marker.ofFields [['D'], decimal exitCode] :=
    Marker.ofPayload?_fields (.inl rfl) hkind (fun hmem => (mem_decimal hmem).2.2 rfl) hend
  rw [hpayload]
  simp only [Marker.ofFields, List.head?_cons, Option.bind_some, htrim, exitCode?_decimal hlow hhigh]

end ShellTranscript
