import Mathlib.Tactic.Common
import ShellTranscript.Signal.Scan

-- Byte streams that arrive in chunks. However a stream is cut, a decoder finds the same items in it
-- and ends in the same state.
namespace ShellTranscript.Signal

variable {σ α : Type}

-- A stream in chunks, with the ends of its items counted from where the stream starts.
def scanAll (step : σ → UInt8 → σ × List α) (s : σ) : List (List UInt8) → σ × List (Located α)
  | [] => (s, [])
  | chunk :: chunks =>
    let (next, items) := scan step s chunk
    let (last, rest) := scanAll step next chunks
    (last, items ++ rest.map (Located.shift chunk.length))

theorem scanAll_eq_scan (step : σ → UInt8 → σ × List α) (s : σ) (chunks : List (List UInt8)) :
    scanAll step s chunks = scan step s chunks.flatten := by
  induction chunks generalizing s with
  | nil => rfl
  | cons chunk chunks ih =>
    rw [List.flatten_cons, scan_append]
    simp only [scanAll, ih]

theorem scan_cons (step : σ → UInt8 → σ × List α) (s : σ) (b : UInt8) (bytes : List UInt8) :
    scan step s (b :: bytes) = ((scan step (step s b).1 bytes).1,
      (step s b).2.map (fun item => (1, item)) ++
        (scan step (step s b).1 bytes).2.map (Located.shift 1)) := by
  simp only [scan, scanFrom]
  rw [scanFrom_eq_scan]
  rfl

-- Bytes in which nothing is found only move what is found behind them.
theorem scan_append_of_silent {step : σ → UInt8 → σ × List α} {s s' : σ} {front : List UInt8}
    (h : scan step s front = (s', [])) (back : List UInt8) :
    scan step s (front ++ back) =
      ((scan step s' back).1, (scan step s' back).2.map (Located.shift front.length)) := by
  rw [scan_append, h]
  rfl

-- Bytes that each lead back to where they were read.
theorem scan_of_loop {step : σ → UInt8 → σ × List α} {s : σ} {bytes : List UInt8}
    (h : ∀ b ∈ bytes, step s b = (s, [])) : scan step s bytes = (s, []) := by
  induction bytes with
  | nil => rfl
  | cons b bytes ih =>
    obtain ⟨hb, hbytes⟩ := List.forall_mem_cons.mp h
    rw [scan_cons, hb, ih hbytes]
    rfl

end ShellTranscript.Signal
