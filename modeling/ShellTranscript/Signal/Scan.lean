-- Reading a byte stream in pieces. A decoder is a state and a step that reads one byte; a scan runs
-- it over a piece and tells, for every item found, how many bytes of the piece were read up to it.
-- Cutting a piece in two and scanning the parts one after the other finds the same items.
namespace ShellTranscript.Signal

variable {σ α : Type}

-- An item together with the offset one past the byte that completed it.
abbrev Located (α : Type) := Nat × α

def Located.shift (n : Nat) (item : Located α) : Located α := (n + item.1, item.2)

-- Reads the bytes that follow the first `offset` bytes of a piece.
def scanFrom (step : σ → UInt8 → σ × List α) (offset : Nat) (s : σ) :
    List UInt8 → σ × List (Located α)
  | [] => (s, [])
  | b :: bytes =>
    let (next, items) := step s b
    let (last, rest) := scanFrom step (offset + 1) next bytes
    (last, items.map (fun item => (offset + 1, item)) ++ rest)

def scan (step : σ → UInt8 → σ × List α) (s : σ) (bytes : List UInt8) : σ × List (Located α) :=
  scanFrom step 0 s bytes

theorem scanFrom_append (step : σ → UInt8 → σ × List α) (offset : Nat) (s : σ)
    (front back : List UInt8) :
    scanFrom step offset s (front ++ back) =
      let first := scanFrom step offset s front
      let second := scanFrom step (offset + front.length) first.1 back
      (second.1, first.2 ++ second.2) := by
  induction front generalizing offset s with
  | nil => simp [scanFrom]
  | cons b front ih =>
    simp [scanFrom, ih, List.append_assoc, Nat.add_assoc, Nat.add_comm 1]

theorem scanFrom_eq_scan (step : σ → UInt8 → σ × List α) (offset : Nat) (s : σ)
    (bytes : List UInt8) :
    scanFrom step offset s bytes =
      ((scan step s bytes).1, (scan step s bytes).2.map (Located.shift offset)) := by
  suffices h : ∀ base, scanFrom step (offset + base) s bytes =
      ((scanFrom step base s bytes).1,
        (scanFrom step base s bytes).2.map (Located.shift offset)) by
    simpa [scan] using h 0
  intro base
  induction bytes generalizing base s with
  | nil => simp [scanFrom]
  | cons b bytes ih =>
    have hnext := ih (step s b).1 (base + 1)
    simp [scanFrom, hnext, Located.shift, Function.comp_def, Nat.add_assoc]

-- A piece cut in two: the second part's offsets count from the cut.
theorem scan_append (step : σ → UInt8 → σ × List α) (s : σ) (front back : List UInt8) :
    scan step s (front ++ back) =
      let first := scan step s front
      let second := scan step first.1 back
      (second.1, first.2 ++ second.2.map (Located.shift front.length)) := by
  rw [scan, scanFrom_append]
  simp only [Nat.zero_add]
  rw [scanFrom_eq_scan step front.length]
  rfl

end ShellTranscript.Signal
