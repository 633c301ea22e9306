import Mathlib.Tactic.Common
import ShellTranscript.Proofs.Signal.Chunks
import ShellTranscript.Signal.ShellDecoder

-- What a shell tells in a piece of its output. A byte completes at most one notice; what is told
-- depends on the markers and the modes under way, not on what was told before; and of the command
-- lines and exit codes that are told the last ones are known afterwards.
namespace ShellTranscript

open Signal

namespace Signal

theorem MarkerDecoder.eq_nil_of_step (d : MarkerDecoder) {b : UInt8} (hbell : b ≠ 0x07)
    (hslash : b ≠ 0x5C) : (d.step b).2 = [] := by
  cases d with
  | ground => rfl
  | escape => rfl
  | payload held =>
    simp only [MarkerDecoder.step, if_neg hbell]
    split <;> rfl
  | payloadEscape held =>
    simp only [MarkerDecoder.step, if_neg hslash]
    split <;> rfl

theorem MarkerDecoder.length_step_le (d : MarkerDecoder) (b : UInt8) : (d.step b).2.length ≤ 1 := by
  have hcomplete : ∀ held, (MarkerDecoder.complete held).length ≤ 1 := by
    intro held
    rw [MarkerDecoder.complete]
    cases Marker.ofBytes? held.reverse <;> simp
  cases d with
  | ground => simp [MarkerDecoder.step]
  | escape => simp [MarkerDecoder.step]
  | payload held =>
    simp only [MarkerDecoder.step]
    split
    · exact hcomplete held
    · split <;> simp
  | payloadEscape held =>
    simp only [MarkerDecoder.step]
    split
    · exact hcomplete held
    · split <;> simp

-- A byte tells nothing of modes unless it ends a control sequence.
theorem ModeDecoder.step_snd (t : ModeDecoder) (b : UInt8) : (t.step b).2 = [] ∨
    ∃ marker numbers, (t.step b).2 = (ModeDecoder.dispatch t.alternate marker numbers b).2 := by
  unfold ModeDecoder.step
  split
  · exact Or.inl rfl
  · split
    · exact Or.inl rfl
    · split <;> exact Or.inl rfl
  · split
    · exact Or.inl rfl
    · split
      · exact Or.inl rfl
      · split
        · exact Or.inl rfl
        · split
          · exact Or.inl rfl
          · exact Or.inr ⟨_, _, rfl⟩

theorem ModeDecoder.length_step_le (t : ModeDecoder) (b : UInt8) : (t.step b).2.length ≤ 1 := by
  rcases t.step_snd b with hstep | ⟨marker, numbers, hstep⟩
  · simp [hstep]
  · rw [hstep]
    unfold ModeDecoder.dispatch
    split
    · dsimp only
      split <;> simp
    · split <;> simp

-- The bytes that end a marker end no mode switch.
theorem ModeDecoder.eq_nil_of_step (t : ModeDecoder) {b : UInt8} (h : b = 0x07 ∨ b = 0x5C) :
    (t.step b).2 = [] := by
  rcases t.step_snd b with hstep | ⟨marker, numbers, hstep⟩
  · exact hstep
  · rw [hstep]
    rcases h with rfl | rfl <;> simp [ModeDecoder.dispatch]

end Signal

namespace ShellDecoder

-- A byte completes nothing, or one notice.
theorem step_eq_nil_or (d : ShellDecoder) (b : UInt8) :
    (d.step b).2 = [] ∨ ∃ notice, (d.step b).2 = [notice] := by
  have hlength : (d.step b).2.length ≤ 1 := by
    have hmarkers := d.markers.length_step_le b
    have hmodes := d.modes.length_step_le b
    by_cases hends : b = 0x07 ∨ b = 0x5C
    · simp [ShellDecoder.step, d.modes.eq_nil_of_step hends, hmarkers]
    · rw [not_or] at hends
      simp [ShellDecoder.step, d.markers.eq_nil_of_step hends.1 hends.2, hmodes]
  cases hstep : (d.step b).2 with
  | nil => exact Or.inl rfl
  | cons notice rest =>
    refine Or.inr ⟨notice, ?_⟩
    rw [hstep] at hlength
    simp_all

-- What the shell tells in some bytes.
def told (d : ShellDecoder) (bytes : List UInt8) : List ShellNotice :=
  (d.feed bytes).2.map Prod.snd

theorem told_cons (d : ShellDecoder) (b : UInt8) (bytes : List UInt8) :
    d.told (b :: bytes) = (d.step b).2 ++ (d.step b).1.told bytes := by
  rw [told, ShellDecoder.feed, scan_cons]
  simp [told, ShellDecoder.feed, Function.comp_def, Located.shift]

theorem feed_append (d : ShellDecoder) (front back : List UInt8) :
    d.feed (front ++ back) =
      (((d.feed front).1.feed back).1,
        (d.feed front).2 ++ ((d.feed front).1.feed back).2.map (Located.shift front.length)) :=
  scan_append step d front back

theorem told_append (d : ShellDecoder) (front back : List UInt8) :
    d.told (front ++ back) = d.told front ++ (d.feed front).1.told back := by
  simp only [told, feed_append]
  simp [Located.shift, Function.comp_def]

theorem feed_cons (d : ShellDecoder) (b : UInt8) (bytes : List UInt8) :
    (d.feed (b :: bytes)).1 = ((d.step b).1.feed bytes).1 := by
  rw [ShellDecoder.feed, scan_cons]
  rfl

theorem exists_step_of_mem_told {d : ShellDecoder} {notice : ShellNotice} {bytes : List UInt8}
    (h : notice ∈ d.told bytes) :
    ∃ front b back, bytes = front ++ b :: back ∧ ((d.feed front).1.step b).2 = [notice] := by
  induction bytes generalizing d with
  | nil => cases h
  | cons b bytes ih =>
    rw [told_cons] at h
    cases List.mem_append.mp h with
    | inl hfirst =>
      refine ⟨[], b, bytes, rfl, ?_⟩
      rcases d.step_eq_nil_or b with hnil | ⟨other, hother⟩
      · rw [hnil] at hfirst
        cases hfirst
      · rw [hother] at hfirst
        obtain rfl := List.mem_singleton.mp hfirst
        exact hother
    | inr hlater =>
      obtain ⟨front, c, back, hbytes, hstep⟩ := ih hlater
      refine ⟨b :: front, c, back, by rw [hbytes, List.cons_append], ?_⟩
      rw [feed_cons]
      exact hstep

theorem told_concat {d : ShellDecoder} {front : List UInt8} {b : UInt8} {notice : ShellNotice}
    (h : ((d.feed front).1.step b).2 = [notice]) :
    d.told (front ++ [b]) = d.told front ++ [notice] := by
  rw [told_append, told_cons, h]
  rfl

-- What is known after a byte and more bytes.
theorem foldl_told_cons (d : ShellDecoder) (b : UInt8) (bytes : List UInt8) :
    (d.told (b :: bytes)).foldl ShellStatus.apply d.shell =
      ((d.step b).1.told bytes).foldl ShellStatus.apply (d.step b).1.shell := by
  rw [told_cons, List.foldl_append]
  rfl

-- Decoders in the middle of the same marker and mode switch.
def InStep (d d' : ShellDecoder) : Prop := d'.markers = d.markers ∧ d'.modes = d.modes

theorem InStep.refl (d : ShellDecoder) : d.InStep d := ⟨rfl, rfl⟩

theorem InStep.symm {d d' : ShellDecoder} (h : d.InStep d') : d'.InStep d := ⟨h.1.symm, h.2.symm⟩

theorem InStep.trans {d d' d'' : ShellDecoder} (h : d.InStep d') (h' : d'.InStep d'') :
    d.InStep d'' := ⟨h'.1.trans h.1, h'.2.trans h.2⟩

theorem InStep.step {d d' : ShellDecoder} (h : d.InStep d') (b : UInt8) :
    (d.step b).1.InStep (d'.step b).1 ∧ (d'.step b).2 = (d.step b).2 := by
  obtain ⟨hmarkers, hmodes⟩ := h
  simp [ShellDecoder.step, InStep, hmarkers, hmodes]

theorem InStep.scanFrom {d d' : ShellDecoder} (h : d.InStep d') (offset : Nat)
    (bytes : List UInt8) :
    (Signal.scanFrom ShellDecoder.step offset d bytes).1.InStep
        (Signal.scanFrom ShellDecoder.step offset d' bytes).1 ∧
      (Signal.scanFrom ShellDecoder.step offset d' bytes).2 =
        (Signal.scanFrom ShellDecoder.step offset d bytes).2 := by
  induction bytes generalizing d d' offset with
  | nil => exact ⟨h, rfl⟩
  | cons b bytes ih =>
    obtain ⟨hnext, hitems⟩ := h.step b
    obtain ⟨hlast, hrest⟩ := ih hnext (offset + 1)
    refine ⟨hlast, ?_⟩
    simp only [Signal.scanFrom, hitems, hrest]

theorem shell_feed (d : ShellDecoder) (bytes : List UInt8) :
    (d.feed bytes).1.shell = (d.told bytes).foldl ShellStatus.apply d.shell := by
  induction bytes generalizing d with
  | nil => rfl
  | cons b bytes ih => rw [feed_cons, ih, foldl_told_cons]

theorem InStep.feed {d d' : ShellDecoder} (h : d.InStep d') (bytes : List UInt8) :
    (d.feed bytes).1.InStep (d'.feed bytes).1 := (h.scanFrom 0 bytes).1

theorem InStep.told {d d' : ShellDecoder} (h : d.InStep d') (bytes : List UInt8) :
    d'.told bytes = d.told bytes := by
  simp only [ShellDecoder.told, ShellDecoder.feed, scan, (h.scanFrom 0 bytes).2]

end ShellDecoder

def ShellNotice.line? : ShellNotice → Option Text
  | .commandLine line => some line
  | _ => none

def ShellNotice.code? : ShellNotice → Option Int
  | .commandFinished exitCode => some exitCode
  | _ => none

theorem reportedCommand_foldl (notices : List ShellNotice) (s : ShellStatus) :
    (notices.foldl ShellStatus.apply s).reportedCommand =
      ((notices.filterMap ShellNotice.line?).getLast? <|> s.reportedCommand) := by
  induction notices generalizing s with
  | nil => rfl
  | cons notice notices ih =>
    rw [List.foldl_cons, ih]
    cases notice with
    | commandLine line =>
      simp only [ShellStatus.apply, ShellNotice.line?, List.filterMap_cons, List.getLast?_cons]
      cases (notices.filterMap ShellNotice.line?).getLast? <;> rfl
    | _ => rfl

theorem mem_of_getLast?_line? {notices : List ShellNotice} {line : Text}
    (h : (notices.filterMap ShellNotice.line?).getLast? = some line) :
    .commandLine line ∈ notices := by
  obtain ⟨notice, hmem, hline⟩ := List.mem_filterMap.mp (List.mem_of_getLast? h)
  cases notice with
  | commandLine text =>
    simp only [ShellNotice.line?, Option.some.injEq] at hline
    exact hline ▸ hmem
  | _ => cases hline

theorem lastExit_foldl (notices : List ShellNotice) (s : ShellStatus) :
    (notices.foldl ShellStatus.apply s).lastExit =
      ((notices.filterMap ShellNotice.code?).getLast? <|> s.lastExit) := by
  induction notices generalizing s with
  | nil => rfl
  | cons notice notices ih =>
    rw [List.foldl_cons, ih]
    cases notice with
    | commandFinished exitCode =>
      simp only [ShellStatus.apply, ShellNotice.code?, List.filterMap_cons, List.getLast?_cons]
      cases (notices.filterMap ShellNotice.code?).getLast? <;> rfl
    | _ => rfl

theorem mem_of_getLast?_code? {notices : List ShellNotice} {code : Int}
    (h : (notices.filterMap ShellNotice.code?).getLast? = some code) :
    .commandFinished code ∈ notices := by
  obtain ⟨notice, hmem, hcode⟩ := List.mem_filterMap.mp (List.mem_of_getLast? h)
  cases notice with
  | commandFinished exitCode =>
    simp only [ShellNotice.code?, Option.some.injEq] at hcode
    exact hcode ▸ hmem
  | _ => cases hcode

end ShellTranscript
