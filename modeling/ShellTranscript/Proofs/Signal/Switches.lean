import Mathlib.Data.List.Induction
import Mathlib.Tactic.Common
import ShellTranscript.Proofs.Signal.Chunks
import ShellTranscript.Signal.ModeDecoder

-- The switches between the main and the alternate buffer. What is told of them alternates, and the
-- last one told is how the decoder stands. A switch behind bytes that left something unfinished is
-- followed, but for one place: in a control sequence without its end, the escape that starts the
-- switch is taken for that end.
namespace ShellTranscript.Signal

def ModeChange.flag? : ModeChange → Option Bool
  | alternateBuffer enabled => some enabled
  | clearScrollback => none

-- The buffers that are switched to, in order.
def flags (found : List (Located ModeChange)) : List Bool := found.filterMap fun item => item.2.flag?

@[simp] theorem flags_append (found more : List (Located ModeChange)) :
    flags (found ++ more) = flags found ++ flags more :=
  List.filterMap_append ..

@[simp] theorem flags_shift (n : Nat) (found : List (Located ModeChange)) :
    flags (found.map (Located.shift n)) = flags found := by
  rw [flags, List.filterMap_map]
  rfl

namespace ModeDecoder

def feedAll (t : ModeDecoder) (chunks : List (List UInt8)) : ModeDecoder × List (Located ModeChange) :=
  scanAll step t chunks

theorem feedAll_eq_feed (t : ModeDecoder) (chunks : List (List UInt8)) :
    t.feedAll chunks = t.feed chunks.flatten :=
  scanAll_eq_scan step t chunks

section Switches

variable {t : ModeDecoder} {mode : Nat} {body : List UInt8}

theorem flags_dispatch (alternate : Bool) (marker : Option UInt8) (numbers : List Nat) (final : UInt8) :
    (dispatch alternate marker numbers final).2.filterMap ModeChange.flag? =
      if (dispatch alternate marker numbers final).1 = alternate then []
      else [(dispatch alternate marker numbers final).1] := by
  unfold dispatch
  split
  · dsimp only
    split
    · rename_i hswitched
      rw [Bool.and_eq_true, bne_iff_ne] at hswitched
      rw [if_neg (Ne.symm hswitched.2)]
      rfl
    · rw [if_pos rfl]
      rfl
  · split <;> rw [if_pos rfl] <;> rfl

-- A byte tells the buffer just when it switches to it.
theorem flags_step (t : ModeDecoder) (b : UInt8) : (t.step b).2.filterMap ModeChange.flag? =
    if (t.step b).1.alternate = t.alternate then [] else [(t.step b).1.alternate] := by
  cases t with
  | mk phase alternate =>
    cases phase with
    | ground =>
      simp only [step]
      split <;> simp
    | escape =>
      simp only [step]
      split
      · simp
      · split <;> simp
    | sequence marker current numbers =>
      simp only [step]
      split
      · simp
      · split
        · simp
        · split
          · simp
          · split
            · simp
            · exact flags_dispatch ..

theorem flags_feed_cons (t : ModeDecoder) (b : UInt8) (bytes : List UInt8) :
    flags (t.feed (b :: bytes)).2 = (if (t.step b).1.alternate = t.alternate then []
      else [(t.step b).1.alternate]) ++ flags ((t.step b).1.feed bytes).2 := by
  rw [feed, scan_cons, flags_append, flags_shift, ← flags_step, flags, List.filterMap_map]
  rfl

theorem feed_cons (t : ModeDecoder) (b : UInt8) (bytes : List UInt8) :
    (t.feed (b :: bytes)).1 = ((t.step b).1.feed bytes).1 := by
  rw [feed, scan_cons]
  rfl

-- The buffers switched to from a decoder alternate, and the first one is the one it is not in.
theorem flags_feed (t : ModeDecoder) (bytes : List UInt8) : flags (t.feed bytes).2 =
    (List.range (flags (t.feed bytes).2).length).map fun i => t.alternate ^^ decide (i % 2 = 0) := by
  induction bytes generalizing t with
  | nil => rfl
  | cons b bytes ih =>
    have hrest := ih (t.step b).1
    rw [flags_feed_cons]
    split
    · rename_i hsame
      rw [List.nil_append, hrest, List.length_map, List.length_range, hsame]
    · rename_i hswitched
      have hother : (t.step b).1.alternate = !t.alternate := Bool.eq_not_of_ne hswitched
      rw [List.singleton_append, List.length_cons, List.range_succ_eq_map, List.map_cons, List.map_map,
        hrest, List.length_map, List.length_range, hother]
      congr 1
      · simp
      · refine List.map_congr_left fun i _ => ?_
        have hparity : decide ((i + 1) % 2 = 0) = !decide (i % 2 = 0) := by
          rw [← decide_not, decide_eq_decide]
          omega
        rw [Function.comp_apply, hparity, Bool.not_xor, Bool.xor_not]

theorem alternate_feed (t : ModeDecoder) (bytes : List UInt8) :
    (t.feed bytes).1.alternate = (flags (t.feed bytes).2).getLast?.getD t.alternate := by
  induction bytes generalizing t with
  | nil => rfl
  | cons b bytes ih =>
    rw [feed_cons, flags_feed_cons, ih, List.getLast?_append]
    split
    · rename_i hsame
      rw [hsame]
      cases (flags ((t.step b).1.feed bytes).2).getLast? <;> rfl
    · cases (flags ((t.step b).1.feed bytes).2).getLast? <;> rfl

-- From the main buffer on, the buffers switched to are the alternate one, the main one, and so on in
-- turn, and the last of them is the one in use.
theorem switches_alternate (chunks : List (List UInt8)) :
    flags (feedAll {} chunks).2 =
        (List.range (flags (feedAll {} chunks).2).length).map (fun i => decide (i % 2 = 0)) ∧
      (feedAll {} chunks).1.alternate = (flags (feedAll {} chunks).2).getLast?.getD false := by
  rw [feedAll_eq_feed]
  refine ⟨?_, alternate_feed {} chunks.flatten⟩
  simpa only [Bool.false_xor] using flags_feed {} chunks.flatten

-- Inside of a control sequence.
def isReading (t : ModeDecoder) : Bool :=
  match t.phase with
  | .sequence .. => true
  | _ => false

-- A private mode by its number, set or reset.
def switch (mode : Nat) (enabled : Bool) : List UInt8 :=
  [0x1B, 0x5B, 0x3F] ++ (Nat.toDigits 10 mode).map (fun c => c.toNat.toUInt8) ++
    [if enabled then 0x68 else 0x6C]

theorem step_escape (t : ModeDecoder) : t.step 0x1B =
    ({ t with phase := if t.isReading then .ground else .escape }, []) := by
  cases t with
  | mk phase alternate =>
    cases phase with
    | ground => rfl
    | escape => rfl
    | sequence marker current numbers => simp [step, isReading, isMarker, dispatch]

theorem feed_plain (h : 0x1B ∉ body) {alternate : Bool} :
    feed ⟨.ground, alternate⟩ body = (⟨.ground, alternate⟩, []) := by
  refine scan_of_loop fun b hb => ?_
  simp only [step, if_neg (ne_of_mem_of_not_mem hb h)]

theorem feed_switch (t : ModeDecoder) (enabled : Bool) (hmode : isAlternateMode mode = true) :
    (t.feed (switch mode enabled)).1 = ⟨.ground, if t.isReading then t.alternate else enabled⟩ := by
  have hmodes : mode = 47 ∨ mode = 1047 ∨ mode = 1049 := by
    simpa [isAlternateMode, or_assoc] using hmode
  rw [switch, List.cons_append, List.cons_append, feed_cons, step_escape]
  cases t.isReading with
  | true =>
    rw [if_pos rfl, if_pos rfl, feed_plain]
    rcases hmodes with rfl | rfl | rfl <;> cases enabled <;> decide
  | false =>
    rw [if_neg Bool.false_ne_true, if_neg Bool.false_ne_true]
    generalize t.alternate = alternate
    rcases hmodes with rfl | rfl | rfl <;> cases enabled <;> cases alternate <;> rfl

theorem feed_append (t : ModeDecoder) (front back : List UInt8) :
    (t.feed (front ++ back)).1 = ((t.feed front).1.feed back).1 := by
  rw [feed, scan_append]
  rfl

theorem feed_introducer (h : t.isReading = false) :
    (t.feed [0x1B, 0x5B]).1 = ⟨.sequence none none [], t.alternate⟩ := by
  rw [feed_cons, step_escape, h]
  rfl

def IsPadding (b : UInt8) : Prop := 0x20 ≤ b ∧ b ≤ 0x2F

-- Digits, separators and padding.
def IsParameter (b : UInt8) : Prop := 0x20 ≤ b ∧ b ≤ 0x3B

-- A control sequence behind its introducer, as far as before its final byte.
def Unfinished (body : List UInt8) : Prop :=
  ∃ padding marker parameters, body = padding ++ marker ++ parameters ∧ (∀ b ∈ padding, IsPadding b) ∧
    (marker = [] ∨ ∃ b, isMarker b = true ∧ marker = [b]) ∧ ∀ b ∈ parameters, IsParameter b

theorem IsPadding.isParameter {b : UInt8} (h : IsPadding b) : IsParameter b := by
  obtain ⟨hlow, hhigh⟩ := h
  refine ⟨hlow, ?_⟩
  rw [UInt8.le_iff_toNat_le] at hhigh ⊢
  exact Nat.le_trans hhigh (by decide)

theorem Unfinished.append_parameter {b : UInt8} (h : Unfinished body) (hb : IsParameter b) :
    Unfinished (body ++ [b]) := by
  obtain ⟨padding, marker, parameters, rfl, hpadding, hmarker, hparameters⟩ := h
  exact ⟨padding, marker, parameters ++ [b], List.append_assoc .., hpadding, hmarker,
    List.forall_mem_append.mpr ⟨hparameters, List.forall_mem_singleton.mpr hb⟩⟩

theorem Unfinished.of_padding (h : ∀ b ∈ body, IsPadding b) : Unfinished body :=
  ⟨body, [], [], by simp, h, .inl rfl, fun _ hb => (List.not_mem_nil hb).elim⟩

theorem step_padding {b : UInt8} (hb : IsPadding b) (marker : Option UInt8) (current : Option Nat)
    (numbers : List Nat) (alternate : Bool) :
    step ⟨.sequence marker current numbers, alternate⟩ b =
      (⟨.sequence marker current numbers, alternate⟩, []) := by
  obtain ⟨hlow, hhigh⟩ := hb
  have hmarker : isMarker b = false := by
    cases h : isMarker b with
    | false => rfl
    | true =>
      simp only [isMarker, Bool.or_eq_true, beq_iff_eq] at h
      obtain ((rfl | rfl) | rfl) | rfl := h <;> exact absurd hhigh (by decide)
  have hdigit : ¬ (0x30 ≤ b ∧ b ≤ 0x39) := by
    intro h
    exact absurd (UInt8.le_trans h.1 hhigh) (by decide)
  have hseparator : ¬ (b = 0x3B ∨ b = 0x3A) := by
    rintro (rfl | rfl) <;> exact absurd hhigh (by decide)
  simp only [step, hmarker, Bool.and_false, Bool.false_eq_true, if_false, if_neg hdigit,
    if_neg hseparator, if_pos (And.intro hlow hhigh)]

-- A digit, a separator or padding leaves a control sequence open.
theorem isReading_step {b : UInt8} (h : t.isReading = true) (hb : IsParameter b) :
    (t.step b).1.isReading = true := by
  cases t with
  | mk phase alternate =>
    cases phase with
    | sequence marker current numbers =>
      simp only [step]
      split
      · rfl
      · split
        · rfl
        · split
          · rfl
          · split
            · rfl
            · rename_i hdigit hseparator hpadding
              obtain ⟨hlow, hhigh⟩ := hb
              rw [UInt8.le_iff_toNat_le] at hlow hhigh
              simp only [UInt8.le_iff_toNat_le, ← UInt8.toNat_inj] at hdigit hseparator hpadding
              simp at hlow hhigh hdigit hseparator hpadding
              omega
    | _ => cases h

theorem isReading_feed (h : t.isReading = true) (hbody : ∀ b ∈ body, IsParameter b) :
    (t.feed body).1.isReading = true := by
  induction body generalizing t with
  | nil => exact h
  | cons b body ih =>
    obtain ⟨hb, hrest⟩ := List.forall_mem_cons.mp hbody
    rw [feed_cons]
    exact ih (isReading_step h hb) hrest

theorem isReading_of_unfinished (h : Unfinished body) (alternate : Bool) :
    (feed ⟨.sequence none none [], alternate⟩ body).1.isReading = true := by
  obtain ⟨padding, marker, parameters, rfl, hpadding, hmarker, hparameters⟩ := h
  have hpadded : feed ⟨.sequence none none [], alternate⟩ padding =
      (⟨.sequence none none [], alternate⟩, []) :=
    scan_of_loop fun b hb => step_padding (hpadding b hb) ..
  rw [feed_append, feed_append, hpadded]
  refine isReading_feed ?_ hparameters
  obtain rfl | ⟨b, hb, rfl⟩ := hmarker
  · rfl
  · simp [step, hb, feed, scan, scanFrom, isReading]

-- What the bytes read so far end in. Where no marker and no number was read yet there is padding only.
def Behind (bytes : List UInt8) (t : ModeDecoder) : Prop :=
  match t.phase with
  | .ground => True
  | .escape => ∃ front, bytes = front ++ [0x1B] ∧ (feed {} front).1.isReading = false
  | .sequence marker current numbers => ∃ front body, bytes = front ++ [0x1B, 0x5B] ++ body ∧
      Unfinished body ∧ (feed {} front).1.isReading = false ∧
        (marker = none → current = none → numbers = [] → ∀ b ∈ body, IsPadding b)

theorem behind_feed (bytes : List UInt8) : Behind bytes (feed {} bytes).1 := by
  induction bytes using List.reverseRecOn with
  | nil => exact trivial
  | append_singleton bytes b ih =>
    have hstep : (feed {} (bytes ++ [b])).1 = ((feed {} bytes).1.step b).1 := feed_append _ _ _
    rw [hstep]
    rcases ht : (feed {} bytes).1 with ⟨phase, alternate⟩
    rw [ht] at ih
    cases phase with
    | ground =>
      simp only [step]
      split
      · rename_i hescape
        exact ⟨bytes, by rw [hescape], by rw [ht]; rfl⟩
      · exact trivial
    | escape =>
      obtain ⟨front, rfl, hfront⟩ := ih
      simp only [step]
      split
      · rename_i hbracket
        exact ⟨front, [], by simp [hbracket], .of_padding fun _ hc => (List.not_mem_nil hc).elim, hfront,
          fun _ _ _ _ hc => (List.not_mem_nil hc).elim⟩
      · split
        · rename_i hescape
          exact ⟨_, by rw [hescape], by rw [ht]; rfl⟩
        · exact trivial
    | sequence marker current numbers =>
      obtain ⟨front, body, rfl, hbody, hfront, hfresh⟩ := ih
      have hbytes : front ++ [0x1B, 0x5B] ++ body ++ [b] = front ++ [0x1B, 0x5B] ++ (body ++ [b]) :=
        List.append_assoc ..
      simp only [step]
      split
      · rename_i hmark
        simp only [Bool.and_eq_true, List.isEmpty_iff, Option.isNone_iff_eq_none] at hmark
        obtain ⟨⟨⟨hnumbers, hcurrent⟩, hmarker⟩, hb⟩ := hmark
        refine ⟨front, body ++ [b], hbytes, ?_, hfront, fun hnone => nomatch hnone⟩
        exact ⟨body, [b], [], by simp, hfresh hmarker hcurrent hnumbers, .inr ⟨b, hb, rfl⟩,
          fun _ hc => (List.not_mem_nil hc).elim⟩
      · split
        · rename_i hdigit
          refine ⟨front, body ++ [b], hbytes, hbody.append_parameter ?_, hfront,
            fun _ hnone => nomatch hnone⟩
          exact ⟨UInt8.le_trans (by decide) hdigit.1, UInt8.le_trans hdigit.2 (by decide)⟩
        · split
          · rename_i hseparator
            refine ⟨front, body ++ [b], hbytes, hbody.append_parameter ?_, hfront,
              fun _ _ hnil => absurd hnil (by simp)⟩
            obtain rfl | rfl := hseparator <;> exact ⟨by decide, by decide⟩
          · split
            · rename_i hpadding
              refine ⟨front, body ++ [b], hbytes, hbody.append_parameter (IsPadding.isParameter hpadding),
                hfront, fun hmarker hcurrent hnumbers => ?_⟩
              exact List.forall_mem_append.mpr
                ⟨hfresh hmarker hcurrent hnumbers, List.forall_mem_singleton.mpr hpadding⟩
            · exact trivial

-- A control sequence without its final byte was read last, from an introducer that was read as one.
theorem isReading_feed_iff (bytes : List UInt8) : (feed {} bytes).1.isReading = true ↔
    ∃ front body, bytes = front ++ [0x1B, 0x5B] ++ body ∧ Unfinished body ∧
      (feed {} front).1.isReading = false := by
  constructor
  · intro hreading
    have hbehind := behind_feed bytes
    rcases ht : (feed {} bytes).1 with ⟨phase, alternate⟩
    rw [ht] at hbehind hreading
    cases phase with
    | sequence marker current numbers =>
      obtain ⟨front, body, hbytes, hbody, hfront, -⟩ := hbehind
      exact ⟨front, body, hbytes, hbody, hfront⟩
    | _ => cases hreading
  · rintro ⟨front, body, rfl, hbody, hfront⟩
    rw [feed_append, feed_append, feed_introducer hfront]
    exact isReading_of_unfinished hbody _

theorem feedAll_switch {chunks : List (List UInt8)} {enabled : Bool} (t : ModeDecoder)
    (hmode : isAlternateMode mode = true) (h : chunks.flatten = switch mode enabled) :
    (t.feedAll chunks).1 = ⟨.ground, if t.isReading then t.alternate else enabled⟩ := by
  rw [feedAll_eq_feed, h]
  exact feed_switch t enabled hmode

-- Whatever a stream left unfinished, setting and resetting an alternate mode behind it are both
-- followed, just if the stream does not end inside of a control sequence. What that is, its bytes tell.
theorem follows_switches_iff (before set reset : List (List UInt8)) (hmode : isAlternateMode mode = true)
    (hset : set.flatten = switch mode true) (hreset : reset.flatten = switch mode false) :
    (((feedAll {} before).1.feedAll set).1.alternate = true ∧
        ((feedAll {} before).1.feedAll reset).1.alternate = false ↔
      (feedAll {} before).1.isReading = false) ∧
    ((feedAll {} before).1.isReading = true ↔
      ∃ front body, before.flatten = front ++ [0x1B, 0x5B] ++ body ∧ Unfinished body ∧
        (feed {} front).1.isReading = false) := by
  constructor
  · rw [feedAll_switch _ hmode hset, feedAll_switch _ hmode hreset]
    cases (feedAll {} before).1.isReading <;> simp
  · rw [feedAll_eq_feed]
    exact isReading_feed_iff before.flatten

-- With an escape pending, and the switches in pieces.
theorem follows_switches_broken :
    ((feedAll {} [[0x1B, 0x5B, 0x31, 0x6D, 0x1B]]).1.feedAll
        [[0x1B, 0x5B, 0x3F], [0x31, 0x30, 0x34, 0x39, 0x68]]).1.alternate = true ∧
      ((feedAll {} [[0x1B, 0x5B, 0x31, 0x6D, 0x1B]]).1.feedAll
        [[0x1B], [0x5B, 0x3F, 0x31, 0x30, 0x34, 0x39, 0x6C]]).1.alternate = false := by
  have hmode : isAlternateMode 1049 = true := rfl
  exact (follows_switches_iff [[0x1B, 0x5B, 0x31, 0x6D, 0x1B]] _ _ hmode (by decide)
    (by decide)).1.mpr rfl

-- Behind an introducer alone, setting the mode is lost.
theorem misses_switch_after_introducer :
    isAlternateMode 1049 = true ∧
      ((feedAll {} [[0x1B, 0x5B]]).1.feedAll [switch 1049 true]).1.alternate = false :=
  ⟨rfl, by decide⟩

end Switches

end ModeDecoder

end ShellTranscript.Signal
