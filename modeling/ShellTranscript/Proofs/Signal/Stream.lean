import Mathlib.Data.List.Sort
import Mathlib.Tactic.Common
import ShellTranscript.Proofs.Signal.Told

-- Notices of a byte stream that arrives in chunks. However it is cut, the same notices are found at
-- the same places, and the same is known of the shell afterwards. Within a chunk the notices end at
-- different bytes, in order, so that reading marker after marker and mode switch after mode switch
-- and sorting what was found gives the same.
namespace ShellTranscript

open Signal

namespace Signal

variable {σ α : Type}

-- Whether an item ends no later than another one.
def Located.endsBy (first second : Located α) : Bool := first.1 ≤ second.1

-- What is found in some bytes ends within them.
theorem scanFrom_bounds (step : σ → UInt8 → σ × List α) (offset : Nat) (s : σ) (bytes : List UInt8) :
    ∀ item ∈ (scanFrom step offset s bytes).2,
      offset < item.1 ∧ item.1 ≤ offset + bytes.length := by
  induction bytes generalizing offset s with
  | nil => simp [scanFrom]
  | cons b bytes ih =>
    intro item hitem
    rw [List.length_cons]
    cases List.mem_append.mp hitem with
    | inl hfirst =>
      obtain ⟨found, -, rfl⟩ := List.mem_map.mp hfirst
      omega
    | inr hlater =>
      have hinside := ih (offset + 1) (step s b).1 item hlater
      omega

-- Where a byte completes at most one item, no two items end at the same byte.
theorem scanFrom_pairwise {step : σ → UInt8 → σ × List α}
    (hone : ∀ s b, (step s b).2.length ≤ 1) (offset : Nat) (s : σ) (bytes : List UInt8) :
    (scanFrom step offset s bytes).2.Pairwise fun first second => first.1 < second.1 := by
  induction bytes generalizing offset s with
  | nil => simp [scanFrom]
  | cons b bytes ih =>
    simp only [scanFrom]
    rw [List.pairwise_append]
    refine ⟨?_, ih (offset + 1) (step s b).1, ?_⟩
    · rw [List.pairwise_map]
      have hshort := hone s b
      cases hfound : (step s b).2 with
      | nil => exact .nil
      | cons item rest =>
        rw [hfound, List.length_cons] at hshort
        obtain rfl : rest = [] := List.length_eq_zero_iff.mp (by omega)
        exact List.pairwise_singleton _ _
    · intro first hfirst second hsecond
      obtain ⟨item, -, rfl⟩ := List.mem_map.mp hfirst
      exact (scanFrom_bounds step (offset + 1) (step s b).1 bytes second hsecond).1

-- Items that end at different places are sorted in one way.
theorem mergeSort_eq_of_perm {items sorted : List (Located α)}
    (hends : sorted.Pairwise fun first second => first.1 < second.1) (hperm : items.Perm sorted) :
    items.mergeSort Located.endsBy = sorted := by
  have hmerged : (items.mergeSort Located.endsBy).Pairwise fun first second =>
      Located.endsBy first second = true := by
    apply List.pairwise_mergeSort
    · intro first second third hle hle'
      simp only [Located.endsBy, decide_eq_true_eq] at hle hle' ⊢
      omega
    · intro first second
      simp only [Located.endsBy, Bool.or_eq_true, decide_eq_true_eq]
      omega
  have hsorted : sorted.Pairwise fun first second => Located.endsBy first second = true := by
    refine hends.imp ?_
    intro first second hlt
    simp only [Located.endsBy, decide_eq_true_eq]
    omega
  have hsame := (List.mergeSort_perm items Located.endsBy).trans hperm
  have hdistinct : (sorted.map Prod.fst).Nodup := by
    rw [List.nodup_iff_pairwise_ne, List.pairwise_map]
    exact hends.imp Nat.ne_of_lt
  refine List.Perm.eq_of_pairwise ?_ hmerged hsorted hsame
  intro first second hfirst hsecond hle hge
  simp only [Located.endsBy, decide_eq_true_eq] at hle hge
  exact List.inj_on_of_nodup_map hdistinct (hsame.mem_iff.mp hfirst) hsecond (by omega)

end Signal

namespace ShellDecoder

-- A stream in chunks, with the ends of its notices counted from where the stream starts.
def feedAll (d : ShellDecoder) : List (List UInt8) → ShellDecoder × List (Located ShellNotice)
  | [] => (d, [])
  | chunk :: chunks =>
    let (next, notices) := d.feed chunk
    let (last, rest) := next.feedAll chunks
    (last, notices ++ rest.map (Located.shift chunk.length))

-- Both decoders read the bytes one after the other, and what they find is sorted by where it ends.
def feedSorted (d : ShellDecoder) (bytes : List UInt8) : ShellDecoder × List (Located ShellNotice) :=
  let (markers, found) := d.markers.feed bytes
  let (modes, switched) := d.modes.feed bytes
  let notices := (found.map (fun item => (item.1, ShellNotice.ofMarker item.2)) ++
    switched.map fun item => (item.1, ShellNotice.ofModeChange item.2)).mergeSort Located.endsBy
  let shell := notices.foldl (fun s notice => s.apply notice.2) d.shell
  ({ markers, modes, shell }, notices)

theorem feedAll_eq_feed (d : ShellDecoder) (chunks : List (List UInt8)) :
    d.feedAll chunks = d.feed chunks.flatten := by
  induction chunks generalizing d with
  | nil => rfl
  | cons chunk chunks ih =>
    rw [List.flatten_cons, feed_append]
    simp only [feedAll, ih]

theorem length_step_le (d : ShellDecoder) (b : UInt8) : (d.step b).2.length ≤ 1 := by
  rcases d.step_eq_nil_or b with hnil | ⟨notice, hone⟩
  · simp [hnil]
  · simp [hone]

-- Each decoder finds what it finds alone.
theorem scanFrom_perm (d : ShellDecoder) (offset : Nat) (bytes : List UInt8) :
    (scanFrom step offset d bytes).1.markers =
        (scanFrom MarkerDecoder.step offset d.markers bytes).1 ∧
      (scanFrom step offset d bytes).1.modes = (scanFrom ModeDecoder.step offset d.modes bytes).1 ∧
      ((scanFrom MarkerDecoder.step offset d.markers bytes).2.map
          (fun item => (item.1, ShellNotice.ofMarker item.2)) ++
        (scanFrom ModeDecoder.step offset d.modes bytes).2.map
          fun item => (item.1, ShellNotice.ofModeChange item.2)).Perm
        (scanFrom step offset d bytes).2 := by
  induction bytes generalizing d offset with
  | nil => exact ⟨rfl, rfl, .nil⟩
  | cons b bytes ih =>
    obtain ⟨hmarkers, hmodes, hrest⟩ := ih (d.step b).1 (offset + 1)
    refine ⟨hmarkers, hmodes, ?_⟩
    -- What the first byte completes is moved together.
    have hmoved := List.perm_append_comm_assoc
      ((scanFrom MarkerDecoder.step (offset + 1) (d.markers.step b).1 bytes).2.map
        fun item => (item.1, ShellNotice.ofMarker item.2))
      ((d.modes.step b).2.map fun change => (offset + 1, ShellNotice.ofModeChange change))
      ((scanFrom ModeDecoder.step (offset + 1) (d.modes.step b).1 bytes).2.map
        fun item => (item.1, ShellNotice.ofModeChange item.2))
    have hall := (hmoved.trans (hrest.append_left _)).append_left
      ((d.markers.step b).2.map fun marker => (offset + 1, ShellNotice.ofMarker marker))
    simpa [scanFrom, ShellDecoder.step, Function.comp_def] using hall

theorem feed_pairwise (d : ShellDecoder) (bytes : List UInt8) :
    (d.feed bytes).2.Pairwise fun first second => first.1 < second.1 :=
  scanFrom_pairwise length_step_le 0 d bytes

theorem feed_eq_feedSorted (d : ShellDecoder) (bytes : List UInt8) :
    d.feed bytes = d.feedSorted bytes := by
  obtain ⟨hmarkers, hmodes, hperm⟩ := d.scanFrom_perm 0 bytes
  have hnotices : (d.feedSorted bytes).2 = (d.feed bytes).2 :=
    mergeSort_eq_of_perm (d.feed_pairwise bytes) hperm
  have hshell : (d.feedSorted bytes).1.shell = (d.feed bytes).1.shell := by
    have hfold : (d.feedSorted bytes).1.shell =
        (d.feedSorted bytes).2.foldl (fun s notice => s.apply notice.2) d.shell := rfl
    rw [hfold, hnotices, shell_feed, told, List.foldl_map]
  have hdecoder : ∀ {e e' : ShellDecoder}, e.markers = e'.markers → e.modes = e'.modes →
      e.shell = e'.shell → e = e' := by
    rintro ⟨markers, modes, shell⟩ ⟨_, _, _⟩ rfl rfl rfl
    rfl
  exact Prod.ext (hdecoder hmarkers hmodes hshell.symm) hnotices.symm

-- The notices of a stream and what is known of the shell after it do not depend on the chunks that it
-- arrives in, and the notices of a chunk end at different bytes of it, in order.
theorem feed_of_chunks (d : ShellDecoder) (chunks : List (List UInt8)) :
    d.feedAll chunks = d.feed chunks.flatten ∧
      ∀ (d : ShellDecoder) (chunk : List UInt8), d.feed chunk = d.feedSorted chunk ∧
        ((d.feed chunk).2.map Prod.fst).Pairwise (· < ·) ∧
        ∀ stop ∈ (d.feed chunk).2.map Prod.fst, 1 ≤ stop ∧ stop ≤ chunk.length := by
  refine ⟨d.feedAll_eq_feed chunks, ?_⟩
  intro d chunk
  refine ⟨d.feed_eq_feedSorted chunk, List.pairwise_map.mpr (d.feed_pairwise chunk), ?_⟩
  intro stop hstop
  obtain ⟨notice, hnotice, rfl⟩ := List.mem_map.mp hstop
  have hinside := scanFrom_bounds step 0 d chunk notice hnotice
  omega

end ShellDecoder

end ShellTranscript
