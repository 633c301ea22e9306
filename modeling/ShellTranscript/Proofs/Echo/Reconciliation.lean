import Mathlib.Data.List.TakeWhile
import ShellTranscript.Proofs.Echo.Arrangement

-- Checks of predictions against a row. Of the pending predictions left of the cursor, the longest run
-- from the first on that the row shows is confirmed. When that is not all of them, everything else is
-- dropped. A check in between makes no difference to a later one that sees the same and more.
namespace ShellTranscript

open EchoPredictor Prediction

namespace Prediction

variable {q : Prediction} {row later : Text} {cursor cursor' : Nat}

theorem Echoed.mono (h : q.Echoed row cursor) (hle : cursor ≤ cursor')
    (hsame : ∀ column < cursor, later[column]? = row[column]?) : q.Echoed later cursor' :=
  ⟨Nat.lt_of_lt_of_le h.1 hle, (hsame q.column h.1).trans h.2⟩

theorem Mistaken.mono (h : q.Mistaken row cursor) (hle : cursor ≤ cursor')
    (hsame : ∀ column < cursor, later[column]? = row[column]?) : q.Mistaken later cursor' :=
  ⟨Nat.lt_of_lt_of_le h.1 hle, hsame q.column h.1 ▸ h.2⟩

end Prediction

namespace EchoPredictor

-- The pending predictions in columns that are written.
def behind (p : EchoPredictor) (cursor : Nat) : List Prediction :=
  p.overlay.filter fun q => q.column < cursor

-- The longest run of them, from the first on, that the row shows.
def matched (p : EchoPredictor) (row : Text) (cursor : Nat) : List Prediction :=
  (p.behind cursor).takeWhile fun q => row[q.column]? = some q.char

-- What a check is to make of a prediction.
def verdict (p : EchoPredictor) (row : Text) (cursor : Nat) (q : Prediction) : Prediction :=
  if q.isPending = false then q
  else if q ∈ p.matched row cursor then { q with state := .confirmed }
  else if (p.matched row cursor).length < (p.behind cursor).length then
    { q with state := .invalidated }
  else q

section Split

variable {p : EchoPredictor} {row : Text} {cursor : Nat} {good rest later : List Prediction}
  {wrong q : Prediction}

-- The run ends where nothing is written yet.
theorem behind_of_ahead (hoverlay : p.overlay = good ++ rest)
    (hgood : ∀ q ∈ good, q.Echoed row cursor) (hahead : ∀ q ∈ rest, cursor ≤ q.column) :
    p.behind cursor = good := by
  have hwritten : good.filter (fun q => q.column < cursor) = good :=
    List.filter_eq_self.mpr fun q hq => decide_eq_true (hgood q hq).1
  have hnone : rest.filter (fun q => q.column < cursor) = [] :=
    List.filter_eq_nil_iff.mpr fun q hq => by simpa using hahead q hq
  rw [behind, hoverlay, List.filter_append, hwritten, hnone, List.append_nil]

theorem matched_of_ahead (hoverlay : p.overlay = good ++ rest)
    (hgood : ∀ q ∈ good, q.Echoed row cursor) (hahead : ∀ q ∈ rest, cursor ≤ q.column) :
    p.matched row cursor = good := by
  rw [matched, behind_of_ahead hoverlay hgood hahead]
  exact List.takeWhile_eq_self_iff.mpr fun q hq => decide_eq_true (hgood q hq).2

-- The run ends at a prediction that is wrong.
theorem matched_of_mistaken (hoverlay : p.overlay = good ++ wrong :: later)
    (hgood : ∀ q ∈ good, q.Echoed row cursor) (hwrong : wrong.Mistaken row cursor) :
    p.matched row cursor = good ∧ good.length < (p.behind cursor).length := by
  have hwritten : good.filter (fun q => q.column < cursor) = good :=
    List.filter_eq_self.mpr fun q hq => decide_eq_true (hgood q hq).1
  have hbehind : p.behind cursor =
      good ++ wrong :: later.filter fun q => q.column < cursor := by
    rw [behind, hoverlay, List.filter_append, hwritten,
      List.filter_cons_of_pos (by simpa using hwrong.1)]
  have hshown : ∀ q ∈ good, decide (row[q.column]? = some q.char) = true :=
    fun q hq => decide_eq_true (hgood q hq).2
  refine ⟨?_, by simp [hbehind]⟩
  rw [matched, hbehind, List.takeWhile_append_of_pos hshown,
    List.takeWhile_cons_of_neg (by simpa using hwrong.2), List.append_nil]

theorem verdict_of_settled (p : EchoPredictor) (row : Text) (cursor : Nat)
    (h : q.isPending = false) : p.verdict row cursor q = q := if_pos h

theorem verdict_of_mem (hpending : q.isPending = true) (hmem : q ∈ p.matched row cursor) :
    p.verdict row cursor q = q.confirm := by
  simp [verdict, hpending, hmem, confirm]

end Split

section Check

variable {p : EchoPredictor}

-- What is settled stands before what is pending.
theorem Arranged.exists_settled_append (h : p.Arranged) :
    ∃ settled, (∀ q ∈ settled, q.isPending = false) ∧ p.predictions = settled ++ p.overlay := by
  obtain ⟨confirmed, rest, hsplit, hconfirmed, hrest⟩ := h.phased
  have hdone : ∀ q ∈ confirmed, q.isPending = false := fun q hq => by
    simp [isPending, hconfirmed q hq]
  rcases hrest with hpending | hdropped
  · refine ⟨confirmed, hdone, ?_⟩
    rw [overlay, hsplit, List.filter_append, filter_isPending_of_settled hdone,
      filter_isPending_of_pending hpending, List.nil_append]
  · have hall : ∀ q ∈ p.predictions, q.isPending = false := by
      rw [hsplit]
      exact List.forall_mem_append.mpr ⟨hdone, fun q hq => by simp [isPending, hdropped q hq]⟩
    exact ⟨p.predictions, hall, by rw [overlay, filter_isPending_of_settled hall, List.append_nil]⟩

theorem Arranged.nodup_overlay (h : p.Arranged) : p.overlay.Nodup := by
  have htokens : (p.predictions.map Prediction.token).Nodup := h.ascending.imp Nat.ne_of_lt
  exact htokens.of_map.filter _

theorem Arranged.check_overlay (h : p.Arranged) (row : Text) (cursor : Nat) :
    check row cursor false p.overlay = p.overlay.map (p.verdict row cursor) := by
  obtain ⟨good, rest, hsplit, hgood, hrest⟩ := h.successive.exists_echoed_append row cursor
  have hpending : ∀ q ∈ good ++ rest, q.state = .pending := by
    rw [← hsplit]
    exact fun q hq => pending_of_mem_overlay hq
  obtain ⟨hgoodPending, hrestPending⟩ := List.forall_mem_append.mp hpending
  have hdisjoint : List.Disjoint good rest := by
    have hnodup := h.nodup_overlay
    rw [hsplit] at hnodup
    exact (List.nodup_append'.mp hnodup).2.2
  have hmatched : p.matched row cursor = good := by
    rcases hrest with hahead | ⟨wrong, later, rfl, hwrong⟩
    · exact matched_of_ahead hsplit hgood hahead
    · exact (matched_of_mistaken hsplit hgood hwrong).1
  have hconfirmed : good.map (p.verdict row cursor) = good.map confirm := by
    apply List.map_congr_left
    intro q hq
    exact verdict_of_mem ((isPending_iff q).mpr (hgoodPending q hq)) (hmatched ▸ hq)
  have hunmatched : ∀ q ∈ rest, q ∉ good := fun q hq hmem => hdisjoint hmem hq
  rw [hsplit, check_append_of_echoed hgoodPending hgood, List.map_append, hconfirmed]
  congr 1
  rcases hrest with hahead | ⟨wrong, later, rfl, hwrong⟩
  · -- Nothing behind the cursor is wrong, so what is left waits.
    rw [check_of_ahead hahead]
    refine (map_eq_self fun q hq => ?_).symm
    simp [verdict, hmatched, behind_of_ahead hsplit hgood hahead, hunmatched q hq]
  · have hless := (matched_of_mistaken hsplit hgood hwrong).2
    rw [check_of_mistaken ((isPending_iff wrong).mpr (hrestPending wrong List.mem_cons_self)) hwrong]
    apply List.map_congr_left
    intro q hq
    have hq' : q.isPending = true := (isPending_iff q).mpr (hrestPending q hq)
    simp [verdict, drop_of_isPending, hmatched, hq', hunmatched q hq, hless]

theorem Arranged.map_verdict (h : p.Arranged) (row : Text) (cursor : Nat) :
    (p.reconcile row cursor).predictions = p.predictions.map (p.verdict row cursor) := by
  obtain ⟨settled, hsettled, hsplit⟩ := h.exists_settled_append
  have hsame : settled.map (p.verdict row cursor) = settled :=
    map_eq_self fun q hq => p.verdict_of_settled row cursor (hsettled q hq)
  rw [EchoPredictor.predictions_reconcile, hsplit, check_append_of_settled _ _ _ _ hsettled,
    List.map_append, hsame, h.check_overlay]

end Check

section Again

variable {p : EchoPredictor} {row later : Text} {cursor cursor' : Nat} {l : List Prediction}

theorem check_check (hpending : ∀ q ∈ l, q.state = .pending) (hsuccessive : Successive l)
    (hle : cursor ≤ cursor') (hsame : ∀ column < cursor, later[column]? = row[column]?) :
    check later cursor' false (check row cursor false l) = check later cursor' false l := by
  obtain ⟨good, rest, rfl, hgood, hrest⟩ := hsuccessive.exists_echoed_append row cursor
  obtain ⟨hgoodPending, hrestPending⟩ := List.forall_mem_append.mp hpending
  have hgood' : ∀ q ∈ good, q.Echoed later cursor' := fun q hq => (hgood q hq).mono hle hsame
  have hsettled : ∀ q ∈ good.map confirm, q.isPending = false := by simp [confirm, isPending]
  rw [check_append_of_echoed hgoodPending hgood, check_append_of_echoed hgoodPending hgood',
    check_append_of_settled _ _ _ _ hsettled]
  congr 1
  rcases hrest with hahead | ⟨wrong, after, rfl, hwrong⟩
  · rw [check_of_ahead hahead]
  · -- What was wrong is still wrong, so both checks drop the same.
    have hp : wrong.isPending = true :=
      (isPending_iff wrong).mpr (hrestPending wrong List.mem_cons_self)
    rw [check_of_mistaken hp hwrong, check_of_mistaken hp (hwrong.mono hle hsame),
      check_of_settled later cursor' false (by simp [isPending_drop])]

theorem Arranged.predictions_reconcile_reconcile (h : p.Arranged) (hle : cursor ≤ cursor')
    (hsame : ∀ column < cursor, later[column]? = row[column]?) :
    ((p.reconcile row cursor).reconcile later cursor').predictions =
      (p.reconcile later cursor').predictions := by
  obtain ⟨settled, hsettled, hsplit⟩ := h.exists_settled_append
  simp only [predictions_reconcile, hsplit, check_append_of_settled _ _ _ _ hsettled]
  rw [check_check (fun q hq => pending_of_mem_overlay hq) h.successive hle hsame]

theorem stop_timer_reconcile (p : EchoPredictor) (row : Text) (cursor : Nat) :
    (p.reconcile row cursor).timer.stop = p.timer.stop := by
  rw [reconcile_eq]
  dsimp only
  split_ifs <;> rfl

theorem Arranged.reconcile_reconcile (h : p.Arranged) (hle : cursor ≤ cursor')
    (hsame : ∀ column < cursor, later[column]? = row[column]?) :
    (p.reconcile row cursor).reconcile later cursor' = p.reconcile later cursor' := by
  have hpredictions := h.predictions_reconcile_reconcile hle hsame
  have hoverlay : ((p.reconcile row cursor).reconcile later cursor').overlay =
      (p.reconcile later cursor').overlay := congrArg (List.filter isPending) hpredictions
  have htimer : ((p.reconcile row cursor).reconcile later cursor').timer =
      (p.reconcile later cursor').timer := by
    by_cases hnone : (p.reconcile later cursor').overlay = []
    · rw [timer_reconcile_of_resting hnone, timer_reconcile_of_resting (hoverlay.trans hnone),
        stop_timer_reconcile]
    · have hagain : ((p.reconcile row cursor).reconcile later cursor').overlay ≠ [] :=
        hoverlay ▸ hnone
      have hfirst : (p.reconcile row cursor).overlay ≠ [] := fun hempty => by
        have hsuffix := (h.reconcile row cursor).overlay_reconcile later cursor'
        rw [hempty, List.suffix_nil] at hsuffix
        exact hagain hsuffix
      rw [timer_reconcile_of_pending hnone, timer_reconcile_of_pending hagain,
        timer_reconcile_of_pending hfirst]
  calc (p.reconcile row cursor).reconcile later cursor'
      = { p with
          predictions := ((p.reconcile row cursor).reconcile later cursor').predictions
          timer := ((p.reconcile row cursor).reconcile later cursor').timer } := by
        simp only [reconcile_eq]
    _ = { p with
          predictions := (p.reconcile later cursor').predictions
          timer := (p.reconcile later cursor').timer } := by rw [hpredictions, htimer]
    _ = p.reconcile later cursor' := by simp only [reconcile_eq]

end Again

-- What the predictor can be, whatever was done with it and when.
def Reached (settings : EchoSettings) (p : EchoPredictor) : Prop :=
  ∃ history, p = (start settings).play history

theorem Reached.arranged {settings : EchoSettings} {p : EchoPredictor} (h : p.Reached settings) :
    p.Arranged := by
  obtain ⟨history, rfl⟩ := h
  exact (arranged_start settings).play history

-- A check confirms just the matching run, and it may be left out before a later one that sees as much.
theorem Reached.reconcile_confirms {settings : EchoSettings} {p : EchoPredictor}
    (h : p.Reached settings) (row : Text) (cursor : Nat) :
    (p.reconcile row cursor).predictions = p.predictions.map (p.verdict row cursor) ∧
      ∀ later cursor', cursor ≤ cursor' →
        (∀ column < cursor, later[column]? = row[column]?) →
          (p.reconcile row cursor).reconcile later cursor' = p.reconcile later cursor' :=
  ⟨h.arranged.map_verdict row cursor, fun _ _ hle hsame => h.arranged.reconcile_reconcile hle hsame⟩

-- Three keys are typed behind a prompt. The first is echoed, the second in upper case.
def prompted : EchoPredictor := (EchoPredictor.new true 5 8).play [(10, .type ['l', 's', 'x'] 2)]

theorem prompted_reconciled :
    (prompted.reconcile ['$', ' ', 'l'] 3).predictions =
        prompted.predictions.map (prompted.verdict ['$', ' ', 'l'] 3) ∧
      (prompted.reconcile ['$', ' ', 'l'] 3).reconcile ['$', ' ', 'l', 'S'] 4 =
        prompted.reconcile ['$', ' ', 'l', 'S'] 4 ∧
      (prompted.reconcile ['$', ' ', 'l', 'S'] 4).predictions.map Prediction.state =
        [.confirmed, .invalidated, .invalidated] := by
  have hreached : prompted.Reached { enabled := true, quietPeriod := 5, longestWait := 8 } :=
    ⟨[(10, .type ['l', 's', 'x'] 2)], rfl⟩
  obtain ⟨hfirst, hagain⟩ := hreached.reconcile_confirms ['$', ' ', 'l'] 3
  exact ⟨hfirst, hagain ['$', ' ', 'l', 'S'] 4 (by decide) (by decide), by decide⟩

end EchoPredictor

end ShellTranscript
