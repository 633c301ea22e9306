import ShellTranscript.Proofs.Echo.Arrangement

-- Predictions over time. Keys, checks, ticks and clears may come in any order, but time does not go
-- back. What is settled stays as it is, and nothing stays pending longer than the longest wait.
namespace ShellTranscript

open EchoPredictor

namespace QuietTimer

-- A timer that runs just as long as something is pending, since before all of that was typed.
inductive Tracks (t : QuietTimer) (now : Nat) : List Prediction → Prop where
  | resting (hfirst : t.firstCall = none) (hdeadline : t.deadline = none) : Tracks t now []
  | running {pending : List Prediction} {first deadline : Nat} (hpending : pending ≠ [])
      (hfirst : t.firstCall = some first) (hdeadline : t.deadline = some deadline)
      (hnow : first ≤ now) (hbound : deadline ≤ first + t.longest)
      (htyped : ∀ q ∈ pending, first ≤ q.createdAt) : Tracks t now pending

section Tracks

variable {t : QuietTimer} {now now' : Nat} {pending pending' added : List Prediction}

theorem Tracks.mono (h : t.Tracks now pending) (hle : now ≤ now') : t.Tracks now' pending := by
  cases h with
  | resting hfirst hdeadline => exact .resting hfirst hdeadline
  | running hpending hfirst hdeadline hnow hbound htyped =>
    exact .running hpending hfirst hdeadline (Nat.le_trans hnow hle) hbound htyped

theorem tracks_stop (t : QuietTimer) (now : Nat) : t.stop.Tracks now [] := .resting rfl rfl

theorem Tracks.of_subset (h : t.Tracks now pending) (hne : pending' ≠ [])
    (hsubset : pending' ⊆ pending) : t.Tracks now pending' := by
  cases h with
  | resting => exact absurd (List.subset_nil.mp hsubset) hne
  | running _ hfirst hdeadline hnow hbound htyped =>
    exact .running hne hfirst hdeadline hnow hbound fun q hq => htyped q (hsubset hq)

theorem Tracks.schedule (h : t.Tracks now pending) (hadded : added ≠ [])
    (htyped : ∀ q ∈ added, q.createdAt = now) : (t.schedule now).Tracks now (pending ++ added) := by
  have hne : pending ++ added ≠ [] := by simp [hadded]
  cases h with
  | resting hfirst =>
    have hcalled : (t.schedule now).firstCall = some now := by simp [QuietTimer.schedule, hfirst]
    refine .running hne hcalled rfl (Nat.le_refl now) ?_ fun q hq => ?_
    · simp only [hfirst, Option.getD_none]
      exact Nat.min_le_right _ _
    · rw [htyped q (by simpa using hq)]
  | @running _ first _ _ hfirst _ hnow _ hold =>
    have hcalled : (t.schedule now).firstCall = some first := by simp [QuietTimer.schedule, hfirst]
    refine .running hne hcalled rfl hnow ?_ fun q hq => ?_
    · simp only [hfirst, Option.getD_some]
      exact Nat.min_le_right _ _
    · rcases List.mem_append.mp hq with hq | hq
      · exact hold q hq
      · rw [htyped q hq]
        exact hnow

theorem Tracks.deadline_ne_none_iff (h : t.Tracks now pending) :
    t.deadline ≠ none ↔ pending ≠ [] := by
  cases h with
  | resting _ hdeadline => simp [hdeadline]
  | running hpending _ hdeadline => simp [hpending, hdeadline]

theorem Tracks.deadline_le (h : t.Tracks now pending) {deadline : Nat}
    (hdeadline : t.deadline = some deadline) {q : Prediction} (hq : q ∈ pending) :
    deadline ≤ q.createdAt + t.longest := by
  cases h with
  | resting => cases hq
  | running _ _ hset _ hbound htyped =>
    rw [hset, Option.some.injEq] at hdeadline
    have hfirst := htyped q hq
    omega

end Tracks

end QuietTimer

namespace EchoPredictor

open Prediction

structure Sound (longest now : Nat) (p : EchoPredictor) : Prop where
  ascending : (p.predictions.map Prediction.token).Pairwise (· < ·)
  below : ∀ token ∈ p.predictions.map Prediction.token, token < p.nextToken
  phased : Phased p.predictions
  successive : Successive p.overlay
  longest : p.timer.longest = longest
  timed : p.timer.Tracks now p.overlay

-- Tokens that were given out before stand for predictions that were there before.
structure Continues (p p' : EchoPredictor) : Prop where
  nextToken : p.nextToken ≤ p'.nextToken
  becomes : ∀ q' ∈ p'.predictions, q'.token < p.nextToken → ∃ q ∈ p.predictions, q.Becomes q'

section Steps

variable {p p' p'' : EchoPredictor} {longest now now' : Nat}

theorem Continues.refl (p : EchoPredictor) : p.Continues p :=
  ⟨Nat.le_refl _, fun q hq _ => ⟨q, hq, .refl q⟩⟩

theorem Continues.trans (h : p.Continues p') (h' : p'.Continues p'') : p.Continues p'' := by
  refine ⟨Nat.le_trans h.nextToken h'.nextToken, fun q'' hq'' hold => ?_⟩
  obtain ⟨q', hq', hlater⟩ := h'.becomes q'' hq'' (Nat.lt_of_lt_of_le hold h.nextToken)
  obtain ⟨q, hq, hbecomes⟩ := h.becomes q' hq' (hlater.token ▸ hold)
  exact ⟨q, hq, hbecomes.trans hlater⟩

theorem Sound.mono (h : p.Sound longest now) (hle : now ≤ now') : p.Sound longest now' :=
  ⟨h.ascending, h.below, h.phased, h.successive, h.longest, h.timed.mono hle⟩

theorem Sound.arranged (h : p.Sound longest now) : p.Arranged :=
  ⟨h.ascending, h.below, h.phased, h.successive⟩

theorem Arranged.sound (h : p.Arranged) (hlongest : p.timer.longest = longest)
    (htimed : p.timer.Tracks now p.overlay) : p.Sound longest now :=
  ⟨h.ascending, h.below, h.phased, h.successive, hlongest, htimed⟩

theorem Sound.clear (h : p.Sound longest now) : p.clear.Sound longest now := by
  refine h.arranged.clear.sound h.longest ?_
  rw [overlay_clear]
  exact p.timer.tracks_stop now

theorem continues_clear (p : EchoPredictor) : p.Continues p.clear := by
  refine ⟨Nat.le_refl _, fun q' hq' _ => ?_⟩
  obtain ⟨q, hq, rfl⟩ := List.mem_map.mp hq'
  exact ⟨q, hq, becomes_drop q⟩

theorem Sound.prune (h : p.Sound longest now) : p.prune.Sound longest now := by
  refine h.arranged.prune.sound h.longest ?_
  rw [overlay_prune]
  exact h.timed

theorem continues_prune (p : EchoPredictor) : p.Continues p.prune :=
  ⟨Nat.le_refl _, fun q hq _ => ⟨q, (List.mem_filter.mp hq).1, .refl q⟩⟩

theorem Sound.reconcile (h : p.Sound longest now) (row : Text) (cursor : Nat) :
    (p.reconcile row cursor).Sound longest now := by
  have hsuffix := h.arranged.overlay_reconcile row cursor
  by_cases hpending : (p.reconcile row cursor).overlay = []
  · have htimer := timer_reconcile_of_resting hpending
    refine (h.arranged.reconcile row cursor).sound (by rw [htimer]; exact h.longest) ?_
    rw [htimer, hpending]
    exact p.timer.tracks_stop now
  · have htimer := timer_reconcile_of_pending hpending
    refine (h.arranged.reconcile row cursor).sound (by rw [htimer]; exact h.longest) ?_
    rw [htimer]
    exact h.timed.of_subset hpending hsuffix.subset

theorem continues_reconcile (p : EchoPredictor) (row : Text) (cursor : Nat) :
    p.Continues (p.reconcile row cursor) := by
  have hnext : (p.reconcile row cursor).nextToken = p.nextToken := by rw [reconcile_eq]
  refine ⟨Nat.le_of_eq hnext.symm, fun q' hq' _ => ?_⟩
  rw [predictions_reconcile] at hq'
  exact exists_becomes_of_mem_check hq'

theorem Sound.extend (h : p.Sound longest now) (cursor : Nat) {typed : Text} (hne : typed ≠ []) :
    (p.extend (p.nextColumn cursor) now typed).Sound longest now := by
  refine (h.arranged.extend cursor now typed).sound h.longest ?_
  rw [overlay_extend]
  exact h.timed.schedule (predict_ne_nil hne) fun q hq => (of_mem_predict hq).2.1

-- New predictions take new tokens.
theorem continues_extend (p : EchoPredictor) (column now : Nat) (typed : Text) :
    p.Continues (p.extend column now typed) := by
  refine ⟨Nat.le_add_right _ _, fun q hq hold => ?_⟩
  rcases List.mem_append.mp hq with hq | hq
  · exact ⟨q, (List.mem_filter.mp hq).1, .refl q⟩
  · exact absurd hold (Nat.not_lt.mpr (of_mem_predict hq).2.2.1)

theorem Sound.run (h : p.Sound longest now) (s : Step) :
    (s.run now p).Sound longest now ∧ p.Continues (s.run now p) := by
  cases s with
  | type typed cursor =>
    simp only [Step.run]
    rcases p.type_cases typed cursor now with ⟨-, hsame⟩ | ⟨-, hclear⟩ | ⟨-, hprints, hextend⟩
    · rw [hsame]
      exact ⟨h, .refl p⟩
    · rw [hclear]
      exact ⟨h.clear, continues_clear p⟩
    · rw [hextend]
      exact ⟨h.extend cursor hprints.1, continues_extend p _ _ _⟩
  | reconcile row cursor => exact ⟨h.reconcile row cursor, continues_reconcile p row cursor⟩
  | expire =>
    simp only [Step.run, EchoPredictor.expire]
    split
    · exact ⟨h.clear, continues_clear p⟩
    · exact ⟨h, .refl p⟩
  | resize | switchScreen | changeCommand | clear => exact ⟨h.clear, continues_clear p⟩
  | prune => exact ⟨h.prune, continues_prune p⟩

theorem Sound.lt_of_mem_overlay_expire (h : p.Sound longest now) (time : Nat) :
    ∀ q ∈ (p.expire time).2.overlay, time < q.createdAt + longest := by
  intro q hq
  unfold EchoPredictor.expire at hq
  split at hq
  · rw [overlay_clear] at hq
    cases hq
  · rename_i hdue
    have hset := h.timed.deadline_ne_none_iff.mpr (List.ne_nil_of_mem hq)
    obtain ⟨deadline, hdeadline⟩ := Option.ne_none_iff_exists'.mp hset
    have hlater : time < deadline := by simpa [QuietTimer.isDue, hdeadline] using hdue
    have hbound := h.timed.deadline_le hdeadline hq
    rw [h.longest] at hbound
    omega

end Steps

-- From one time to another by any operations, each at its time.
inductive Leads (p : EchoPredictor) (start : Nat) : EchoPredictor → Nat → Prop where
  | here : Leads p start p start
  | step {p' : EchoPredictor} {time now : Nat} (h : Leads p start p' time) (hle : time ≤ now)
      (s : Step) : Leads p start (s.run now p') now

-- What holds of the predictions at every time, when none waits longer than the longest wait.
structure Orderly (longest : Nat) (p : EchoPredictor) : Prop where
  ascending : p.predictions.Pairwise fun q r => q.token < r.token
  phased : Phased p.predictions
  successive : Successive p.overlay
  deadline_ne_none_iff : p.timer.deadline ≠ none ↔ p.overlay ≠ []
  deadline_le : ∀ deadline, p.timer.deadline = some deadline →
    ∀ q ∈ p.overlay, deadline ≤ q.createdAt + longest

-- What holds between one time and a later one. A token stands for one prediction for good, and a
-- prediction that is settled stays as it is.
structure Keeps (p p' : EchoPredictor) : Prop where
  known : ∀ q' ∈ p'.predictions, q'.token < p.nextToken → ∃ q ∈ p.predictions, q.token = q'.token
  same : ∀ q ∈ p.predictions, ∀ q' ∈ p'.predictions, q'.token = q.token →
    q' = { q with state := q'.state } ∧ (q.state ≠ .pending → q' = q)
  fresh : ∀ q ∈ p.predictions, q.token < p'.nextToken

section Runs

variable {p p' : EchoPredictor} {longest start time : Nat}

theorem Leads.sound (h : p.Leads start p' time) (hsound : p.Sound longest start) :
    p'.Sound longest time ∧ p.Continues p' := by
  induction h with
  | here => exact ⟨hsound, .refl p⟩
  | step _ hle s ih =>
    obtain ⟨hstep, hmore⟩ := (ih.1.mono hle).run s
    exact ⟨hstep, ih.2.trans hmore⟩

theorem Sound.orderly (h : p.Sound longest start) : p.Orderly longest where
  ascending := List.pairwise_map.mp h.ascending
  phased := h.phased
  successive := h.successive
  deadline_ne_none_iff := h.timed.deadline_ne_none_iff
  deadline_le _ hdeadline _ hq := h.longest ▸ h.timed.deadline_le hdeadline hq

theorem Continues.keeps (h : p.Continues p') (hsound : p.Sound longest start) : p.Keeps p' where
  known q' hq' hold := by
    obtain ⟨q, hq, hbecomes⟩ := h.becomes q' hq' hold
    exact ⟨q, hq, hbecomes.token.symm⟩
  same q hq q' hq' htoken := by
    have hold : q'.token < p.nextToken := htoken ▸ hsound.below q.token (List.mem_map_of_mem hq)
    obtain ⟨r, hr, hbecomes⟩ := h.becomes q' hq' hold
    obtain rfl := hsound.arranged.eq_of_token hr hq (hbecomes.token.symm.trans htoken)
    exact ⟨hbecomes.1, fun hsettled => hbecomes.2 (by simpa [isPending] using hsettled)⟩
  fresh q hq := Nat.lt_of_lt_of_le (hsound.below q.token (List.mem_map_of_mem hq)) h.nextToken

theorem sound_new (settings : EchoSettings) (start : Nat) :
    (EchoPredictor.new settings.enabled settings.quietPeriod settings.longestWait).Sound
      settings.effectiveWait start :=
  ⟨.nil, by simp [EchoPredictor.new], phased_of_pending (by simp [EchoPredictor.new]), .nil, rfl,
    .resting rfl rfl⟩

end Runs

-- At every time the predictions are in order and wait no longer than the longest wait, and at every
-- later time what was settled is as it was.
theorem Leads.predictions_orderly (settings : EchoSettings) {start time later : Nat}
    {p p' : EchoPredictor}
    (h : (EchoPredictor.new settings.enabled settings.quietPeriod settings.longestWait).Leads start
      p time) (hlater : p.Leads time p' later) :
    p.Orderly settings.effectiveWait ∧ p.Keeps p' ∧
      ∀ now, ∀ q ∈ (p.expire now).2.overlay, now < q.createdAt + settings.effectiveWait := by
  have hsound := (h.sound (sound_new settings start)).1
  exact ⟨hsound.orderly, (hlater.sound hsound).2.keeps hsound, hsound.lt_of_mem_overlay_expire⟩

-- Of two keys the first is echoed; a third one is typed within the quiet period, so the burst goes on.
-- At 18 the second key has waited for 8, and both that are left are dropped.
def burst : EchoPredictor :=
  [(10, .type ['a', 'b'] 0), (14, .reconcile ['a'] 1), (15, .type ['c'] 1)].foldl
    (fun p (now, step) => Step.run now p step) (.new true 5 8)

theorem burst_orderly :
    (burst.predictions.map fun q => (q.token, q.column, q.createdAt)) = [(1, 1, 10), (2, 2, 15)] ∧
      burst.timer.deadline = some 18 ∧ burst.Orderly 8 ∧
        burst.Keeps (burst.expire 18).2 ∧
          ∀ now, ∀ q ∈ (burst.expire now).2.overlay, now < q.createdAt + 8 := by
  have hburst : (EchoPredictor.new true 5 8).Leads 10 burst 15 :=
    ((Leads.here.step (Nat.le_refl 10) (.type ['a', 'b'] 0)).step (by decide)
      (.reconcile ['a'] 1)).step (by decide) (.type ['c'] 1)
  have hlater : burst.Leads 15 (burst.expire 18).2 18 := Leads.here.step (by decide) .expire
  exact ⟨by decide, by decide, Leads.predictions_orderly
    { enabled := true, quietPeriod := 5, longestWait := 8 } hburst hlater⟩

end EchoPredictor

end ShellTranscript