import ShellTranscript.Proofs.Echo.Arrangement

-- Bursts of typing. A burst starts with the first key after which something is pending, and it lasts
-- as long as something is, whichever prediction that may be. What is pending is dropped when the
-- quiet period has passed since the last key, or the longest wait since the first key of the burst;
-- not before.
namespace ShellTranscript

open EchoPredictor Prediction

namespace EchoPredictor

-- A key that is shown before it is echoed.
def Step.Prints : Step → Prop
  | type typed _ => EchoPredictor.Prints typed
  | _ => False

instance : DecidablePred Step.Prints
  | .type typed _ => inferInstanceAs (Decidable (EchoPredictor.Prints typed))
  | .reconcile .. | .expire | .clear | .resize | .switchScreen | .changeCommand | .prune =>
    inferInstanceAs (Decidable False)

-- The time of the last key that prints.
def lastKey (history : List (Nat × Step)) : Option Nat :=
  (history.filter fun call => call.2.Prints).getLast?.map Prod.fst

-- The time of a key typed when nothing was pending. Since then something always was.
def BurstSince (p : EchoPredictor) (history : List (Nat × Step)) (first : Nat) : Prop :=
  ∃ before s after, history = before ++ (first, s) :: after ∧ s.Prints ∧
    (p.play before).overlay = [] ∧
      ∀ part, part <+: after → (p.play (before ++ (first, s) :: part)).overlay ≠ []

section History

variable {p : EchoPredictor} {history : List (Nat × Step)} {now first : Nat} {s : Step}

theorem play_concat (p : EchoPredictor) (history : List (Nat × Step)) (now : Nat) (s : Step) :
    p.play (history ++ [(now, s)]) = s.run now (p.play history) := by
  simp [play]

theorem lastKey_concat_of_prints (h : s.Prints) : lastKey (history ++ [(now, s)]) = some now := by
  simp [lastKey, h]

theorem lastKey_concat_of_not_prints (h : ¬ s.Prints) :
    lastKey (history ++ [(now, s)]) = lastKey history := by
  simp [lastKey, h]

theorem burstSince_concat (hprints : s.Prints) (hresting : (p.play history).overlay = [])
    (hpending : (p.play (history ++ [(now, s)])).overlay ≠ []) :
    p.BurstSince (history ++ [(now, s)]) now := by
  refine ⟨history, s, [], rfl, hprints, hresting, fun part hpart => ?_⟩
  rw [List.prefix_nil.mp hpart]
  exact hpending

theorem BurstSince.concat (h : p.BurstSince history first)
    (hpending : (p.play (history ++ [(now, s)])).overlay ≠ []) :
    p.BurstSince (history ++ [(now, s)]) first := by
  obtain ⟨before, start, after, rfl, hprints, hresting, hsince⟩ := h
  refine ⟨before, start, after ++ [(now, s)], by simp, hprints, hresting, fun part hpart => ?_⟩
  rcases List.prefix_concat_iff.mp hpart with rfl | hpart
  · simpa using hpending
  · exact hsince part hpart

end History

-- A step that types nothing may end what is pending, and the burst with it.
inductive Thins (p p' : EchoPredictor) : Prop where
  | ended (hoverlay : p'.overlay = []) (htimer : p'.timer = p.timer.stop)
  | lasting (hoverlay : p'.overlay = [] ↔ p.overlay = []) (htimer : p'.timer = p.timer)

section Steps

variable {p : EchoPredictor}

theorem Thins.refl (p : EchoPredictor) : p.Thins p := .lasting .rfl rfl

theorem thins_clear (p : EchoPredictor) : p.Thins p.clear := .ended p.overlay_clear rfl

theorem Arranged.thins_reconcile (h : p.Arranged) (row : Text) (cursor : Nat) :
    p.Thins (p.reconcile row cursor) := by
  by_cases hresting : (p.reconcile row cursor).overlay = []
  · exact .ended hresting (timer_reconcile_of_resting hresting)
  · have hsuffix := h.overlay_reconcile row cursor
    have hpending : p.overlay ≠ [] := fun hnil => by
      rw [hnil, List.suffix_nil] at hsuffix
      exact hresting hsuffix
    exact .lasting (by simp [hresting, hpending]) (timer_reconcile_of_pending hresting)

-- A key that prints extends what is pending, and any other step only thins it.
theorem Arranged.run_cases (h : p.Arranged) (now : Nat) (s : Step) :
    (∃ typed cursor, s.Prints ∧ p.enabled = true ∧ typed ≠ [] ∧
      s.run now p = p.extend (p.nextColumn cursor) now typed) ∨
    ((p.enabled = true → ¬ s.Prints) ∧ p.Thins (s.run now p)) := by
  cases s with
  | type typed cursor =>
    simp only [Step.run]
    rcases p.type_cases typed cursor now with
      ⟨hdisabled, hsame⟩ | ⟨hmoves, hclear⟩ | ⟨henabled, hprints, hextend⟩
    · rw [hsame]
      exact .inr ⟨by simp [hdisabled], .refl p⟩
    · rw [hclear]
      exact .inr ⟨fun _ => hmoves, thins_clear p⟩
    · exact .inl ⟨typed, cursor, hprints, henabled, hprints.1, hextend⟩
  | reconcile row cursor => exact .inr ⟨fun _ => id, h.thins_reconcile row cursor⟩
  | expire =>
    refine .inr ⟨fun _ => id, ?_⟩
    simp only [Step.run, EchoPredictor.expire]
    split
    · exact thins_clear p
    · exact .refl p
  | resize | switchScreen | changeCommand | clear => exact .inr ⟨fun _ => id, thins_clear p⟩
  | prune => exact .inr ⟨fun _ => id, .lasting (by rw [Step.run, overlay_prune]) rfl⟩

-- What was set at the start.
structure SameSettings (p p' : EchoPredictor) : Prop where
  enabled : p'.enabled = p.enabled
  delay : p'.timer.delay = p.timer.delay
  longest : p'.timer.longest = p.timer.longest

theorem SameSettings.refl (p : EchoPredictor) : p.SameSettings p := ⟨rfl, rfl, rfl⟩

theorem SameSettings.trans {p' p'' : EchoPredictor} (h : p.SameSettings p')
    (h' : p'.SameSettings p'') : p.SameSettings p'' :=
  ⟨h'.enabled.trans h.enabled, h'.delay.trans h.delay, h'.longest.trans h.longest⟩

theorem sameSettings_clear (p : EchoPredictor) : p.SameSettings p.clear := ⟨rfl, rfl, rfl⟩

theorem sameSettings_run (p : EchoPredictor) (now : Nat) (s : Step) :
    p.SameSettings (s.run now p) := by
  cases s with
  | type typed cursor =>
    simp only [Step.run]
    rcases p.type_cases typed cursor now with ⟨-, hsame⟩ | ⟨-, hclear⟩ | ⟨-, -, hextend⟩
    · rw [hsame]
      exact .refl p
    · rw [hclear]
      exact sameSettings_clear p
    · rw [hextend]
      exact ⟨rfl, rfl, rfl⟩
  | reconcile row cursor =>
    simp only [Step.run, reconcile_eq]
    refine ⟨rfl, ?_, ?_⟩ <;> dsimp only <;> split_ifs <;> rfl
  | expire =>
    simp only [Step.run, EchoPredictor.expire]
    split
    · exact sameSettings_clear p
    · exact .refl p
  | resize | switchScreen | changeCommand | clear => exact sameSettings_clear p
  | prune => exact ⟨rfl, rfl, rfl⟩

theorem sameSettings_play (p : EchoPredictor) (history : List (Nat × Step)) :
    p.SameSettings (p.play history) := by
  induction history generalizing p with
  | nil => exact .refl p
  | cons call history ih => exact (p.sameSettings_run call.1 call.2).trans (ih _)

end Steps

-- The timer knows the burst: nothing when nothing is pending, and else the times of its keys.
inductive Timed (p : EchoPredictor) (history : List (Nat × Step)) : Prop where
  | resting (hoverlay : (p.play history).overlay = [])
      (hfirst : (p.play history).timer.firstCall = none)
  | running {last first : Nat} (hoverlay : (p.play history).overlay ≠ [])
      (henabled : (p.play history).enabled = true) (hlast : lastKey history = some last)
      (hburst : p.BurstSince history first)
      (hfirst : (p.play history).timer.firstCall = some first)
      (hdeadline : (p.play history).timer.deadline =
        some (min (last + p.timer.delay) (first + p.timer.longest)))

section Runs

variable {p : EchoPredictor} {history : List (Nat × Step)} {now : Nat} {s : Step}

-- A key moves the deadline, but the burst it belongs to is the one that was running.
theorem Timed.extend (h : p.Timed history) (hprints : s.Prints)
    (henabled : (p.play history).enabled = true) {typed : Text} (hne : typed ≠ [])
    {column : Nat} (hrun : s.run now (p.play history) =
      (p.play history).extend column now typed) :
    p.Timed (history ++ [(now, s)]) := by
  have hplay := (p.play_concat history now s).trans hrun
  have hpending : (p.play (history ++ [(now, s)])).overlay ≠ [] := by
    rw [hplay, overlay_extend]
    simp [predict_ne_nil hne]
  have henabled' : (p.play (history ++ [(now, s)])).enabled = true := by
    rw [hplay]
    exact henabled
  have hlast : lastKey (history ++ [(now, s)]) = some now := lastKey_concat_of_prints hprints
  have hsettings := p.sameSettings_play history
  cases h with
  | resting hoverlay hfirst =>
    refine .running hpending henabled' hlast (burstSince_concat hprints hoverlay hpending) ?_ ?_
    · simp [hplay, EchoPredictor.extend, QuietTimer.schedule, hfirst]
    · simp [hplay, EchoPredictor.extend, QuietTimer.schedule, hfirst, hsettings.delay,
        hsettings.longest]
  | running _ _ _ hburst hfirst _ =>
    refine .running hpending henabled' hlast (hburst.concat hpending) ?_ ?_
    · simp [hplay, EchoPredictor.extend, QuietTimer.schedule, hfirst]
    · simp [hplay, EchoPredictor.extend, QuietTimer.schedule, hfirst, hsettings.delay,
        hsettings.longest]

theorem Timed.thin (h : p.Timed history)
    (hquiet : (p.play history).enabled = true → ¬ s.Prints)
    (hthins : (p.play history).Thins (s.run now (p.play history))) :
    p.Timed (history ++ [(now, s)]) := by
  rw [← play_concat] at hthins
  cases hthins with
  | ended hoverlay htimer => exact .resting hoverlay (by rw [htimer]; rfl)
  | lasting hoverlay htimer =>
    cases h with
    | resting hresting hfirst => exact .resting (hoverlay.mpr hresting) (htimer ▸ hfirst)
    | running hpending henabled hlast hburst hfirst hdeadline =>
      have hpending' := mt hoverlay.mp hpending
      refine .running hpending' ?_ ?_ (hburst.concat hpending') (htimer ▸ hfirst)
        (htimer ▸ hdeadline)
      · rw [play_concat, (sameSettings_run _ now s).enabled]
        exact henabled
      · rw [lastKey_concat_of_not_prints (hquiet henabled)]
        exact hlast

theorem timed_start (settings : EchoSettings) (history : List (Nat × Step)) :
    (start settings).Timed history := by
  induction history using List.reverseRecOn with
  | nil => exact .resting rfl rfl
  | append_singleton history call ih =>
    obtain ⟨now, s⟩ := call
    rcases ((arranged_start settings).play history).run_cases now s with
      ⟨typed, cursor, hprints, henabled, hne, hextend⟩ | ⟨hquiet, hthins⟩
    · exact ih.extend hprints henabled hne hextend
    · exact ih.thin hquiet hthins

-- Whether a tick drops what is pending depends on two keys only.
theorem Timed.isDue_iff (h : p.Timed history) (hpending : (p.play history).overlay ≠ []) :
    ∃ last first, lastKey history = some last ∧ p.BurstSince history first ∧
      ∀ now, (p.play history).timer.isDue now = true ↔
        last + p.timer.delay ≤ now ∨ first + p.timer.longest ≤ now := by
  cases h with
  | resting hoverlay => exact absurd hoverlay hpending
  | @running last first _ _ hlast hburst _ hdeadline =>
    refine ⟨last, first, hlast, hburst, fun now => ?_⟩
    simp only [QuietTimer.isDue, hdeadline, decide_eq_true_eq]
    omega

theorem Arranged.drop_mem_expire_iff (h : p.Arranged) {q : Prediction} (hq : q ∈ p.overlay)
    (now : Nat) : q.drop ∈ (p.expire now).2.predictions ↔ p.timer.isDue now = true := by
  obtain ⟨hmem, hpending⟩ := List.mem_filter.mp hq
  unfold EchoPredictor.expire
  split
  · rename_i hdue
    simp only [hdue, iff_true]
    exact List.mem_map_of_mem hmem
  · rename_i hearly
    refine iff_of_false (fun hdropped => ?_) hearly
    have hsame : q.drop = q := h.eq_of_token hdropped hmem (becomes_drop q).token
    have hsettled := isPending_drop q
    rw [hsame, hpending] at hsettled
    cases hsettled

end Runs

-- A tick drops a prediction just when the quiet period has passed since the last key, or the longest
-- wait since the first key of the burst.
theorem drop_iff_quiet_or_long (settings : EchoSettings) (history : List (Nat × Step)) {q : Prediction}
    (hq : q ∈ ((start settings).play history).overlay) :
    ∃ last first, lastKey history = some last ∧ (start settings).BurstSince history first ∧
      ∀ now, q.drop ∈ (((start settings).play history).expire now).2.predictions ↔
        last + settings.quietPeriod ≤ now ∨ first + settings.effectiveWait ≤ now := by
  obtain ⟨last, first, hlast, hburst, hdue⟩ :=
    (timed_start settings history).isDue_iff (List.ne_nil_of_mem hq)
  refine ⟨last, first, hlast, hburst, fun now => ?_⟩
  rw [((arranged_start settings).play history).drop_mem_expire_iff hq now]
  exact hdue now

-- The first of two keys is echoed as the second is typed.
def renewed : List (Nat × Step) :=
  [(0, .type ['a'] 0), (4, .type ['b'] 0), (4, .reconcile ['a'] 1)]

def brief : EchoSettings := { quietPeriod := 5, longestWait := 8 }

def second : Prediction := { token := 1, char := 'b', column := 1, createdAt := 4 }

theorem renewed_drop_iff :
    second ∈ ((start brief).play renewed).overlay ∧
      ∃ first, (start brief).BurstSince renewed first ∧
        ∀ now, second.drop ∈ (((start brief).play renewed).expire now).2.predictions ↔
          9 ≤ now ∨ first + 8 ≤ now := by
  have hpending : second ∈ ((start brief).play renewed).overlay := by decide
  obtain ⟨last, first, hlast, hburst, hdropped⟩ := drop_iff_quiet_or_long brief renewed hpending
  have hkey : lastKey renewed = some 4 := by decide
  obtain rfl : 4 = last := Option.some.inj (hkey.symm.trans hlast)
  exact ⟨hpending, first, hburst, hdropped⟩

-- The burst may be older than everything that is still pending, so a key can be dropped sooner than the
-- quiet period and the longest wait after it.
theorem not_drop_of_created :
    ¬ ∀ (settings : EchoSettings) (history : List (Nat × Step)) (now : Nat) (q : Prediction),
      (history.map Prod.fst).Pairwise (· ≤ ·) → (∀ call ∈ history, call.1 ≤ now) →
        q ∈ ((start settings).play history).overlay →
          q.drop ∈ (((start settings).play history).expire now).2.predictions →
            (∃ last, lastKey history = some last ∧ last + settings.quietPeriod ≤ now) ∨
              ∃ r ∈ ((start settings).play history).overlay,
                r.createdAt + settings.effectiveWait ≤ now := by
  intro h
  have hoverlay : ((start brief).play renewed).overlay = [second] := by decide
  have hkey : lastKey renewed = some 4 := by decide
  rcases h brief renewed 8 second (by decide) (by decide) (by decide) (by decide) with
    ⟨last, hlast, hquiet⟩ | ⟨r, hr, hlong⟩
  · obtain rfl : 4 = last := Option.some.inj (hkey.symm.trans hlast)
    simp [brief] at hquiet
  · rw [hoverlay, List.mem_singleton] at hr
    subst hr
    simp [brief, second, EchoSettings.effectiveWait] at hlong

end EchoPredictor

end ShellTranscript
