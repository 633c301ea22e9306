import Mathlib.Data.List.Chain
import Mathlib.Tactic.Common
import ShellTranscript.Sampler.Watch

-- A terminal that one loop watches for a listener. Between the steps of the loop the terminal may
-- change or be disposed, and other listeners may come and go. The loop misses nothing: when it waits
-- and has seen everything, the listener has been sent what is shown now.
namespace ShellTranscript

namespace Sampler

variable {α : Type} {s : Sampler α} {t : Terminal} {output : Snapshot}

theorem sample_eq_some_iff : s.sample t = some output ↔
    t.disposed = false ∧ t.isAlternate = false ∧ s.lastSent ≠ some t.snapshot ∧
      output = t.snapshot := by
  have hshown : t.snapshot.alternate = t.isAlternate := rfl
  simp only [sample, hshown]
  cases t.disposed <;> cases t.isAlternate <;> by_cases hsent : s.lastSent = some t.snapshot <;>
    simp [hsent, eq_comm]

theorem eq_snapshot_of_sample (h : s.sample t = some output) : output = t.snapshot :=
  (sample_eq_some_iff.mp h).2.2.2

theorem lastSent_of_sample (hsample : s.sample t = none) (hlive : t.disposed = false)
    (hmain : t.isAlternate = false) : s.lastSent = some t.snapshot := by
  by_contra hsent
  rw [sample_eq_some_iff.mpr ⟨hlive, hmain, hsent, rfl⟩] at hsample
  cases hsample

-- What was broadcast last is not broadcast again.
theorem sample_eq_none
    (hsent : t.disposed = false → t.isAlternate = false → s.lastSent = some t.snapshot) :
    s.sample t = none := by
  cases hsample : s.sample t with
  | none => rfl
  | some output =>
    obtain ⟨hlive, hmain, hnew, -⟩ := sample_eq_some_iff.mp hsample
    exact absurd (hsent hlive hmain) hnew

end Sampler

namespace Terminal

inductive Change where
  | write (bytes : List UInt8)
  | clearAll
  | resize (size : ScreenSize)
  | takeReplies
  | dispose

def undergo (t : Terminal) : Change → Terminal
  | .write bytes => t.write bytes
  | .clearAll => t.clearAll
  | .resize size => t.resize size
  | .takeReplies => t.takeReplies.2
  | .dispose => t.dispose

inductive Lived : Terminal → Prop where
  | new (size : ScreenSize) (scrollback : Nat) : Lived (.new size scrollback)
  | undergo {t : Terminal} (c : Change) : Lived t → Lived (t.undergo c)

structure SameCount (t t' : Terminal) : Prop where
  generation : t'.generation = t.generation
  published : t'.published = t.published
  disposed : t'.disposed = t.disposed

-- A change is the end, or cannot be seen, or counts up the generation.
theorem undergo_cases (t : Terminal) (c : Change) : t.undergo c = t.dispose ∨
    t.SameCount (t.undergo c) ∧ (t.undergo c).snapshot = t.snapshot ∨
      ∃ t', t.SameCount t' ∧ t.undergo c = t'.changed := by
  cases c with
  | write bytes =>
    by_cases hempty : bytes.isEmpty
    · refine .inr (.inl ?_)
      simp only [undergo, write, if_pos hempty]
      exact ⟨⟨rfl, rfl, rfl⟩, trivial⟩
    · refine .inr (.inr ⟨{ t with emulator := t.emulator.feed bytes }, ⟨rfl, rfl, rfl⟩, ?_⟩)
      simp only [undergo, write, if_neg hempty]
  | clearAll =>
    exact .inr (.inr ⟨{ t with emulator := t.emulator.feed resetSequence, epoch := t.epoch + 1 },
      ⟨rfl, rfl, rfl⟩, rfl⟩)
  | resize size =>
    exact .inr (.inr ⟨{ t with
      emulator := { t.emulator with screen := t.screen.resize size.columns size.rows }
      size }, ⟨rfl, rfl, rfl⟩, rfl⟩)
  | takeReplies => exact .inr (.inl ⟨⟨rfl, rfl, rfl⟩, rfl⟩)
  | dispose => exact .inl rfl

-- Until it is disposed, a terminal publishes every generation.
def Publishes (t : Terminal) : Prop := t.disposed = false → t.published = t.generation

theorem SameCount.publishes {t t' : Terminal} (h : t.SameCount t') (ht : t.Publishes) :
    t'.Publishes := fun hlive => by
  rw [h.published, h.generation]
  exact ht (h.disposed ▸ hlive)

theorem publishes_changed (t : Terminal) : t.changed.Publishes := fun hlive => by
  have hlive : t.disposed = false := hlive
  simp only [changed, hlive, Bool.false_eq_true, if_false]

theorem Publishes.undergo {t : Terminal} (h : t.Publishes) (c : Change) :
    (t.undergo c).Publishes := by
  rcases t.undergo_cases c with hend | ⟨hsame, -⟩ | ⟨t', -, hcounted⟩
  · rw [hend]
    exact fun hlive => Bool.noConfusion hlive
  · exact hsame.publishes h
  · rw [hcounted]
    exact t'.publishes_changed

theorem Lived.publishes {t : Terminal} (h : t.Lived) : t.Publishes := by
  induction h with
  | new size scrollback => exact fun _ => rfl
  | undergo c _ ih => exact ih.undergo c

end Terminal

variable {α : Type}

-- The snapshot has been taken by then: what happens to the terminal while the listeners are called
-- might as well happen when all of them have been called.
theorem Watch.deliver_amid (react : Watch.Reaction α) (meanwhile : Nat → Terminal → Terminal)
    (snapshot : Snapshot) (w : Watch α) (t : Terminal) :
    w.sampler.listeners.notify
        (fun id b w => { w with
          terminal := meanwhile id w.terminal
          delivered := w.delivered ++ [(b, snapshot)]
          sampler := { w.sampler with listeners := react id b w.sampler.listeners } })
        { w with terminal := t } =
      { deliver react snapshot w with
        terminal := w.sampler.listeners.notify (fun id _ t => meanwhile id t) t } := by
  unfold deliver Registry.notify
  generalize w.sampler.listeners.entries = entries
  induction entries generalizing w t with
  | nil => rfl
  | cons entry entries ih =>
    exact ih { w with
      delivered := w.delivered ++ [(entry.2, snapshot)]
      sampler := { w.sampler with listeners := react entry.1 entry.2 w.sampler.listeners } }
      (meanwhile entry.1 t)

variable [DecidableEq α]

-- Listeners are told apart by their names; this one is registered, and once.
def Registry.Registers (r : Registry α) (a : α) : Prop := r.members.count a = 1

namespace Watch

def deliveredTo (w : Watch α) (a : α) : List Snapshot :=
  w.delivered.filterMap fun entry => if entry.1 = a then some entry.2 else none

section Deliveries

variable {react : Reaction α} {a : α}

-- Whoever is registered when a delivery begins gets it, whatever happens to the registry meanwhile.
theorem deliver_eq (react : Reaction α) (snapshot : Snapshot) (w : Watch α) :
    ∃ listeners, deliver react snapshot w = { w with
      delivered := w.delivered ++ w.sampler.listeners.members.map fun b => (b, snapshot)
      sampler := { w.sampler with listeners } } ∧
      ((∀ id b r, r.Registers a → (react id b r).Registers a) →
        w.sampler.listeners.Registers a → listeners.Registers a) := by
  unfold deliver Registry.notify Registry.members
  generalize w.sampler.listeners.entries = entries
  induction entries generalizing w with
  | nil => exact ⟨w.sampler.listeners, by simp, fun _ h => h⟩
  | cons entry entries ih =>
    obtain ⟨listeners, heq, hkept⟩ := ih { w with
      delivered := w.delivered ++ [(entry.2, snapshot)]
      sampler := { w.sampler with listeners := react entry.1 entry.2 w.sampler.listeners } }
    refine ⟨listeners, ?_, fun hreact h => hkept hreact (hreact _ _ _ h)⟩
    rw [List.foldl_cons, heq]
    simp

theorem filterMap_delivery (members : List α) (a : α) (snapshot : Snapshot) :
    (members.map fun b => (b, snapshot)).filterMap
        (fun entry => if entry.1 = a then some entry.2 else none) =
      List.replicate (members.count a) snapshot := by
  induction members with
  | nil => rfl
  | cons b members ih =>
    by_cases hb : b = a
    · rw [List.map_cons, List.filterMap_cons, if_pos hb, ih, hb, List.count_cons_self,
        List.replicate_succ]
    · rw [List.map_cons, List.filterMap_cons, if_neg hb, ih, List.count_cons_of_ne hb]

inductive Step (α : Type) where
  | change (c : Terminal.Change)
  | loop (react : Reaction α)
  | wait (time : Nat)
  | listeners (r : Registry α)

def Step.play (w : Watch α) : Step α → Watch α
  | change c => { w with terminal := w.terminal.undergo c }
  | loop react => w.stepLoop react 0
  | wait time => { w with now := w.now + time }
  | listeners r => { w with sampler := { w.sampler with listeners := r } }

-- Listeners come and go, on their own or when they are called, but this one stays.
def Step.Allowed (a : α) : Step α → Prop
  | loop react => ∀ id b r, r.Registers a → (react id b r).Registers a
  | listeners r => r.Registers a
  | _ => True

structure Fresh (a : α) (w : Watch α) : Prop where
  lived : w.terminal.Lived
  unwatched : w.loops = []
  undelivered : w.delivered = []
  unsent : w.sampler.lastSent = none
  registered : w.sampler.listeners.Registers a

-- What becomes of a terminal once a loop watches it.
inductive Watched (a : α) (start : Terminal) : Watch α → Prop where
  | start {w : Watch α} (interval : Nat) : w.Fresh a → w.terminal = start →
      (w.watch interval).2 = true → Watched a start (w.watch interval).1
  | step {w : Watch α} (s : Step α) : Watched a start w → s.Allowed a → Watched a start (s.play w)

-- The listener has the last snapshot there was, and the loop does not rest before that shows
-- what there is.
structure Served (a : α) (since : Nat) (l : SamplingLoop) (w : Watch α) : Prop where
  loops : w.loops = [l]
  registered : w.sampler.listeners.Registers a
  publishes : w.terminal.Publishes
  seen : l.seen ≤ w.terminal.published
  plain : ∀ entry ∈ w.delivered, entry.2.alternate = false
  differ : (w.deliveredTo a).IsChain (· ≠ ·)
  last : (w.deliveredTo a).getLast? = w.sampler.lastSent
  caughtUp : l.phase = .waiting → l.seen = w.terminal.published → since < w.terminal.generation →
    w.terminal.disposed = false → w.terminal.isAlternate = false →
      w.sampler.lastSent = some w.terminal.snapshot

section Steps

variable {since : Nat} {l : SamplingLoop} {w : Watch α}

theorem Fresh.served (h : w.Fresh a) {interval : Nat} (hwatches : (w.watch interval).2 = true) :
    ∃ l, (w.watch interval).1.Served a w.terminal.generation l := by
  cases hlive : w.terminal.disposed with
  | true =>
    simp only [watch, SamplingLoop.start?, Terminal.subscribe, hlive, if_true, Option.map_none]
      at hwatches
    cases hwatches
  | false =>
    refine ⟨{ interval, seen := w.terminal.published }, ?_⟩
    simp only [watch, SamplingLoop.start?, Terminal.subscribe, hlive, Bool.false_eq_true, if_false,
      Option.map_some, h.unwatched, List.nil_append]
    exact {
      loops := rfl
      registered := h.registered
      publishes := h.lived.publishes
      seen := Nat.le_refl _
      plain := by simp [h.undelivered]
      differ := by simp [deliveredTo, h.undelivered]
      last := by simp [deliveredTo, h.undelivered, h.unsent]
      caughtUp := fun _ _ hsince => absurd hsince (Nat.lt_irrefl _) }

theorem Served.change (h : w.Served a since l) (c : Terminal.Change) :
    Served a since l { w with terminal := w.terminal.undergo c } := by
  suffices hterminal : l.seen ≤ (w.terminal.undergo c).published ∧
      (l.phase = .waiting → l.seen = (w.terminal.undergo c).published →
        since < (w.terminal.undergo c).generation → (w.terminal.undergo c).disposed = false →
          (w.terminal.undergo c).isAlternate = false →
            w.sampler.lastSent = some (w.terminal.undergo c).snapshot) from
    ⟨h.loops, h.registered, h.publishes.undergo c, hterminal.1, h.plain, h.differ, h.last,
      hterminal.2⟩
  rcases w.terminal.undergo_cases c with hend | ⟨hcount, hshown⟩ | ⟨t, hcount, hchanged⟩
  · rw [hend]
    exact ⟨h.seen, fun _ _ _ hlive => Bool.noConfusion hlive⟩
  · have hmain : (w.terminal.undergo c).isAlternate = w.terminal.isAlternate :=
      congrArg Snapshot.alternate hshown
    rw [hcount.published, hcount.generation, hcount.disposed, hshown, hmain]
    exact ⟨h.seen, h.caughtUp⟩
  · -- The loop has not seen the new generation.
    have hpublishes := h.publishes
    have hseen := h.seen
    have hpublished := hcount.published
    have hgeneration := hcount.generation
    have hdisposed := hcount.disposed
    rw [hchanged]
    unfold Terminal.Publishes at hpublishes
    simp only [Terminal.changed]
    split
    · rename_i hend
      refine ⟨hpublished ▸ hseen, fun _ _ _ hlive => ?_⟩
      rw [hlive] at hend
      cases hend
    · rename_i hlive
      rw [hdisposed, Bool.not_eq_true] at hlive
      have hall := hpublishes hlive
      exact ⟨by omega, fun _ hsame => by omega⟩

theorem Served.listeners (h : w.Served a since l) {r : Registry α} (hr : r.Registers a) :
    Served a since l { w with sampler := { w.sampler with listeners := r } } :=
  ⟨h.loops, hr, h.publishes, h.seen, h.plain, h.differ, h.last, h.caughtUp⟩

-- A loop that moves on, without going back to waiting.
theorem Served.moves (h : w.Served a since l) {l' : SamplingLoop}
    (hseen : l'.seen ≤ w.terminal.published) (hphase : l'.phase ≠ .waiting) :
    Served a since l' { w with loops := [l'] } :=
  ⟨rfl, h.registered, h.publishes, hseen, h.plain, h.differ, h.last,
    fun hwaiting => absurd hwaiting hphase⟩

theorem Served.poll (h : w.Served a since l) {react : Reaction α}
    (hreact : ∀ id b r, r.Registers a → (react id b r).Registers a) :
    Served a since { l with phase := .waiting }
      ((Watch.poll react { w with loops := [{ l with phase := .waiting }] }).1) := by
  unfold Watch.poll
  cases hsample : w.sampler.sample w.terminal with
  | none =>
    exact ⟨rfl, h.registered, h.publishes, h.seen, h.plain, h.differ, h.last,
      fun _ _ _ hlive hmain => Sampler.lastSent_of_sample hsample hlive hmain⟩
  | some output =>
    obtain ⟨-, hmain, hnew, rfl⟩ := Sampler.sample_eq_some_iff.mp hsample
    obtain ⟨listeners, heq, hkept⟩ := deliver_eq (a := a) react w.terminal.snapshot
      { w with
        loops := [{ l with phase := .waiting }]
        sampler := w.sampler.send w.terminal.snapshot }
    have hregistered : w.sampler.listeners.members.count a = 1 := h.registered
    have hdelivered : deliveredTo { w with
        delivered := w.delivered ++ w.sampler.listeners.members.map fun b =>
          (b, w.terminal.snapshot) } a = w.deliveredTo a ++ [w.terminal.snapshot] := by
      rw [deliveredTo, List.filterMap_append, filterMap_delivery, hregistered]
      rfl
    simp only
    rw [heq]
    refine ⟨rfl, hkept hreact h.registered, h.publishes, h.seen, ?_, ?_, ?_, fun _ _ _ _ _ => rfl⟩
    · intro entry hentry
      rcases List.mem_append.mp hentry with hentry | hentry
      · exact h.plain entry hentry
      · obtain ⟨b, -, rfl⟩ := List.mem_map.mp hentry
        exact hmain
    · refine hdelivered ▸ List.isChain_append.mpr ⟨h.differ, List.isChain_singleton _, ?_⟩
      intro before hbefore after hafter hsame
      rw [h.last, Option.mem_def] at hbefore
      obtain rfl := Option.some.inj hafter
      exact hnew (hsame ▸ hbefore)
    · refine (congrArg List.getLast? hdelivered).trans ?_
      rw [List.getLast?_concat]
      rfl

theorem Served.loop (h : w.Served a since l) {react : Reaction α}
    (hreact : ∀ id b r, r.Registers a → (react id b r).Registers a) :
    ∃ l', (w.stepLoop react 0).Served a since l' := by
  have hsame : { w with loops := [l] } = w := by rw [← h.loops]
  have hfirst : w.loops[0]? = some l := by rw [h.loops, List.getElem?_cons_zero]
  have hset : ∀ l', w.loops.set 0 l' = [l'] := fun l' => by rw [h.loops, List.set_cons_zero]
  simp only [stepLoop, hfirst, hset]
  obtain ⟨interval, seen, phase⟩ := l
  cases phase with
  | waiting =>
    simp only [SamplingLoop.step, SamplingLoop.notice, Bool.false_eq_true, if_false]
    split
    · exact ⟨_, h.moves (Nat.le_refl _) (by simp)⟩
    · split
      · exact ⟨_, h.moves h.seen (by simp)⟩
      · exact ⟨_, hsame ▸ h⟩
  | pausing wakeAt =>
    simp only [SamplingLoop.step, Bool.false_eq_true, if_false]
    split
    · exact ⟨_, h.moves (Nat.le_refl _) (by simp [SamplingLoop.wake])⟩
    · exact ⟨_, hsame ▸ h⟩
  | polling => exact ⟨_, h.poll hreact⟩
  | ended => exact ⟨_, hsame ▸ h⟩

theorem Watched.served {start : Terminal} (h : Watched a start w) :
    ∃ l, w.Served a start.generation l := by
  induction h with
  | start interval hfresh hstart hwatches => exact hstart ▸ hfresh.served hwatches
  | step s _ hs ih =>
    obtain ⟨l, hserved⟩ := ih
    cases s with
    | change c => exact ⟨l, hserved.change c⟩
    | loop react => exact hserved.loop hs
    | wait time =>
      exact ⟨l, hserved.loops, hserved.registered, hserved.publishes, hserved.seen, hserved.plain,
        hserved.differ, hserved.last, hserved.caughtUp⟩
    | listeners r => exact ⟨l, hserved.listeners hs⟩

-- No update is lost: when the loop waits and there is no generation that it has not seen, and something
-- has happened at all, the last snapshot delivered is what the terminal shows.
theorem delivered_when_caught_up {start : Terminal} (h : Watched a start w) :
    (∀ entry ∈ w.delivered, entry.2.alternate = false) ∧ (w.deliveredTo a).IsChain (· ≠ ·) ∧
      ∃ l, w.loops = [l] ∧ (l.phase = .waiting → l.seen = w.terminal.published →
        start.generation < w.terminal.generation → w.terminal.disposed = false →
          w.terminal.isAlternate = false →
            (w.deliveredTo a).getLast? = some w.terminal.snapshot) := by
  obtain ⟨l, hserved⟩ := h.served
  refine ⟨hserved.plain, hserved.differ, l, hserved.loops, ?_⟩
  rw [hserved.last]
  exact hserved.caughtUp

def smallWatch : Watch Nat where
  terminal := .new ⟨4, 2⟩ 0
  sampler := { listeners := (Registry.add {} 7).1 }

-- The loop notices what was written, wakes and polls.
def writtenWatch : Watch Nat :=
  [.change (.write [97]), .loop fun _ _ r => r, .loop fun _ _ r => r, .loop fun _ _ r => r].foldl
    Step.play (smallWatch.watch 0).1

theorem delivered_to_smallWatch : Watched 7 smallWatch.terminal writtenWatch ∧
    writtenWatch.loops = [{ interval := 0, seen := 1 }] ∧
      (writtenWatch.deliveredTo 7).getLast? = some writtenWatch.terminal.snapshot ∧
        writtenWatch.terminal.snapshot.text = ['a'] := by
  have hfresh : smallWatch.Fresh 7 := ⟨.new ⟨4, 2⟩ 0, rfl, rfl, rfl, rfl⟩
  have hkeep : (Step.loop fun _ _ r => r).Allowed 7 := fun _ _ _ h => h
  have hwatched : Watched 7 smallWatch.terminal writtenWatch :=
    ((((Watched.start 0 hfresh rfl rfl).step (.change (.write [97])) trivial).step
      _ hkeep).step _ hkeep).step _ hkeep
  have hloops : writtenWatch.loops = [{ interval := 0, seen := 1 }] := by decide +kernel
  obtain ⟨-, -, l, hloop, hlast⟩ := delivered_when_caught_up hwatched
  obtain rfl := List.singleton_inj.mp (hloops.symm.trans hloop)
  exact ⟨hwatched, hloops, hlast rfl (by decide +kernel) (by decide +kernel) (by decide +kernel)
    (by decide +kernel), by decide +kernel⟩

end Steps

end Deliveries

end Watch

end ShellTranscript
