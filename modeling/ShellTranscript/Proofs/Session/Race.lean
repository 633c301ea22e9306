import Mathlib.Tactic.Common
import ShellTranscript.Session.Lifecycle

-- A start and a disposal of the same session at the same time, with their steps in any order. What
-- the start attached is closed and its tasks are ended if the disposal finds the latch open. A
-- disposal that comes to the latch before the start has opened it finds nothing to close, and the
-- start does not notice.
namespace ShellTranscript

-- Whose step it is.
inductive Side where
  | start
  | dispose
deriving DecidableEq, Repr

-- A session with the start and the disposal that are under way.
structure Race where
  session : Session
  call : StartCall
  disposal : DisposePhase := .marking

-- A session that was neither started nor disposed of.
structure Session.IsIdle (s : Session) : Prop where
  notStarted : s.isStarted = false
  notDisposed : s.isDisposed = false
  latch : s.latch = .pending
  samplingLoop : s.samplingLoop = none
  nextTick : s.nextTick = none
  notListed : s.tasksListed = false

-- A connector that nobody has closed.
def Session.HasOpen (s : Session) (connector : Nat) : Prop :=
  ∃ c, s.connectors[connector]? = some c ∧ c.isClosed = false

def Session.HasClosed (s : Session) (connector : Nat) : Prop :=
  ∃ c, s.connectors[connector]? = some c ∧ c.isClosed = true

theorem Session.HasOpen.close {s : Session} {connector : Nat} (h : s.HasOpen connector) :
    (s.modifyConnector connector Connector.close).HasClosed connector := by
  obtain ⟨c, hc, hopen⟩ := h
  refine ⟨c.close, ?_, ?_⟩
  · rw [modifyConnector, List.getElem?_modify_eq, hc]
    rfl
  · rw [Connector.close, hopen]
    rfl

namespace Race

def step (x : Race) : Side → Race
  | .start =>
    let (session, call) := x.session.stepStart x.call
    { x with session, call }
  | .dispose =>
    let (session, disposal) := x.session.stepDispose x.disposal
    { x with session, disposal }

def run (x : Race) (order : List Side) : Race := order.foldl step x

def HasReturned (x : Race) : Prop := x.call.result?.isSome = true ∧ x.disposal = .returned

-- The start has failed or its connector has been closed, and no task is left running.
structure Clean (x : Race) (connector : Nat) : Prop where
  closed : (∃ fault, x.call.result? = some (.error fault)) ∨ x.session.HasClosed connector
  noTasks : x.session.hasTasks = false

section Steps

variable {x : Race} {connector n : Nat}

-- How many steps it has taken, and what it has come to.
inductive Progress (s : Session) (connector : Nat) : StartPhase → Nat → Prop where
  | marking : s.isStarted = false → s.connectors.length = connector → Progress s connector .marking 1
  | spawning : s.connectors.length = connector → Progress s connector .spawning 2
  | attaching : s.connectors.length = connector → Progress s connector .attaching 3
  | listing : s.HasOpen connector → Progress s connector (.listing connector) 4
  | opening : s.HasOpen connector → Progress s connector (.opening connector) 5
  | returned : s.HasOpen connector → Progress s connector (.returned (.ok ())) 6

-- A session with the same connectors, started or not as before.
theorem Progress.congr {s s' : Session} {phase : StartPhase} (h : Progress s connector phase n)
    (hconnectors : s'.connectors = s.connectors) (hstarted : s'.isStarted = s.isStarted) :
    Progress s' connector phase n := by
  have hkept : s.HasOpen connector → s'.HasOpen connector := by
    rw [Session.HasOpen, Session.HasOpen, hconnectors]
    exact id
  cases h with
  | marking hunmarked hlength => exact .marking (hstarted.trans hunmarked) (hconnectors ▸ hlength)
  | spawning hlength => exact .spawning (hconnectors ▸ hlength)
  | attaching hlength => exact .attaching (hconnectors ▸ hlength)
  | listing hopen => exact .listing (hkept hopen)
  | opening hopen => exact .opening (hkept hopen)
  | returned hopen => exact .returned (hkept hopen)

theorem Progress.of_six {s : Session} {phase : StartPhase} (h : Progress s connector phase 6) :
    phase = .returned (.ok ()) ∧ s.HasOpen connector := by
  cases h with
  | returned hopen => exact ⟨rfl, hopen⟩

-- The fourth step lists the tasks, and only the last one comes to the latch.
theorem Progress.step (h : Progress x.session connector x.call.phase n)
    (hworks : x.call.faults.takeReader = false) :
    Progress (x.step .start).session connector (x.step .start).call.phase (min (n + 1) 6) ∧
      (x.step .start).call.faults = x.call.faults ∧
      (x.step .start).session.isDisposed = x.session.isDisposed ∧
      (x.step .start).session.latch =
        (if n = 5 then (x.session.latch.resolve connector).1 else x.session.latch) ∧
      (x.step .start).session.tasksListed = (if n = 4 then true else x.session.tasksListed) := by
  obtain ⟨s, ⟨faults, phase⟩, disposal⟩ := x
  simp only at h hworks
  cases h with
  | marking hunmarked hlength =>
    have hstep : Race.step ⟨s, ⟨faults, .marking⟩, disposal⟩ .start =
        ⟨{ s with isStarted := true }, ⟨faults, .spawning⟩, disposal⟩ := by
      simp [Race.step, Session.stepStart, hunmarked]
    rw [hstep]
    exact ⟨.spawning hlength, rfl, rfl, rfl, rfl⟩
  | spawning hlength => exact ⟨.attaching hlength, rfl, rfl, rfl, rfl⟩
  | attaching hlength =>
    have hstep : Race.step ⟨s, ⟨faults, .attaching⟩, disposal⟩ .start =
        ⟨{ s with
          connectors := s.connectors ++ [{ faults }]
          reader := .attached connector }, ⟨faults, .listing connector⟩, disposal⟩ := by
      simp [Race.step, Session.stepStart, hworks, hlength]
    rw [hstep]
    exact ⟨.listing ⟨{ faults }, by simp [← hlength], rfl⟩, rfl, rfl, rfl, rfl⟩
  | listing hopen => exact ⟨.opening hopen, rfl, rfl, rfl, rfl⟩
  | opening hopen => exact ⟨.returned hopen, rfl, rfl, rfl, rfl⟩
  | returned hopen => exact ⟨.returned hopen, rfl, rfl, rfl, rfl⟩

-- A disposal that has not come to the latch yet.
inductive Ahead (s : Session) : DisposePhase → Nat → Prop where
  | marking : s.isDisposed = false → Ahead s .marking 0
  | taking : Ahead s .taking 1

theorem Ahead.congr {s s' : Session} {disposal : DisposePhase} {m : Nat} (h : Ahead s disposal m)
    (hdisposed : s'.isDisposed = s.isDisposed) : Ahead s' disposal m := by
  cases h with
  | marking hnot => exact .marking (hdisposed.trans hnot)
  | taking => exact .taking

-- The start has begun, and neither of the two has come to the latch.
structure Undecided (x : Race) (connector n m : Nat) : Prop where
  works : x.call.faults.takeReader = false
  progress : Progress x.session connector x.call.phase n
  unopened : n ≤ 5
  listed : n = 5 → x.session.tasksListed = true
  latch : x.session.latch = .pending
  ahead : Ahead x.session x.disposal m

-- The disposal has come to the latch before the start, and has nothing to close.
structure Missed (x : Race) (connector n : Nat) : Prop where
  works : x.call.faults.takeReader = false
  progress : Progress x.session connector x.call.phase n
  latch : x.session.latch = .disposed
  disposal : x.disposal = .silencing ∨ x.disposal = .aborting ∨ x.disposal = .announcing ∨
    x.disposal = .returned

-- The disposal finds the latch open, with the connector, and the tasks listed.
inductive Finds (s : Session) (connector : Nat) : DisposePhase → Prop where
  | marking : s.isDisposed = false → s.latch = .ready connector → s.HasOpen connector →
      s.tasksListed = true → Finds s connector .marking
  | taking : s.latch = .ready connector → s.HasOpen connector → s.tasksListed = true →
      Finds s connector .taking
  | closing : s.HasOpen connector → s.tasksListed = true → Finds s connector (.closing connector)
  | silencing : s.HasClosed connector → s.tasksListed = true → Finds s connector .silencing
  | aborting : s.HasClosed connector → s.tasksListed = true → Finds s connector .aborting
  | announcing : s.HasClosed connector → s.hasTasks = false → Finds s connector .announcing
  | returned : s.HasClosed connector → s.hasTasks = false → Finds s connector .returned

structure Opened (x : Race) (connector : Nat) : Prop where
  phase : x.call.phase = .returned (.ok ())
  finds : Finds x.session connector x.disposal

-- The disposal was first, and the start fails without having done anything.
structure Refused (x : Race) : Prop where
  isDisposed : x.session.isDisposed = true
  phase : x.call.phase = .checking ∨ x.call.phase = .returned (.error .disposed)
  noTasks : x.session.hasTasks = false

theorem Refused.step (h : x.Refused) (side : Side) : (x.step side).Refused := by
  obtain ⟨s, ⟨faults, phase⟩, disposal⟩ := x
  obtain ⟨hdisposed, hphase, hnone⟩ := h
  simp only at hdisposed hphase hnone
  cases side with
  | start =>
    rcases hphase with rfl | rfl
    · simp only [Race.step, Session.stepStart, hdisposed, if_true]
      exact ⟨hdisposed, .inr rfl, hnone⟩
    · exact ⟨hdisposed, .inr rfl, hnone⟩
  | dispose =>
    cases disposal with
    | marking =>
      simp only [Race.step, Session.stepDispose, hdisposed, if_true]
      exact ⟨hdisposed, hphase, hnone⟩
    | aborting =>
      simp only [Race.step, Session.stepDispose]
      split
      · exact ⟨hdisposed, hphase, rfl⟩
      · exact ⟨hdisposed, hphase, hnone⟩
    | _ => exact ⟨hdisposed, hphase, hnone⟩

theorem Opened.step (h : x.Opened connector) (side : Side) : (x.step side).Opened connector := by
  obtain ⟨s, ⟨faults, phase⟩, disposal⟩ := x
  obtain ⟨hphase, hfinds⟩ := h
  simp only at hphase hfinds
  subst hphase
  cases side with
  | start => exact ⟨rfl, hfinds⟩
  | dispose =>
    refine ⟨rfl, ?_⟩
    cases hfinds with
    | marking hnot hready hopen hlisted =>
      simp only [Race.step, Session.stepDispose, hnot, Bool.false_eq_true, if_false]
      exact .taking hready hopen hlisted
    | taking hready hopen hlisted =>
      simp only [Race.step, Session.stepDispose, hready, Latch.dispose, Latch.value?]
      exact .closing hopen hlisted
    | closing hopen hlisted => exact .silencing hopen.close hlisted
    | silencing hclosed hlisted => exact .aborting hclosed hlisted
    | aborting hclosed hlisted =>
      simp only [Race.step, Session.stepDispose, hlisted, if_true]
      exact .announcing hclosed rfl
    | announcing hclosed hnone => exact .returned hclosed hnone
    | returned hclosed hnone => exact .returned hclosed hnone

theorem Missed.start (h : x.Missed connector n) :
    (x.step .start).Missed connector (min (n + 1) 6) := by
  obtain ⟨hprogress, hfaults, -, hlatch, -⟩ := h.progress.step h.works
  refine ⟨hfaults ▸ h.works, hprogress, ?_, h.disposal⟩
  rw [hlatch, h.latch]
  split <;> rfl

theorem Missed.dispose (h : x.Missed connector n) : (x.step .dispose).Missed connector n := by
  obtain ⟨s, ⟨faults, phase⟩, disposal⟩ := x
  obtain ⟨hworks, hprogress, hlatch, hdisposal⟩ := h
  simp only at hworks hprogress hlatch hdisposal
  rcases hdisposal with rfl | rfl | rfl | rfl
  · exact ⟨hworks, hprogress.congr rfl rfl, hlatch, .inr (.inl rfl)⟩
  · simp only [Race.step, Session.stepDispose]
    refine ⟨hworks, ?_, ?_, .inr (.inr (.inl rfl))⟩ <;> split
    · exact hprogress.congr rfl rfl
    · exact hprogress
    · exact hlatch
    · exact hlatch
  · exact ⟨hworks, hprogress.congr rfl rfl, hlatch, .inr (.inr (.inr rfl))⟩
  · exact ⟨hworks, hprogress, hlatch, .inr (.inr (.inr rfl))⟩

-- The sixth step of the start decides in favour of the start, unless the disposal comes first.
theorem Undecided.start {m : Nat} (h : x.Undecided connector n m) :
    if n = 5 then (x.step .start).Opened connector
    else (x.step .start).Undecided connector (n + 1) m := by
  obtain ⟨hprogress, hfaults, hdisposed, hlatch, hlisted⟩ := h.progress.step h.works
  rw [h.latch] at hlatch
  split
  · rename_i hlast
    subst hlast
    obtain ⟨hphase, hopen⟩ := hprogress.of_six
    refine ⟨hphase, ?_⟩
    show Finds (x.step .start).session connector x.disposal
    have hahead := h.ahead.congr hdisposed
    generalize x.disposal = disposal at hahead ⊢
    cases hahead with
    | marking hnot => exact .marking hnot hlatch hopen (hlisted.trans (h.listed rfl))
    | taking => exact .taking hlatch hopen (hlisted.trans (h.listed rfl))
  · rename_i hnot
    have hunopened := h.unopened
    rw [if_neg hnot] at hlatch
    rw [Nat.min_eq_left (by omega)] at hprogress
    refine ⟨hfaults ▸ h.works, hprogress, by omega, fun hn => ?_, hlatch, h.ahead.congr hdisposed⟩
    rw [hlisted, if_pos (by omega)]

theorem Undecided.dispose {m : Nat} (h : x.Undecided connector n m) :
    if m = 0 then (x.step .dispose).Undecided connector n 1
    else (x.step .dispose).Missed connector n := by
  obtain ⟨s, ⟨faults, phase⟩, disposal⟩ := x
  obtain ⟨hworks, hprogress, hunopened, hlisted, hlatch, hahead⟩ := h
  simp only at hworks hprogress hlisted hlatch hahead
  cases hahead with
  | marking hnot =>
    simp only [Race.step, Session.stepDispose, hnot, Bool.false_eq_true, if_false, if_true]
    exact ⟨hworks, hprogress.congr rfl rfl, hunopened, hlisted, hlatch, .taking⟩
  | taking =>
    simp only [Race.step, Session.stepDispose, hlatch, Latch.dispose, Latch.value?]
    exact ⟨hworks, hprogress.congr rfl rfl, rfl, .inl rfl⟩

end Steps

-- With so many steps taken before, the start takes its sixth before the disposal takes its second.
def InTime (n m : Nat) (order : List Side) : Prop :=
  ∃ front, front <+: order ∧ 6 ≤ n + front.count .start ∧ m + front.count .dispose ≤ 1

section Runs

variable {x : Race} {connector n m : Nat} {order : List Side}

-- As long as the start has a step to take, the next step counts.
theorem inTime_cons (hn : n ≤ 5) (side : Side) : InTime n m (side :: order) ↔
    InTime (n + [side].count .start) (m + [side].count .dispose) order := by
  have hcount : ∀ (front : List Side) (counted : Side),
      (side :: front).count counted = [side].count counted + front.count counted := by
    intro front counted
    rw [← List.count_append, List.singleton_append]
  constructor
  · rintro ⟨front, hfront, hstarts, hdisposals⟩
    rcases List.prefix_cons_iff.mp hfront with rfl | ⟨rest, rfl, hrest⟩
    · rw [List.count_nil] at hstarts
      omega
    · rw [hcount] at hstarts hdisposals
      exact ⟨rest, hrest, by omega, by omega⟩
  · rintro ⟨rest, hrest, hstarts, hdisposals⟩
    refine ⟨side :: rest, List.cons_prefix_cons.mpr ⟨rfl, hrest⟩, ?_, ?_⟩ <;>
      rw [hcount] <;> omega

theorem Refused.run (h : x.Refused) (order : List Side) : (x.run order).Refused := by
  induction order generalizing x with
  | nil => exact h
  | cons side order ih => exact ih (h.step side)

theorem Opened.run (h : x.Opened connector) (order : List Side) :
    (x.run order).Opened connector := by
  induction order generalizing x with
  | nil => exact h
  | cons side order ih => exact ih (h.step side)

theorem Missed.run (h : x.Missed connector n) (order : List Side) :
    ∃ n, (x.run order).Missed connector n := by
  induction order generalizing x n with
  | nil => exact ⟨n, h⟩
  | cons side order ih =>
    cases side with
    | start => exact ih h.start
    | dispose => exact ih h.dispose

theorem Refused.clean (h : x.Refused) (hreturned : x.HasReturned) : x.Clean connector := by
  refine ⟨.inl ⟨.disposed, ?_⟩, h.noTasks⟩
  have hresult := hreturned.1
  rcases h.phase with hphase | hphase
  · simp [StartCall.result?, hphase] at hresult
  · simp [StartCall.result?, hphase]

theorem Opened.clean (h : x.Opened connector) (hreturned : x.HasReturned) : x.Clean connector := by
  have hfinds := h.finds
  rw [hreturned.2] at hfinds
  cases hfinds with
  | returned hclosed hnone => exact ⟨.inr hclosed, hnone⟩

-- The start succeeds, and its connector stays open.
theorem Missed.not_clean (h : x.Missed connector n) (hreturned : x.HasReturned) :
    ¬x.Clean connector := by
  have hresult := hreturned.1
  have hprogress := h.progress
  obtain ⟨s, ⟨faults, phase⟩, disposal⟩ := x
  simp only [StartCall.result?] at hresult hprogress
  cases hprogress with
  | returned hopen =>
    rintro ⟨⟨fault, hfault⟩ | ⟨c, hc, hclosed⟩, -⟩
    · simp [StartCall.result?] at hfault
    · obtain ⟨c', hc', hopen'⟩ := hopen
      obtain rfl : c = c' := Option.some.inj (hc.symm.trans hc')
      rw [hclosed] at hopen'
      cases hopen'
  | _ => simp at hresult

theorem Undecided.not_hasReturned (h : x.Undecided connector n m) : ¬x.HasReturned := by
  rintro ⟨-, hreturned⟩
  have hahead := h.ahead
  rw [hreturned] at hahead
  cases hahead

theorem Ahead.le {s : Session} {disposal : DisposePhase} (h : Ahead s disposal m) : m ≤ 1 := by
  cases h with
  | marking => exact Nat.zero_le 1
  | taking => exact Nat.le_refl 1

-- By induction on the steps to come: each of them leaves the race open or decides it.
theorem Undecided.clean_iff_inTime (h : x.Undecided connector n m) (order : List Side)
    (hreturned : (x.run order).HasReturned) :
    (x.run order).Clean connector ↔ InTime n m order := by
  induction order generalizing x n m with
  | nil => exact absurd hreturned h.not_hasReturned
  | cons side order ih =>
    have hle := h.ahead.le
    cases side with
    | start =>
      rw [inTime_cons h.unopened]
      have hstep := h.start
      split at hstep
      · rename_i hlast
        subst hlast
        exact iff_of_true ((hstep.run order).clean hreturned)
          ⟨[], List.nil_prefix, by decide, hle⟩
      · exact ih hstep hreturned
    | dispose =>
      rw [inTime_cons h.unopened]
      have hstep := h.dispose
      split at hstep
      · rename_i hfirst
        subst hfirst
        exact ih hstep hreturned
      · obtain ⟨n', hmissed⟩ := hstep.run order
        refine iff_of_false (hmissed.not_clean hreturned) ?_
        have hone : [Side.dispose].count .dispose = 1 := rfl
        rintro ⟨front, -, -, hcount⟩
        omega

end Runs

-- When both have returned, nothing is left of the start exactly if the disposal came before its first
-- step or did not come to the latch before its last one.
theorem clean_iff {s : Session} (hidle : s.IsIdle) {faults : ConnectorFaults}
    (hworks : faults.takeReader = false) (order : List Side)
    (hreturned : (run { session := s, call := { faults } } order).HasReturned) :
    (run { session := s, call := { faults } } order).Clean s.connectors.length ↔
      order.head? = some .dispose ∨ InTime 0 0 order := by
  cases order with
  | nil => simp [run, HasReturned, StartCall.result?] at hreturned
  | cons side order =>
    have hrun : run { session := s, call := { faults } } (side :: order) =
        (step { session := s, call := { faults } } side).run order := rfl
    rw [hrun] at hreturned ⊢
    cases side with
    | start =>
      have hbegun : (step { session := s, call := { faults } } .start).Undecided
          s.connectors.length 1 0 := by
        have hstep : step { session := s, call := { faults } } .start =
            { session := s, call := { faults, phase := .marking } } := by
          simp [step, Session.stepStart, hidle.notDisposed]
        rw [hstep]
        exact ⟨hworks, .marking hidle.notStarted rfl, by omega, by omega, hidle.latch,
          .marking hidle.notDisposed⟩
      rw [hbegun.clean_iff_inTime order hreturned, inTime_cons (Nat.zero_le 5)]
      simp
    | dispose =>
      have hrefused : (step { session := s, call := { faults } } .dispose).Refused := by
        have hstep : step { session := s, call := { faults } } .dispose =
            { session := { s with isDisposed := true }, call := { faults }, disposal := .taking } := by
          simp [step, Session.stepDispose, hidle.notDisposed]
        rw [hstep]
        refine ⟨rfl, .inl rfl, ?_⟩
        simp [Session.hasTasks, Session.isLooping, hidle.samplingLoop, hidle.nextTick]
      exact iff_of_true ((hrefused.run order).clean hreturned) (.inl rfl)

def idleSession : Session where
  settings := { columns := 4, rows := 2, scrollback := 0 }
  reading := { terminal := .new ⟨4, 2⟩ 0, echo := .new true 1500 3000 }

-- The disposal has begun when the start goes on, and comes to the latch behind it.
def lateDisposal : List Side :=
  [.start, .dispose] ++ List.replicate 5 .start ++ List.replicate 5 .dispose

-- The disposal is through while the start lists its tasks.
def earlyDisposal : List Side :=
  List.replicate 4 .start ++ List.replicate 5 .dispose ++ List.replicate 2 .start

theorem clean_lateDisposal :
    (run { session := idleSession, call := {} } lateDisposal).Clean 0 :=
  (@clean_iff idleSession ⟨rfl, rfl, rfl, rfl, rfl, rfl⟩ {} rfl lateDisposal ⟨rfl, rfl⟩).mpr
    (.inr ⟨[.start, .dispose] ++ List.replicate 5 .start, List.prefix_append _ _, by decide,
      by decide⟩)

-- The start returns without an error, and there is nobody left to close the connector or to end the
-- tasks.
theorem leaks_earlyDisposal :
    let x := run { session := idleSession, call := {} } earlyDisposal
    x.HasReturned ∧ x.call.result? = some (.ok ()) ∧ x.session.HasOpen 0 ∧
      x.session.hasTasks = true ∧ ¬x.Clean 0 := by
  refine ⟨⟨rfl, rfl⟩, rfl, ⟨{}, rfl, rfl⟩, rfl, ?_⟩
  rintro ⟨-, hnone⟩
  cases hnone

end Race

end ShellTranscript
