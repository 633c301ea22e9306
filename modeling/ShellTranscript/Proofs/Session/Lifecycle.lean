import Mathlib.Tactic.Common
import ShellTranscript.Proofs.Session.Chunks

-- The life of commands as a reading tells it. Starts and finishes take turns, and the terminal is
-- reset once for each of them: before a start is told, and after a finish. So the place of one of
-- them among all that were told gives its epoch, whatever else is told in between.
namespace ShellTranscript

open Signal

namespace Event

def isStart : Event → Bool
  | commandStarted _ _ _ => true
  | _ => false

def startEpoch? : Event → Option Nat
  | commandStarted _ _ epoch => some epoch
  | _ => none

-- The life of a command is its start and its finish.
def isLifecycle : Event → Bool
  | commandStarted _ _ _ => true
  | commandFinished _ _ => true
  | _ => false

-- What can stand at a place among the starts and finishes that are told from some epoch on. A start
-- has counted its own reset already.
def InTurn (epoch place : Nat) : Event → Prop
  | commandStarted _ _ started => place % 2 = 0 ∧ started = epoch + place + 1
  | commandFinished _ output => place % 2 = 1 ∧ output.epoch = epoch + place
  | _ => False

theorem InTurn.isStart_iff {epoch place : Nat} {e : Event} (h : e.InTurn epoch place) :
    e.isStart = true ↔ place % 2 = 0 := by
  cases e with
  | commandStarted command prompt started => simp [isStart, h.1]
  | commandFinished exitCode output => simp [isStart, h.1]
  | _ => exact h.elim

end Event

def lifecycle (events : List Event) : List Event := events.filter Event.isLifecycle

theorem lifecycle_append (front back : List Event) :
    lifecycle (front ++ back) = lifecycle front ++ lifecycle back :=
  List.filter_append ..

def TakeTurns (epoch : Nat) (told : List Event) : Prop :=
  ∀ (place : Nat) (e : Event), told[place]? = some e → e.InTurn epoch place

section Turns

variable {epoch : Nat} {told : List Event}

theorem takeTurns_nil (epoch : Nat) : TakeTurns epoch [] := by
  intro place e he
  rw [List.getElem?_nil] at he
  cases he

theorem TakeTurns.concat (h : TakeTurns epoch told) {e : Event} (he : e.InTurn epoch told.length) :
    TakeTurns epoch (told ++ [e]) := by
  intro place other hother
  rcases Nat.lt_or_ge place told.length with hlt | hge
  · rw [List.getElem?_append_left hlt] at hother
    exact h place other hother
  · have hlength := (List.getElem?_eq_some_iff.mp hother).1
    rw [List.length_append, List.length_singleton] at hlength
    obtain rfl : place = told.length := by omega
    rw [List.getElem?_concat_length] at hother
    exact Option.some.inj hother ▸ he

theorem TakeTurns.of_prefix (h : TakeTurns epoch told) {front : List Event} (hfront : front <+: told) :
    TakeTurns epoch front := by
  intro place e he
  obtain ⟨rest, rfl⟩ := hfront
  have hlt := (List.getElem?_eq_some_iff.mp he).1
  exact h place e (by rwa [List.getElem?_append_left hlt])

theorem TakeTurns.next (h : TakeTurns epoch told) {heard later : List Event} {e : Event}
    (htold : told = heard ++ e :: later) : e.InTurn epoch heard.length := by
  refine h heard.length e ?_
  rw [htold, List.getElem?_append_right (Nat.le_refl _), Nat.sub_self, List.getElem?_cons_zero]

theorem TakeTurns.epochs_increase (h : TakeTurns epoch told) :
    (told.filterMap Event.startEpoch?).Pairwise (· < ·) := by
  rw [List.pairwise_filterMap, List.pairwise_iff_getElem]
  intro i j hi hj hlt first hfirst second hsecond
  have hi' := h i told[i] (List.getElem?_eq_getElem hi)
  have hj' := h j told[j] (List.getElem?_eq_getElem hj)
  cases hei : told[i] with
  | commandStarted command prompt started =>
    cases hej : told[j] with
    | commandStarted command' prompt' started' =>
      rw [hei] at hi' hfirst
      rw [hej] at hj' hsecond
      obtain rfl := Option.some.inj hfirst
      obtain rfl := Option.some.inj hsecond
      have hlow := hi'.2
      have hhigh := hj'.2
      omega
    | _ =>
      rw [hej] at hsecond
      cases hsecond
  | _ =>
    rw [hei] at hfirst
    cases hfirst

-- The snapshot that a command finishes with is of the epoch that it started in.
theorem TakeTurns.same_epoch (h : TakeTurns epoch told) {place started : Nat}
    {command prompt : Option Text} {exitCode : Int} {output : Snapshot}
    (hstart : told[place]? = some (.commandStarted command prompt started))
    (hfinish : told[place + 1]? = some (.commandFinished exitCode output)) :
    output.epoch = started := by
  have hstarted := (h place _ hstart).2
  have hfinished := (h (place + 1) _ hfinish).2
  omega

end Turns

namespace Reading

-- What the other parts of a session may do to a reading: anything but reset the terminal.
structure Undisturbed (r r' : Reading) : Prop where
  epoch : r'.terminal.epoch = r.terminal.epoch
  isRunning : r'.isRunning = r.isRunning

-- From one reading to another by these reads, with what is told in them.
inductive Reads : Reading → List (List UInt8) → List Notice → Reading → Prop where
  | done (r : Reading) : Reads r [] [] r
  | read {r r' : Reading} {chunks : List (List UInt8)} {notices : List Notice}
      (chunk : List UInt8) : Reads (r.read chunk).1 chunks notices r' →
      Reads r (chunk :: chunks) ((r.read chunk).2.1 ++ notices) r'
  | meanwhile {r r₁ r' : Reading} {chunks : List (List UInt8)} {notices : List Notice} :
      r.Undisturbed r₁ → Reads r₁ chunks notices r' → Reads r chunks notices r'

theorem reads_readAll (r : Reading) (chunks : List (List UInt8)) :
    r.Reads chunks (r.readAll chunks).2 (r.readAll chunks).1 := by
  induction chunks generalizing r with
  | nil => exact .done r
  | cons chunk chunks ih => exact .read chunk (ih (r.read chunk).1)

-- The starts and finishes that a reading has told took turns, and it is where they have led it.
structure AtTurn (r : Reading) (epoch : Nat) (told : List Event) : Prop where
  turns : TakeTurns epoch told
  epoch : r.terminal.epoch = epoch + told.length
  isRunning : r.isRunning = true ↔ told.length % 2 = 1

section Turns

variable {r r' : Reading} {epoch : Nat} {told : List Event}

theorem atTurn_of_idle (h : r.isRunning = false) : r.AtTurn r.terminal.epoch [] :=
  ⟨takeTurns_nil _, rfl, by simp [h]⟩

theorem AtTurn.congr (h : r.AtTurn epoch told) (hsame : r.Undisturbed r') : r'.AtTurn epoch told := by
  refine ⟨h.turns, ?_, ?_⟩
  · rw [hsame.epoch, h.epoch]
  · rw [hsame.isRunning, h.isRunning]

theorem AtTurn.finished (h : r.AtTurn epoch told) (hrunning : r.isRunning = true) (exitCode : Int) :
    ({ r with isRunning := false }.reset).AtTurn epoch
      (told ++ [Event.commandFinished exitCode r.terminal.snapshot]) := by
  have hodd := h.isRunning.mp hrunning
  refine ⟨h.turns.concat ⟨hodd, h.epoch⟩, ?_, ?_⟩
  · have hepoch := h.epoch
    simp only [reset, Terminal.clearAll, Terminal.changed, List.length_append, List.length_singleton]
    omega
  · simp only [reset, Bool.false_eq_true, false_iff, List.length_append, List.length_singleton]
    omega

theorem AtTurn.started (h : r.AtTurn epoch told) (hidle : r.isRunning = false)
    (command prompt : Option Text) : r.started.AtTurn epoch
      (told ++ [Event.commandStarted command prompt r.started.terminal.epoch]) := by
  have heven : ¬told.length % 2 = 1 := by
    rw [← h.isRunning, hidle]
    exact Bool.false_ne_true
  have hepoch : r.started.terminal.epoch = epoch + told.length + 1 := by
    have hreset : r.started.terminal.epoch = r.interrupted.terminal.epoch + 1 := rfl
    rw [hreset, interrupted_of_idle hidle, h.epoch]
  refine ⟨h.turns.concat ⟨by omega, hepoch⟩, ?_, ?_⟩
  · rw [hepoch, List.length_append, List.length_singleton, Nat.add_assoc]
  · simp only [Reading.started, reset, List.length_append, List.length_singleton, true_iff]
    omega

-- A start while a command runs is the start after that command has finished.
theorem AtTurn.startCommand (h : r.AtTurn epoch told) : r.startCommand.1.AtTurn epoch
    (told ++ lifecycle (r.startCommand.2.map Notice.event)) := by
  rw [startCommand_fst, startCommand_events]
  cases hrunning : r.isRunning with
  | false => exact h.started hrunning r.nextCommand r.prompt
  | true =>
    have hfinished := h.finished hrunning r.brokenExit
    have hstarted := hfinished.started rfl r.nextCommand r.prompt
    have hsame : Undisturbed ({ r with isRunning := false }.reset).started r.started := by
      refine ⟨?_, rfl⟩
      simp [Reading.started, Reading.interrupted, reset, hrunning]
    rw [← hsame.epoch, List.append_assoc] at hstarted
    exact hstarted.congr hsame

theorem AtTurn.finishCommand (h : r.AtTurn epoch told) (exitCode : Int) :
    (r.finishCommand exitCode).1.AtTurn epoch
      (told ++ lifecycle ((r.finishCommand exitCode).2.map Notice.event)) := by
  unfold Reading.finishCommand
  split
  · rename_i hrunning
    exact h.finished hrunning exitCode
  · simpa [lifecycle] using h

theorem AtTurn.act (h : r.AtTurn epoch told) (notice : ShellNotice) :
    (r.act notice).1.AtTurn epoch (told ++ lifecycle ((r.act notice).2.map Notice.event)) := by
  have hquiet : ∀ {r₁ : Reading}, r.Undisturbed r₁ → r₁.AtTurn epoch (told ++ []) := by
    intro r₁ hsame
    rw [List.append_nil]
    exact h.congr hsame
  cases notice with
  | commandExecuted => exact h.startCommand
  | commandFinished exitCode => exact h.finishCommand exitCode
  | _ => exact hquiet ⟨rfl, rfl⟩

theorem AtTurn.follow (h : r.AtTurn epoch told) (printed : Nat) (bytes : List UInt8)
    (found : List (Located ShellNotice)) : (r.follow printed bytes found).1.AtTurn epoch
      (told ++ lifecycle ((r.follow printed bytes found).2.map Notice.event)) := by
  induction found generalizing r told printed bytes with
  | nil =>
    rw [Reading.follow, List.map_nil]
    exact (List.append_nil told).symm ▸ h.congr ⟨r.terminal.write_epoch bytes, rfl⟩
  | cons first rest ih =>
    obtain ⟨stop, notice⟩ := first
    have hprinted : (r.print (bytes.take (stop - printed))).AtTurn epoch told :=
      h.congr ⟨r.terminal.write_epoch _, rfl⟩
    have hrest := ih (hprinted.act notice) stop (bytes.drop (stop - printed))
    simp only [Reading.follow, List.map_append, lifecycle_append, ← List.append_assoc]
    exact hrest

theorem AtTurn.read (h : r.AtTurn epoch told) (bytes : List UInt8) :
    (r.read bytes).1.AtTurn epoch (told ++ lifecycle ((r.read bytes).2.1.map Notice.event)) := by
  have hheard : AtTurn { r with decoder := (r.decoder.feed bytes).1 } epoch told := h.congr ⟨rfl, rfl⟩
  refine (hheard.follow 0 bytes (r.decoder.feed bytes).2).congr ⟨?_, ?_⟩
  · simp only [Reading.read, reconcile]
    split <;> rfl
  · simp only [Reading.read, reconcile]
    split <;> rfl

theorem Reads.atTurn {chunks : List (List UInt8)} {notices : List Notice}
    (h : r.Reads chunks notices r') (hturn : r.AtTurn epoch told) :
    r'.AtTurn epoch (told ++ lifecycle (notices.map Notice.event)) := by
  induction h generalizing told with
  | done r => exact (List.append_nil told).symm ▸ hturn
  | @read r r' chunks notices chunk _ ih =>
    rw [List.map_append, lifecycle_append, ← List.append_assoc]
    exact ih (hturn.read chunk)
  | meanwhile hsame _ ih => exact ih (hturn.congr hsame)

-- Whatever is told in reads that begin while no command runs, starts and finishes take turns in it.
theorem Reads.takeTurns {chunks : List (List UInt8)} {notices : List Notice}
    (h : r.Reads chunks notices r') (hidle : r.isRunning = false) :
    TakeTurns r.terminal.epoch (lifecycle (notices.map Notice.event)) :=
  (h.atTurn (atTurn_of_idle hidle)).turns

end Turns

end Reading

end ShellTranscript
