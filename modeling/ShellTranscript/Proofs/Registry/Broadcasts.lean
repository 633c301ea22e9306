import Mathlib.Tactic.Common
import ShellTranscript.Document
import ShellTranscript.Proofs.Registry.Diary
import ShellTranscript.Sampler.Watch

-- The two that broadcast to a registry: a watched terminal when it is polled, and a document when it
-- is edited. To their listeners, who may come and go while they are called, each of them does what a
-- diary notes: a poll that sends something and an edit that is made are notifications, and nothing
-- else is.
namespace ShellTranscript

namespace Registry

variable {α σ ι : Type}

-- What the acts of whoever keeps a registry are to it, one after another.
def operations (operation? : σ → ι → Option (Operation α)) (play : σ → ι → σ) (s : σ) :
    List ι → List (Operation α)
  | [] => []
  | act :: acts => (operation? s act).toList ++ operations operation? play (play s act) acts

-- The diary notes what becomes of the registry, and of those who hear.
structure Diary.Tracks (d : Diary α) (listeners : Registry α) (heard : List α) : Prop where
  listeners : listeners = d.registry
  heard : heard = d.events.filterMap Event.called?

namespace Diary.Tracks

variable {d : Diary α} {r : Registry α} {heard : List α}

theorem new : Diary.Tracks ({} : Diary α) {} [] := ⟨rfl, rfl⟩

-- Nobody hears anything from an event that is no call.
theorem note {e : Event α} (h : d.Tracks r heard) (he : e.called? = none) (notifications : Nat) :
    Diary.Tracks ⟨d.registry, d.events ++ [e], notifications⟩ r heard := by
  refine ⟨h.listeners, ?_⟩
  rw [List.filterMap_append, ← h.heard, List.filterMap_cons_none he]
  exact (List.append_nil heard).symm

theorem change (h : d.Tracks r heard) (c : Change α) : (d.change c).Tracks (apply r c) heard := by
  obtain ⟨rfl, rfl⟩ := h
  cases c with
  | add a => exact ⟨rfl, by simp [Diary.change, Event.called?]⟩
  | remove id => exact ⟨rfl, by simp [Diary.change, Event.called?]⟩

theorem changes (h : d.Tracks r heard) (changes : List (Change α)) :
    (changes.foldl Diary.change d).Tracks (changes.foldl apply r) heard := by
  induction changes generalizing d r with
  | nil => exact h
  | cons c changes ih => exact ih (h.change c)

theorem call (h : d.Tracks r heard) (conduct : Conduct α) (number id : Nat) (a : α) :
    (d.call conduct number id a).Tracks (react conduct id a r) (heard ++ [a]) := by
  obtain ⟨rfl, rfl⟩ := h
  have hcalled : Diary.Tracks { d with events := d.events ++ [.called number id a] } d.registry
      (d.events.filterMap Event.called? ++ [a]) := by
    refine ⟨rfl, ?_⟩
    rw [List.filterMap_append]
    rfl
  exact hcalled.changes (conduct id a d.registry)

section Keepers

variable (keeper : σ → Registry α) (hearers : σ → List α) {call : Nat → α → σ → σ}
  {conduct : Conduct α} {s : σ}

theorem calls (h : d.Tracks (keeper s) (hearers s))
    (hkeeper : ∀ id a s, keeper (call id a s) = react conduct id a (keeper s))
    (hhearers : ∀ id a s, hearers (call id a s) = hearers s ++ [a]) (number : Nat)
    (entries : List (Nat × α)) :
    (entries.foldl (fun d entry => d.call conduct number entry.1 entry.2) d).Tracks
      (keeper (entries.foldl (fun s entry => call entry.1 entry.2 s) s))
      (hearers (entries.foldl (fun s entry => call entry.1 entry.2 s) s)) := by
  induction entries generalizing d s with
  | nil => exact h
  | cons entry entries ih =>
    apply ih
    rw [hkeeper, hhearers]
    exact h.call conduct number entry.1 entry.2

-- If everyone who is called hears it and reacts, the notification is the diary's.
theorem notify (h : d.Tracks (keeper s) (hearers s))
    (hkeeper : ∀ id a s, keeper (call id a s) = react conduct id a (keeper s))
    (hhearers : ∀ id a s, hearers (call id a s) = hearers s ++ [a]) :
    (d.notify conduct).Tracks (keeper ((keeper s).notify call s))
      (hearers ((keeper s).notify call s)) := by
  have hbegun := h.note (e := .notified d.notifications) rfl (d.notifications + 1)
  unfold Diary.notify Registry.notify
  rw [← h.listeners] at hbegun ⊢
  exact hbegun.calls keeper hearers hkeeper hhearers d.notifications (keeper s).entries

theorem operations {operation? : σ → ι → Option (Operation α)} {play : σ → ι → σ}
    (h : d.Tracks (keeper s) (hearers s))
    (hstep : ∀ (d : Diary α) (s : σ) (act : ι), d.Tracks (keeper s) (hearers s) →
      ((operation? s act).toList.foldl Diary.perform d).Tracks (keeper (play s act))
        (hearers (play s act)))
    (acts : List ι) :
    ((Registry.operations operation? play s acts).foldl Diary.perform d).Tracks
      (keeper (acts.foldl play s)) (hearers (acts.foldl play s)) := by
  induction acts generalizing d s with
  | nil => exact h
  | cons act acts ih =>
    rw [Registry.operations, List.foldl_append]
    exact ih (hstep d s act h)

end Keepers

end Diary.Tracks

end Registry

open Registry (Change Conduct Diary Operation)

namespace Watch

variable {α : Type}

inductive Act (α : Type) where
  | change (c : Change α)
  | elsewhere (terminal : Terminal) (loops : List SamplingLoop) (now : Nat)
  | poll (conduct : Conduct α)

def play (w : Watch α) : Act α → Watch α
  | .change c => { w with
      sampler := { w.sampler with listeners := Registry.apply w.sampler.listeners c } }
  | .elsewhere terminal loops now => { w with terminal, loops, now }
  | .poll conduct => (w.poll (Registry.react conduct)).1

-- A poll is a notification if it tells so.
def operation? (w : Watch α) : Act α → Option (Operation α)
  | .change c => some (.change c)
  | .elsewhere _ _ _ => none
  | .poll conduct => if (w.poll (Registry.react conduct)).2 then some (.notify conduct) else none

-- Everybody who was sent something, once for each time.
def hearers (w : Watch α) : List α := w.delivered.map Prod.fst

theorem tracks_deliver {d : Diary α} {w : Watch α} (h : d.Tracks w.sampler.listeners w.hearers)
    (conduct : Conduct α) (snapshot : Snapshot) :
    (d.notify conduct).Tracks (deliver (Registry.react conduct) snapshot w).sampler.listeners
      (deliver (Registry.react conduct) snapshot w).hearers := by
  refine h.notify (fun w => w.sampler.listeners) hearers ?_ ?_
  · exact fun id a w => rfl
  · exact fun id a w => List.map_append

theorem tracks_play (d : Diary α) (w : Watch α) (act : Act α)
    (h : d.Tracks w.sampler.listeners w.hearers) :
    ((w.operation? act).toList.foldl Diary.perform d).Tracks (w.play act).sampler.listeners
      (w.play act).hearers := by
  cases act with
  | change c => exact h.change c
  | elsewhere terminal loops now => exact h
  | poll conduct =>
    unfold operation? play poll
    cases hsample : w.sampler.sample w.terminal with
    | none => exact h
    | some snapshot =>
      exact tracks_deliver (w := { w with sampler := w.sampler.send snapshot }) h conduct snapshot

end Watch

namespace Document

def tellWith (conduct : Conduct Text) (edit : Edit) (d : Document) : Document :=
  d.listeners.notify
    (fun id name d => { d with
      listeners := Registry.react conduct id name d.listeners
      notices := d.notices ++ [(name, edit)] })
    d

def replaceWith? (conduct : Conduct Text) (d : Document) (start stop : Nat) (inserted : Text) :
    Option Document :=
  if stop ≤ start ∧ inserted = [] then some d
  else
    (Text.splice? d.text start stop inserted).map fun (removed, text) =>
      { d with text }.tellWith conduct ⟨start, removed, inserted⟩

-- The registry may become another one, but the same are told the same.
theorem tellWith_eq (conduct : Conduct Text) (edit : Edit) (d : Document) :
    d.tellWith conduct edit = { d.tell edit with
      listeners := d.listeners.notify (Registry.react conduct) d.listeners } := by
  have hcalls : ∀ (entries : List (Nat × Text)) (d : Document),
      entries.foldl (fun d entry => { d with
          listeners := Registry.react conduct entry.1 entry.2 d.listeners
          notices := d.notices ++ [(entry.2, edit)] }) d =
        { d with
          listeners := entries.foldl (fun r entry => Registry.react conduct entry.1 entry.2 r)
            d.listeners
          notices := d.notices ++ entries.map fun entry => (entry.2, edit) } := by
    intro entries
    induction entries with
    | nil => simp
    | cons entry entries ih =>
      intro d
      rw [List.foldl_cons, ih]
      simp
  unfold tellWith tell Registry.notify Registry.members
  rw [hcalls, List.map_map]
  rfl

theorem replaceWith?_eq (conduct : Conduct Text) (d : Document) (start stop : Nat)
    (inserted : Text) : d.replaceWith? conduct start stop inserted =
      (d.replace? start stop inserted).map fun told => { told with
        listeners := if stop ≤ start ∧ inserted = [] then d.listeners
          else d.listeners.notify (Registry.react conduct) d.listeners } := by
  unfold replaceWith? replace?
  by_cases hempty : stop ≤ start ∧ inserted = []
  · simp only [if_pos hempty, Option.map_some]
  · simp only [if_neg hempty, Option.map_map, tellWith_eq]
    rfl

-- Listeners that change nothing.
def idle : Conduct Text := fun _ _ _ => []

theorem notify_idle (r r' : Registry Text) : r.notify (Registry.react idle) r' = r' := by
  unfold Registry.notify
  induction r.entries with
  | nil => rfl
  | cons entry entries ih => exact ih

theorem listeners_replace? {d told : Document} {start stop : Nat} {inserted : Text}
    (h : d.replace? start stop inserted = some told) : told.listeners = d.listeners := by
  unfold replace? at h
  split at h
  · exact Option.some.inj h ▸ rfl
  · obtain ⟨parts, -, rfl⟩ := Option.map_eq_some_iff.mp h
    rfl

theorem replaceWith?_idle (d : Document) (start stop : Nat) (inserted : Text) :
    d.replaceWith? idle start stop inserted = d.replace? start stop inserted := by
  rw [replaceWith?_eq, notify_idle, ite_self]
  cases htold : d.replace? start stop inserted with
  | none => rfl
  | some told => rw [Option.map_some, ← listeners_replace? htold]

inductive Act where
  | change (c : Change Text)
  | replace (conduct : Conduct Text) (start stop : Nat) (inserted : Text)

-- What cannot be replaced stays.
def play (d : Document) : Act → Document
  | .change (.add name) => (d.addListener name).1
  | .change (.remove id) => (d.removeListener id).1
  | .replace conduct start stop inserted => (d.replaceWith? conduct start stop inserted).getD d

-- An edit is a notification if it is made and is not the empty one.
def operation? (d : Document) : Act → Option (Operation Text)
  | .change c => some (.change c)
  | .replace conduct start stop inserted =>
    if stop ≤ start ∧ inserted = [] then none
    else (d.replaceWith? conduct start stop inserted).map fun _ => .notify conduct

def hearers (d : Document) : List Text := d.notices.map Prod.fst

theorem tracks_tellWith {diary : Diary Text} {d : Document}
    (h : diary.Tracks d.listeners d.hearers) (conduct : Conduct Text) (edit : Edit) :
    (diary.notify conduct).Tracks (d.tellWith conduct edit).listeners
      (d.tellWith conduct edit).hearers := by
  refine h.notify Document.listeners hearers ?_ ?_
  · exact fun id name d => rfl
  · exact fun id name d => List.map_append

theorem tracks_play (diary : Diary Text) (d : Document) (act : Act)
    (h : diary.Tracks d.listeners d.hearers) :
    ((d.operation? act).toList.foldl Diary.perform diary).Tracks (d.play act).listeners
      (d.play act).hearers := by
  cases act with
  | change c =>
    cases c with
    | add name => exact h.change (.add name)
    | remove id => exact h.change (.remove id)
  | replace conduct start stop inserted =>
    simp only [operation?, play, replaceWith?]
    by_cases hempty : stop ≤ start ∧ inserted = []
    · rw [if_pos hempty, if_pos hempty]
      exact h
    · rw [if_neg hempty, if_neg hempty]
      cases hsplice : Text.splice? d.text start stop inserted with
      | none => exact h
      | some parts =>
        exact tracks_tellWith (d := { d with text := parts.2 }) h conduct _

end Document

namespace Registry

-- Everything is said by the diary's events: what numbers are given, what a removal tells, and whom each
-- notification calls. Polls and edits are among the operations of which it holds.
theorem deliveries_stable {α : Type} :
    (∀ operations : List (Operation α), (operations.foldl Diary.perform {}).Faithful) ∧
    (∀ (terminal : Terminal) (acts : List (Watch.Act α)),
      ((operations Watch.operation? Watch.play { terminal } acts).foldl Diary.perform {}).Tracks
        (acts.foldl Watch.play { terminal }).sampler.listeners
        (acts.foldl Watch.play { terminal }).hearers) ∧
    (∀ acts : List Document.Act,
      ((operations Document.operation? Document.play {} acts).foldl Diary.perform {}).Tracks
        (acts.foldl Document.play {}).listeners (acts.foldl Document.play {}).hearers) ∧
    ∀ (d : Document) (start stop : Nat) (inserted : Text),
      d.replaceWith? Document.idle start stop inserted = d.replace? start stop inserted ∧
      ∀ conduct, d.replaceWith? conduct start stop inserted =
        (d.replace? start stop inserted).map fun told => { told with
          listeners := if stop ≤ start ∧ inserted = [] then d.listeners
            else d.listeners.notify (react conduct) d.listeners } := by
  refine ⟨Diary.faithful, fun terminal acts => ?_, fun acts => ?_,
    fun d start stop inserted => ⟨d.replaceWith?_idle start stop inserted, fun conduct => ?_⟩⟩
  · exact Diary.Tracks.new.operations (fun w : Watch α => w.sampler.listeners) Watch.hearers
      Watch.tracks_play acts
  · exact Diary.Tracks.new.operations Document.listeners Document.hearers Document.tracks_play acts
  · exact d.replaceWith?_eq conduct start stop inserted

-- Who is called first removes both, and the other one is called all the same, but not again.
example :
    let operations : List (Operation Nat) := [.change (.add 7), .change (.add 8),
      .notify fun _ _ _ => [.remove 1, .remove 2], .notify fun _ _ _ => []]
    (operations.foldl Diary.perform {}).events.filterMap Event.called? = [7, 8] := by decide

end Registry

end ShellTranscript
