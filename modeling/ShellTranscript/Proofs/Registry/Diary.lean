import Mathlib.Tactic.Common
import ShellTranscript.Registry

-- A registry whose listeners change it while they are called. A diary notes who comes and goes and
-- who is called. Numbers are given once, a removal tells whether there was somebody to remove, and
-- whoever is registered when a notification begins is called by it, once and in the order of
-- registration, whatever the others do meanwhile.
namespace ShellTranscript.Registry

variable {α : Type}

inductive Change (α : Type) where
  | add (a : α)
  | remove (id : Nat)
deriving DecidableEq, Repr

def apply (r : Registry α) : Change α → Registry α
  | .add a => (r.add a).1
  | .remove id => (r.remove id).1

-- What a listener does when it is called, if the registry is like that by then.
abbrev Conduct (α : Type) := Nat → α → Registry α → List (Change α)

def react (conduct : Conduct α) (id : Nat) (a : α) (r : Registry α) : Registry α :=
  (conduct id a r).foldl apply r

-- Notifications are numbered as they begin.
inductive Event (α : Type) where
  | added (id : Nat) (a : α)
  | removed (id : Nat) (found : Bool)
  | notified (number : Nat)
  | called (number id : Nat) (a : α)
deriving DecidableEq, Repr

namespace Event

def added? : Event α → Option (Nat × α)
  | added id a => some (id, a)
  | _ => none

def removes (id : Nat) : Event α → Bool
  | removed other _ => id == other
  | _ => false

def notified? : Event α → Option Nat
  | notified number => some number
  | _ => none

def callOf? (number : Nat) : Event α → Option (Nat × α)
  | called other id a => if other = number then some (id, a) else none
  | _ => none

def called? : Event α → Option α
  | called _ _ a => some a
  | _ => none

end Event

def given (events : List (Event α)) : List Nat := (events.filterMap Event.added?).map Prod.fst

def callsOf (number : Nat) (events : List (Event α)) : List (Nat × α) :=
  events.filterMap (Event.callOf? number)

-- Those who have come and not gone, in the order in which they came.
def standing : List (Event α) → List (Nat × α)
  | [] => []
  | .added id a :: later =>
    if later.any (Event.removes id) then standing later else (id, a) :: standing later
  | _ :: later => standing later

structure Diary (α : Type) where
  registry : Registry α := {}
  events : List (Event α) := []
  notifications : Nat := 0

namespace Diary

def change (d : Diary α) : Change α → Diary α
  | .add a =>
    let (registry, id) := d.registry.add a
    { d with registry, events := d.events ++ [.added id a] }
  | .remove id =>
    let (registry, found) := d.registry.remove id
    { d with registry, events := d.events ++ [.removed id found] }

def call (conduct : Conduct α) (number id : Nat) (a : α) (d : Diary α) : Diary α :=
  (conduct id a d.registry).foldl change { d with events := d.events ++ [.called number id a] }

def notify (conduct : Conduct α) (d : Diary α) : Diary α :=
  d.registry.notify (call conduct d.notifications)
    { d with events := d.events ++ [.notified d.notifications], notifications := d.notifications + 1 }

end Diary

inductive Operation (α : Type) where
  | change (c : Change α)
  | notify (conduct : Conduct α)

def Diary.perform (d : Diary α) : Operation α → Diary α
  | .change c => d.change c
  | .notify conduct => d.notify conduct

-- The numbers given are one, two, three and so on: kept in 64 bits, they would not be confused before
-- there are as many of them as such words. Each notification calls those who stand when it begins.
structure Diary.Faithful (d : Diary α) : Prop where
  registry : d.registry.entries = standing d.events
  numbers : given d.events = List.range' 1 (given d.events).length
  words : ∀ id ∈ given d.events, ∀ id' ∈ given d.events,
    id % UInt64.size = id' % UInt64.size → id = id' ∨ UInt64.size ≤ (given d.events).length
  removals : ∀ before id found after, d.events = before ++ .removed id found :: after →
    (found = true ↔ ∃ a, (id, a) ∈ standing before)
  notifications : d.events.filterMap Event.notified? = List.range d.notifications
  calls : ∀ before number after, d.events = before ++ .notified number :: after →
    callsOf number d.events = standing before
  called : ∀ before number id a after, d.events = before ++ .called number id a :: after →
    .notified number ∈ before
  once : ∀ number, ((callsOf number d.events).map Prod.fst).Nodup

section Events

variable {β : Type} {events : List (Event α)} {e : Event α} {id number : Nat} {a : α}

theorem split_concat {elements before after : List β} {last element : β}
    (h : elements ++ [last] = before ++ element :: after) :
    (∃ after', elements = before ++ element :: after') ∨ elements = before ∧ last = element := by
  rcases List.eq_nil_or_concat after with rfl | ⟨after, other, rfl⟩
  · obtain ⟨hbefore, hlast⟩ := List.append_inj' h rfl
    exact .inr ⟨hbefore, List.singleton_inj.mp hlast⟩
  · rw [List.concat_eq_append, ← List.cons_append, ← List.append_assoc] at h
    exact .inl ⟨after, (List.append_inj' h rfl).1⟩

theorem standing_concat (events : List (Event α)) (e : Event α) :
    standing (events ++ [e]) =
      (standing events).filter (fun entry => !e.removes entry.1) ++ e.added?.toList := by
  induction events with
  | nil => cases e <;> rfl
  | cons first events ih =>
    cases first with
    | added other b =>
      have hgone : (events ++ [e]).any (Event.removes other) =
          (events.any (Event.removes other) || e.removes other) := by simp
      rw [List.cons_append, standing, standing, hgone, ih]
      by_cases hbefore : events.any (Event.removes other) = true
      · rw [hbefore, Bool.true_or, if_pos rfl, if_pos rfl]
      · by_cases hnow : e.removes other = true
        · simp [hbefore, hnow]
        · simp [hbefore, hnow]
    | removed _ _ | notified _ | called _ _ _ => exact ih

theorem standing_concat_other (hadded : e.added? = none) (hremoved : ∀ id, e.removes id = false) :
    standing (events ++ [e]) = standing events := by
  rw [standing_concat, hadded, List.filter_eq_self.mpr]
  · exact List.append_nil _
  · intro entry _
    rw [hremoved]
    rfl

theorem callsOf_concat (number : Nat) (events : List (Event α)) (e : Event α) :
    callsOf number (events ++ [e]) = callsOf number events ++ (e.callOf? number).toList := by
  rw [callsOf, List.filterMap_append]
  cases hcall : e.callOf? number <;> simp [callsOf, hcall]

theorem given_concat (events : List (Event α)) (e : Event α) :
    given (events ++ [e]) = given events ++ (e.added?.map Prod.fst).toList := by
  rw [given, List.filterMap_append, List.map_append]
  cases hadded : e.added? <;> simp [given, hadded]

theorem standing_sublist (events : List (Event α)) :
    (standing events).Sublist (events.filterMap Event.added?) := by
  induction events with
  | nil => exact List.Sublist.refl []
  | cons e events ih =>
    cases e with
    | added id a =>
      rw [standing]
      split
      · exact ih.cons (id, a)
      · exact ih.cons_cons (id, a)
    | removed _ _ | notified _ | called _ _ _ => exact ih

theorem notified_mem_iff : Event.notified number ∈ events ↔
    number ∈ events.filterMap Event.notified? := by
  rw [List.mem_filterMap]
  constructor
  · exact fun h => ⟨_, h, rfl⟩
  · rintro ⟨e, he, hnumber⟩
    cases e with
    | notified other => exact Option.some.inj hnumber ▸ he
    | added _ _ | removed _ _ | called _ _ _ => cases hnumber

end Events

-- The registry is what the comings and goings have made of it.
structure Kept (r : Registry α) (events : List (Event α)) : Prop where
  entries : r.entries = standing events
  next : r.next = (given events).length + 1
  numbers : given events = List.range' 1 (given events).length
  removals : ∀ before id found after, events = before ++ .removed id found :: after →
    (found = true ↔ ∃ a, (id, a) ∈ standing before)

namespace Kept

variable {r : Registry α} {events : List (Event α)}

theorem new : Kept ({} : Registry α) [] where
  entries := rfl
  next := rfl
  numbers := rfl
  removals before _ _ _ heq := by simp at heq

theorem add (h : Kept r events) (a : α) :
    Kept (r.add a).1 (events ++ [.added (r.add a).2 a]) := by
  have hgiven : given (events ++ [.added r.next a]) = given events ++ [r.next] := given_concat _ _
  refine ⟨?_, ?_, ?_, ?_⟩
  · have hall : r.entries.filter (fun entry => !(Event.added (r.add a).2 a).removes entry.1) =
        r.entries := List.filter_eq_self.mpr fun _ _ => rfl
    rw [standing_concat, ← h.entries, hall]
    rfl
  · rw [Registry.add, hgiven, List.length_append, h.next, List.length_singleton]
  · rw [Registry.add, hgiven, List.length_append, List.length_singleton, List.range'_concat,
      ← h.numbers, h.next, Nat.one_mul, Nat.add_comm]
  · intro before id found after heq
    rcases split_concat heq with ⟨after, heq⟩ | ⟨-, hlast⟩
    · exact h.removals before id found after heq
    · cases hlast

theorem remove (h : Kept r events) (id : Nat) :
    Kept (r.remove id).1 (events ++ [.removed id (r.remove id).2]) := by
  have hgiven : given (events ++ [.removed id (r.remove id).2]) = given events := by
    rw [given_concat]
    exact List.append_nil _
  refine ⟨?_, ?_, ?_, ?_⟩
  · rw [standing_concat, ← h.entries]
    exact (List.append_nil _).symm
  · rw [hgiven]
    exact h.next
  · rw [hgiven]
    exact h.numbers
  · intro before other found after heq
    rcases split_concat heq with ⟨after, heq⟩ | ⟨rfl, hlast⟩
    · exact h.removals before other found after heq
    · obtain ⟨rfl, rfl⟩ := Event.removed.inj hlast
      rw [← h.entries]
      exact remove_snd_iff

theorem other {e : Event α} (h : Kept r events) (hadded : e.added? = none)
    (hremoved : ∀ id, e.removes id = false) : Kept r (events ++ [e]) := by
  have hgiven : given (events ++ [e]) = given events := by
    rw [given_concat, hadded]
    exact List.append_nil _
  refine ⟨?_, ?_, ?_, ?_⟩
  · rw [standing_concat_other hadded hremoved]
    exact h.entries
  · rw [hgiven]
    exact h.next
  · rw [hgiven]
    exact h.numbers
  · intro before id found after heq
    rcases split_concat heq with ⟨after, heq⟩ | ⟨-, rfl⟩
    · exact h.removals before id found after heq
    · simpa [Event.removes] using hremoved id

end Kept

-- The latest notification has yet to call those who are due; the others have called theirs.
structure Told (count : Nat) (due : List (Nat × α)) (events : List (Event α)) : Prop where
  notified : events.filterMap Event.notified? = List.range count
  calls : ∀ before number after, events = before ++ .notified number :: after →
    callsOf number events ++ (if number + 1 = count then due else []) = standing before
  called : ∀ before number id a after, events = before ++ .called number id a :: after →
    .notified number ∈ before

namespace Told

variable {count number id : Nat} {due : List (Nat × α)} {a : α} {events : List (Event α)}

theorem new : Told 0 ([] : List (Nat × α)) [] where
  notified := rfl
  calls before _ _ heq := by simp at heq
  called before _ _ _ _ heq := by simp at heq

theorem notified_mem_iff (h : Told count due events) :
    .notified number ∈ events ↔ number < count := by
  rw [Registry.notified_mem_iff, h.notified, List.mem_range]

theorem callsOf_eq_nil (h : Told count due events) (hcount : count ≤ number) :
    callsOf number events = [] := by
  rw [callsOf, List.filterMap_eq_nil_iff]
  intro e he
  cases e with
  | called other id a =>
    obtain ⟨before, after, rfl⟩ := List.mem_iff_append.mp he
    have hbefore := h.called before other id a after rfl
    have hless : other < count := h.notified_mem_iff.mp (List.mem_append_left _ hbefore)
    exact if_neg (by omega)
  | added _ _ | removed _ _ | notified _ => rfl

theorem other {e : Event α} (h : Told count due events) (hnotified : e.notified? = none)
    (hcall : ∀ number, e.callOf? number = none) : Told count due (events ++ [e]) := by
  refine ⟨?_, ?_, ?_⟩
  · rw [List.filterMap_append, h.notified, List.filterMap_cons_none hnotified]
    exact List.append_nil _
  · intro before number after heq
    rw [callsOf_concat, hcall, Option.toList_none, List.append_nil]
    rcases split_concat heq with ⟨after, heq⟩ | ⟨-, rfl⟩
    · exact h.calls before number after heq
    · cases hnotified
  · intro before number id a after heq
    rcases split_concat heq with ⟨after, heq⟩ | ⟨-, rfl⟩
    · exact h.called before number id a after heq
    · simpa [Event.callOf?] using hcall number

-- Nobody is due when a notification begins, and then everyone who stands is.
theorem notify (h : Told count [] events) :
    Told (count + 1) (standing events) (events ++ [.notified count]) := by
  refine ⟨?_, ?_, ?_⟩
  · rw [List.filterMap_append, h.notified, List.range_succ]
    rfl
  · intro before number after heq
    rw [callsOf_concat]
    rcases split_concat heq with ⟨after, heq⟩ | ⟨rfl, hlast⟩
    · have hless : number < count := h.notified_mem_iff.mp (by simp [heq])
      have hcalls := h.calls before number after heq
      rw [ite_self, List.append_nil] at hcalls
      rw [if_neg (by omega), List.append_nil, hcalls]
      exact List.append_nil _
    · obtain rfl := Event.notified.inj hlast
      rw [if_pos rfl, h.callsOf_eq_nil (Nat.le_refl _)]
      rfl
  · intro before number id a after heq
    rcases split_concat heq with ⟨after, heq⟩ | ⟨-, hlast⟩
    · exact h.called before number id a after heq
    · cases hlast

theorem call (h : Told (number + 1) ((id, a) :: due) events) :
    Told (number + 1) due (events ++ [.called number id a]) := by
  refine ⟨?_, ?_, ?_⟩
  · rw [List.filterMap_append, h.notified]
    exact List.append_nil _
  · intro before other after heq
    rcases split_concat heq with ⟨after, heq⟩ | ⟨-, hlast⟩
    · rw [← h.calls before other after heq, callsOf_concat]
      by_cases hother : number = other
      · simp [Event.callOf?, hother]
      · simp [Event.callOf?, hother, Ne.symm hother]
    · cases hlast
  · intro before other id a after heq
    rcases split_concat heq with ⟨after, heq⟩ | ⟨rfl, hlast⟩
    · exact h.called before other id a after heq
    · obtain ⟨rfl, rfl, rfl⟩ := Event.called.inj hlast
      exact h.notified_mem_iff.mpr number.lt_succ_self

end Told

-- How matters stand while the latest notification has yet to call those who are due.
structure Diary.Sound (d : Diary α) (due : List (Nat × α)) : Prop where
  kept : Kept d.registry d.events
  told : Told d.notifications due d.events

namespace Diary

variable {d : Diary α} {due : List (Nat × α)}

theorem Sound.new : ({} : Diary α).Sound [] := ⟨.new, .new⟩

theorem notifications_change (d : Diary α) (c : Change α) :
    (d.change c).notifications = d.notifications := by
  cases c <;> rfl

theorem Sound.change (h : d.Sound due) (c : Change α) : (d.change c).Sound due := by
  cases c with
  | add a => exact ⟨h.kept.add a, h.told.other rfl fun _ => rfl⟩
  | remove id => exact ⟨h.kept.remove id, h.told.other rfl fun _ => rfl⟩

theorem Sound.changes (h : d.Sound due) (changes : List (Change α)) :
    (changes.foldl Diary.change d).Sound due ∧
      (changes.foldl Diary.change d).notifications = d.notifications := by
  induction changes generalizing d with
  | nil => exact ⟨h, rfl⟩
  | cons c changes ih =>
    obtain ⟨hsound, hsame⟩ := ih (h.change c)
    exact ⟨hsound, hsame.trans (d.notifications_change c)⟩

-- Whatever a listener does when it is called, those who are due after it remain so.
theorem Sound.calls (conduct : Conduct α) {number : Nat} (h : d.Sound due)
    (hnumber : d.notifications = number + 1) :
    (due.foldl (fun d entry => d.call conduct number entry.1 entry.2) d).Sound [] := by
  induction due generalizing d with
  | nil => exact h
  | cons entry due ih =>
    have hcalled : Sound { d with events := d.events ++ [.called number entry.1 entry.2] } due :=
      ⟨h.kept.other rfl fun _ => rfl, hnumber ▸ (hnumber ▸ h.told).call⟩
    obtain ⟨hsound, hsame⟩ := hcalled.changes (conduct entry.1 entry.2 d.registry)
    exact ih hsound (hsame.trans hnumber)

theorem Sound.notify (h : d.Sound []) (conduct : Conduct α) : (d.notify conduct).Sound [] := by
  have hbegun : Sound { d with
      events := d.events ++ [.notified d.notifications]
      notifications := d.notifications + 1 } d.registry.entries := by
    refine ⟨h.kept.other rfl fun _ => rfl, ?_⟩
    rw [h.kept.entries]
    exact h.told.notify
  exact hbegun.calls conduct rfl

theorem Sound.perform (h : d.Sound []) (o : Operation α) : (d.perform o).Sound [] := by
  cases o with
  | change c => exact h.change c
  | notify conduct => exact h.notify conduct

theorem Sound.run (h : d.Sound []) (operations : List (Operation α)) :
    (operations.foldl Diary.perform d).Sound [] := by
  induction operations generalizing d with
  | nil => exact h
  | cons o operations ih => exact ih (h.perform o)

theorem Sound.faithful (h : d.Sound []) : d.Faithful where
  registry := h.kept.entries
  numbers := h.kept.numbers
  words id hid id' hid' hsame := by
    rw [h.kept.numbers, List.mem_range'_1] at hid hid'
    unfold UInt64.size at hsame ⊢
    omega
  removals := h.kept.removals
  notifications := h.told.notified
  calls before number after heq := by
    have hcalls := h.told.calls before number after heq
    rwa [ite_self, List.append_nil] at hcalls
  called := h.told.called
  once number := by
    by_cases hnotified : Event.notified number ∈ d.events
    · obtain ⟨before, after, heq⟩ := List.mem_iff_append.mp hnotified
      have hcalls := h.told.calls before number after heq
      rw [ite_self, List.append_nil] at hcalls
      rw [hcalls]
      have hbefore : (before.filterMap Event.added?).Sublist (d.events.filterMap Event.added?) :=
        heq ▸ (List.sublist_append_left before _).filterMap Event.added?
      have hdistinct : (given d.events).Nodup := h.kept.numbers ▸ List.nodup_range'
      exact hdistinct.sublist (((standing_sublist before).trans hbefore).map Prod.fst)
    · rw [h.told.notified_mem_iff] at hnotified
      rw [h.told.callsOf_eq_nil (by omega)]
      exact List.nodup_nil

theorem faithful (operations : List (Operation α)) :
    (operations.foldl Diary.perform {}).Faithful := (Sound.new.run operations).faithful

end Diary

end ShellTranscript.Registry
