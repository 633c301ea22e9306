import Mathlib.Tactic.Common
import ShellTranscript.Proofs.Recorder.Listening

-- What hangs on the scope of the running block: a place among the listeners of the sampler, and a
-- router that was installed for the block. Both are there as long as the scope is open, and no
-- longer.
namespace ShellTranscript

-- Routers are installed and uninstalled in turns, and what is uninstalled is what was installed last.
-- The second argument is what is still installed.
inductive Routed : List JournalEntry → Option (Text × Nat) → Prop where
  | empty : Routed [] none
  | installed {journal : List JournalEntry} (router : Text) (block : Nat) : Routed journal none →
      Routed (journal ++ [.routerInstalled router block]) (some (router, block))
  | uninstalled {journal : List JournalEntry} {router : Text} {block : Nat} :
      Routed journal (some (router, block)) →
      Routed (journal ++ [.routerUninstalled router block]) none
  | ran {journal : List JournalEntry} {outstanding : Option (Text × Nat)} (label : Text) :
      Routed journal outstanding → Routed (journal ++ [.ran label]) outstanding

theorem Routed.append_ran {journal : List JournalEntry} {outstanding : Option (Text × Nat)}
    (h : Routed journal outstanding) (labels : List Text) :
    Routed (journal ++ labels.map .ran) outstanding := by
  induction labels generalizing journal with
  | nil => simpa using h
  | cons label labels ih => simpa using ih (h.ran label)

namespace Desk

-- What closing a scope does to which these notes were added: they run first, and then the scope lets
-- go of what it was opened with.
def teardown (labels : List Text) (router : Option (Text × Nat)) (id : Nat) : List ScopeEffect :=
  labels.map .note ++ (router.map fun (router, block) => .uninstallRouter router block).toList ++
    [.stopListening id]

structure Unplugged (d : Desk) : Prop where
  closed : ∀ s ∈ d.recorder.scopes, s.isClosed = true
  silent : d.stage.sampler.listeners.entries = []
  routed : Routed d.recorder.journal none

-- The newest scope is open, and holds a place among the listeners and perhaps a router.
structure Holds (d : Desk) (earlier : List (Scope ScopeEffect)) (labels : List Text)
    (router : Option (Text × Nat)) (id : Nat) : Prop where
  scopes : d.recorder.scopes = earlier ++ [{ pending := (teardown labels router id).map .once }]
  closed : ∀ s ∈ earlier, s.isClosed = true
  heard : d.stage.sampler.listeners.entries = [(id, .recorder)]
  routed : Routed d.recorder.journal router

def Plugged (d : Desk) : Prop := ∃ earlier labels router id,
  d.Holds earlier labels router id ∧ d.recorder.scope = some earlier.length

def Wired (d : Desk) : Prop := d.Unplugged ∨ d.Plugged

structure SameWires (d d' : Desk) : Prop where
  listeners : d'.stage.sampler.listeners = d.stage.sampler.listeners
  scopes : d'.recorder.scopes = d.recorder.scopes
  scope : d'.recorder.scope = d.recorder.scope
  journal : d'.recorder.journal = d.recorder.journal

section Wires

variable {d d' : Desk} {earlier : List (Scope ScopeEffect)} {labels : List Text}
  {router : Option (Text × Nat)} {id : Nat}

theorem Unplugged.of_sameWires (h : d.Unplugged) (hsame : d.SameWires d') : d'.Unplugged := by
  refine ⟨?_, ?_, ?_⟩
  · rw [hsame.scopes]
    exact h.closed
  · rw [hsame.listeners]
    exact h.silent
  · rw [hsame.journal]
    exact h.routed

theorem Plugged.of_sameWires (h : d.Plugged) (hsame : d.SameWires d') : d'.Plugged := by
  obtain ⟨earlier, labels, router, id, h, hscope⟩ := h
  refine ⟨earlier, labels, router, id, ⟨hsame.scopes.trans h.scopes, h.closed, ?_, ?_⟩,
    hsame.scope.trans hscope⟩
  · rw [hsame.listeners]
    exact h.heard
  · rw [hsame.journal]
    exact h.routed

theorem closeScope_of_closed {index : Nat}
    (h : ∀ s, d.recorder.scopes[index]? = some s → s.isClosed = true) : d.closeScope index = d := by
  cases hs : d.recorder.scopes[index]? with
  | none => exact withScope_none hs
  | some s =>
    have hclose := Scope.close_of_isClosed (h s hs)
    obtain ⟨hlt, hget⟩ := List.getElem?_eq_some_iff.mp hs
    rw [closeScope, withScope_silent hs (by rw [hclose]), hclose, ← hget]
    simp only [modifyRecorder, List.set_getElem_self]

theorem Unplugged.closeScope (h : d.Unplugged) (index : Nat) : d.closeScope index = d :=
  closeScope_of_closed fun s hs => h.closed s (List.mem_of_getElem? hs)

theorem foldl_notes (d : Desk) (labels : List Text) :
    (labels.map ScopeEffect.note).foldl performEffect d =
      d.modifyRecorder fun r => { r with journal := r.journal ++ labels.map .ran } := by
  induction labels generalizing d with
  | nil => simp [modifyRecorder]
  | cons label labels ih =>
    rw [List.map_cons, List.foldl_cons, ih]
    simp [performEffect, note, modifyRecorder]

theorem Holds.getElem?_length (h : d.Holds earlier labels router id) :
    d.recorder.scopes[earlier.length]? =
      some { pending := (teardown labels router id).map .once } := by
  rw [h.scopes, List.getElem?_concat_length]

theorem Holds.set_length (h : d.Holds earlier labels router id) (s : Scope ScopeEffect) :
    d.recorder.scopes.set earlier.length s = earlier ++ [s] := by
  rw [h.scopes, List.set_append_right _ _ (Nat.le_refl _), Nat.sub_self]
  rfl

-- Whoever closes the open scope, nothing is left of it.
theorem Holds.closeScope (h : d.Holds earlier labels router id) :
    (d.closeScope earlier.length).Unplugged := by
  have hs := h.getElem?_length
  have hclosed : ∀ s ∈ d.recorder.scopes.set earlier.length { isClosed := true },
      s.isClosed = true := by
    intro s hs
    rw [h.set_length] at hs
    rcases List.mem_append.mp hs with hs | hs
    · exact h.closed s hs
    · rw [List.mem_singleton.mp hs]
  have hsilent : (d.stage.sampler.listeners.remove id).1.entries = [] := by
    simp only [Registry.remove, h.heard, List.filter_cons, bne_self_eq_false, Bool.false_eq_true,
      if_false, List.filter_nil]
  have hrouted := h.routed.append_ran labels
  simp only [Desk.closeScope, withScope, hs, Scope.close_once, teardown, List.foldl_append,
    foldl_notes]
  cases router with
  | none => exact ⟨hclosed, hsilent, hrouted⟩
  | some router => exact ⟨hclosed, hsilent, hrouted.uninstalled⟩

-- Closing the current scope leaves nothing open, whether it was open or not.
theorem Wired.closeCurrentScope (h : d.Wired) : d.closeCurrentScope.Unplugged := by
  unfold Desk.closeCurrentScope
  rcases h with h | ⟨earlier, labels, router, id, h, hscope⟩
  · split
    · exact h
    · have hlost : (d.modifyRecorder fun r => { r with scope := none }).Unplugged :=
        ⟨h.closed, h.silent, h.routed⟩
      rw [hlost.closeScope]
      exact hlost
  · have hlost : (d.modifyRecorder fun r => { r with scope := none }).Holds earlier labels router id :=
      ⟨h.scopes, h.closed, h.heard, h.routed⟩
    rw [hscope]
    exact hlost.closeScope

-- Closing any other scope does nothing.
theorem Wired.closeScope (h : d.Wired) (index : Nat) :
    (d.closeScope index).Unplugged ∨ d.closeScope index = d := by
  rcases h with h | ⟨earlier, labels, router, id, h, hscope⟩
  · exact .inr (h.closeScope index)
  · by_cases hindex : index = earlier.length
    · subst hindex
      exact .inl h.closeScope
    · refine .inr (closeScope_of_closed fun s hs => ?_)
      have hlt := (List.getElem?_eq_some_iff.mp hs).1
      rw [h.scopes, List.length_append, List.length_singleton] at hlt
      rw [h.scopes, List.getElem?_append_left (by omega)] at hs
      exact h.closed s (List.mem_of_getElem? hs)

theorem Holds.register_router (h : d.Holds earlier [] none id) (text : Text) (block : Nat) :
    ((d.note (.routerInstalled text block)).withScope earlier.length fun s =>
      s.register (.once (.uninstallRouter text block))).Holds earlier [] (some (text, block)) id := by
  have hs : (d.note (.routerInstalled text block)).recorder.scopes[earlier.length]? = some _ :=
    h.getElem?_length
  rw [withScope_register hs rfl]
  exact ⟨h.set_length _, h.closed, h.heard, h.routed.installed text block⟩

theorem Unplugged.openScope (h : d.closeCurrentScope.Unplugged) (block : Nat) :
    (d.openScope block).Plugged := by
  suffices hholds : ∃ router id, (d.openScope block).Holds d.closeCurrentScope.recorder.scopes []
      router id by
    obtain ⟨router, id, hholds⟩ := hholds
    exact ⟨_, _, _, _, hholds, (d.openedOn_openScope block).scope⟩
  generalize hclosed : d.closeCurrentScope = c at h ⊢
  simp only [Desk.openScope, hclosed]
  have hlistening : ((({ c with stage := { c.stage with sampler := { c.stage.sampler with
      listeners := (c.stage.sampler.listeners.add .recorder).1 } } } : Desk).modifyRecorder fun r =>
        { r with
          scopes := r.scopes ++ [({} : Scope ScopeEffect)]
          scope := some c.recorder.scopes.length }).withScope c.recorder.scopes.length fun s =>
            s.register (.once (.stopListening (c.stage.sampler.listeners.add .recorder).2))).Holds
      c.recorder.scopes [] none (c.stage.sampler.listeners.add .recorder).2 := by
    rw [withScope_register (s := {}) (List.getElem?_concat_length ..) rfl]
    refine ⟨?_, h.closed, ?_, h.routed⟩
    · show (c.recorder.scopes ++ [_]).set _ _ = _
      rw [List.set_append_right _ _ (Nat.le_refl _), Nat.sub_self]
      rfl
    · show c.stage.sampler.listeners.entries ++ [_] = _
      rw [h.silent]
      rfl
  split
  · exact ⟨_, _, hlistening⟩
  · rename_i router _
    exact ⟨_, _, hlistening.register_router router block⟩

theorem Unplugged.deferNote (h : d.Unplugged) (label : Text) : (d.deferNote label).1.Unplugged := by
  unfold Desk.deferNote
  split
  · exact h
  · rename_i index _
    cases hs : d.recorder.scopes[index]? with
    | none =>
      rw [withScope_none hs]
      exact h
    | some s =>
      rw [withScope_register_closed hs (h.closed s (List.mem_of_getElem? hs))]
      exact ⟨h.closed, h.silent, h.routed.ran label⟩

theorem Plugged.deferNote (h : d.Plugged) (label : Text) : (d.deferNote label).1.Plugged := by
  obtain ⟨earlier, labels, router, id, h, hscope⟩ := h
  refine ⟨earlier, label :: labels, router, id, ?_⟩
  simp only [Desk.deferNote, hscope]
  rw [withScope_register h.getElem?_length rfl]
  exact ⟨⟨h.set_length _, h.closed, h.heard, h.routed⟩, hscope⟩

end Wires

end Desk

end ShellTranscript
