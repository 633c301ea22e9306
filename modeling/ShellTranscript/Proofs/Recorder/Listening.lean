import Mathlib.Tactic.Common
import ShellTranscript.Proofs.Recorder.Backstage
import ShellTranscript.Proofs.Recorder.Run
import ShellTranscript.Proofs.Scope.Runs

-- Who listens to the sampler. Only the current scope can be open, and as long as it is, the recorder
-- is among the listeners. Whatever a recorder is told, it leaves its scope alone, closes it, or opens
-- a new one.
namespace ShellTranscript

namespace Desk

-- The running block's scope is there and open.
def Listens (d : Desk) : Prop :=
  ∃ index s, d.recorder.scope = some index ∧ d.recorder.scopes[index]? = some s ∧ s.isClosed = false

theorem listens_iff (d : Desk) : (∃ s ∈ d.recorder.scope.bind fun index => d.recorder.scopes[index]?,
    s.isClosed = false) ↔ d.Listens := by
  constructor
  · rintro ⟨s, hs, hopen⟩
    obtain ⟨index, hscope, hindex⟩ := Option.bind_eq_some_iff.mp hs
    exact ⟨index, s, hscope, hindex, hopen⟩
  · rintro ⟨index, s, hscope, hindex, hopen⟩
    exact ⟨s, Option.bind_eq_some_iff.mpr ⟨index, hscope, hindex⟩, hopen⟩

instance (d : Desk) : Decidable d.Listens := decidable_of_iff _ d.listens_iff

-- Only the current scope may be open, and then the recorder is among the listeners.
structure Scoped (d : Desk) : Prop where
  current : ∀ index s, d.recorder.scopes[index]? = some s → s.isClosed = false →
    d.recorder.scope = some index
  heard : d.Listens → d.stage.sampler.listeners.members ≠ []

-- Listeners, scopes and mail are untouched.
structure SameWings (d d' : Desk) : Prop where
  sampler : d'.stage.sampler = d.stage.sampler
  mailbox : d'.stage.mailbox = d.stage.mailbox
  scopes : d'.recorder.scopes = d.recorder.scopes
  scope : d'.recorder.scope = d.recorder.scope

-- The document, the blocks and what the recorder takes snapshots for are untouched.
structure SameShow (d d' : Desk) : Prop where
  transcript : d'.recorder.transcript = d.recorder.transcript
  state : d'.recorder.state = d.recorder.state
  epoch : d'.recorder.epoch = d.recorder.epoch
  disposed : d'.recorder.viewport.disposed = d.recorder.viewport.disposed

theorem SameShow.refl (d : Desk) : d.SameShow d := ⟨rfl, rfl, rfl, rfl⟩

theorem Backstage.sameShow {d d' : Desk} (h : d.Backstage d') : d.SameShow d' :=
  ⟨h.transcript, h.state, h.epoch, congrArg Viewport.disposed h.viewport⟩

section Scopes

variable {d d' d'' : Desk}

theorem SameWings.refl (d : Desk) : d.SameWings d := ⟨rfl, rfl, rfl, rfl⟩

theorem SameWings.trans (h : d.SameWings d') (h' : d'.SameWings d'') : d.SameWings d'' :=
  ⟨h'.sampler.trans h.sampler, h'.mailbox.trans h.mailbox, h'.scopes.trans h.scopes,
    h'.scope.trans h.scope⟩

theorem SameWings.listens (h : d.SameWings d') (hlistens : d'.Listens) : d.Listens := by
  obtain ⟨index, s, hscope, hs, hopen⟩ := hlistens
  exact ⟨index, s, h.scope ▸ hscope, h.scopes ▸ hs, hopen⟩

theorem Scoped.of_wings (hscoped : d.Scoped) (h : d.SameWings d') : d'.Scoped := by
  refine ⟨fun index s hs hopen => ?_, fun hlistens => ?_⟩
  · rw [h.scope]
    exact hscoped.current index s (h.scopes ▸ hs) hopen
  · rw [h.sampler]
    exact hscoped.heard (h.listens hlistens)

theorem recorder_foldl (d : Desk) (effects : List ScopeEffect) :
    (effects.foldl performEffect d).recorder.scopes = d.recorder.scopes ∧
      (effects.foldl performEffect d).recorder.scope = d.recorder.scope := by
  induction effects generalizing d with
  | nil => exact ⟨rfl, rfl⟩
  | cons e effects ih =>
    obtain ⟨hscopes, hscope⟩ := ih (d.performEffect e)
    cases e <;> exact ⟨hscopes, hscope⟩

variable {index : Nat} {s : Scope ScopeEffect}
  {change : Scope ScopeEffect → Scope ScopeEffect × List ScopeEffect}

theorem recorder_withScope (hs : d.recorder.scopes[index]? = some s) :
    (d.withScope index change).recorder.scopes = d.recorder.scopes.set index (change s).1 ∧
      (d.withScope index change).recorder.scope = d.recorder.scope := by
  simp only [withScope, hs]
  exact recorder_foldl _ _

theorem withScope_silent (hs : d.recorder.scopes[index]? = some s) (hsilent : (change s).2 = []) :
    d.withScope index change =
      d.modifyRecorder fun r => { r with scopes := r.scopes.set index (change s).1 } := by
  simp only [withScope, hs, hsilent]
  rfl

theorem withScope_none (hs : d.recorder.scopes[index]? = none) :
    d.withScope index change = d := by
  simp only [withScope, hs]

-- A scope that is open after one was closed is another one and was open before.
theorem open_of_closeScope {other : Nat} {s' : Scope ScopeEffect}
    (hs' : (d.closeScope index).recorder.scopes[other]? = some s') (hopen : s'.isClosed = false) :
    other ≠ index ∧ d.recorder.scopes[other]? = some s' := by
  cases hs : d.recorder.scopes[index]? with
  | none =>
    rw [closeScope, withScope_none hs] at hs'
    refine ⟨?_, hs'⟩
    rintro rfl
    rw [hs] at hs'
    cases hs'
  | some s =>
    rw [closeScope, (recorder_withScope hs).1, List.getElem?_set] at hs'
    split at hs'
    · split at hs'
      · obtain rfl := Option.some.inj hs'
        rw [s.isClosed_close] at hopen
        cases hopen
      · cases hs'
    · rename_i hne
      exact ⟨fun heq => hne heq.symm, hs'⟩

theorem scope_closeScope (d : Desk) (index : Nat) :
    (d.closeScope index).recorder.scope = d.recorder.scope := by
  cases hs : d.recorder.scopes[index]? with
  | none => rw [closeScope, withScope_none hs]
  | some s => exact (recorder_withScope hs).2

theorem length_closeScope (d : Desk) (index : Nat) :
    (d.closeScope index).recorder.scopes.length = d.recorder.scopes.length := by
  cases hs : d.recorder.scopes[index]? with
  | none => rw [closeScope, withScope_none hs]
  | some s => rw [closeScope, (recorder_withScope hs).1, List.length_set]

theorem listens_of_closeScope (h : (d.closeScope index).Listens) : d.Listens := by
  obtain ⟨current, s, hscope, hs, hopen⟩ := h
  rw [scope_closeScope] at hscope
  exact ⟨current, s, hscope, (open_of_closeScope hs hopen).2, hopen⟩

-- Closing a scope that is closed already stops nobody from listening.
theorem Scoped.closeScope (h : d.Scoped) (index : Nat) : (d.closeScope index).Scoped := by
  refine ⟨fun other s hs hopen => ?_, fun hlistens => ?_⟩
  · rw [scope_closeScope]
    exact h.current other s (open_of_closeScope hs hopen).2 hopen
  · obtain ⟨current, s, hscope, hs, hopen⟩ := hlistens
    rw [scope_closeScope] at hscope
    obtain ⟨hne, hbefore⟩ := open_of_closeScope hs hopen
    have hheard := h.heard ⟨current, s, hscope, hbefore, hopen⟩
    cases hother : d.recorder.scopes[index]? with
    | none =>
      rw [Desk.closeScope, withScope_none hother]
      exact hheard
    | some other =>
      have hclosed : other.isClosed = true := by
        refine Bool.of_not_eq_false fun hstill => hne ?_
        exact Option.some.inj (hscope.symm.trans (h.current index other hother hstill))
      rw [Desk.closeScope, withScope_silent hother (by rw [Scope.close_of_isClosed hclosed])]
      exact hheard

-- Then no scope is open, and none is the current one.
theorem Scoped.all_closed (h : d.Scoped) : d.closeCurrentScope.recorder.scope = none ∧
    ∀ s ∈ d.closeCurrentScope.recorder.scopes, s.isClosed = true := by
  unfold closeCurrentScope
  split
  · rename_i hscope
    refine ⟨hscope, fun s hs => Bool.of_not_eq_false fun hopen => ?_⟩
    obtain ⟨index, hindex⟩ := List.getElem?_of_mem hs
    have hcurrent := h.current index s hindex hopen
    rw [hscope] at hcurrent
    cases hcurrent
  · rename_i index hscope
    refine ⟨scope_closeScope _ _, fun s hs => Bool.of_not_eq_false fun hopen => ?_⟩
    obtain ⟨other, hother⟩ := List.getElem?_of_mem hs
    obtain ⟨hne, hbefore⟩ := open_of_closeScope hother hopen
    have hcurrent := h.current other s hbefore hopen
    rw [hscope] at hcurrent
    exact hne (Option.some.inj hcurrent).symm

theorem length_closeCurrentScope (d : Desk) :
    d.closeCurrentScope.recorder.scopes.length = d.recorder.scopes.length := by
  unfold closeCurrentScope
  split
  · rfl
  · exact length_closeScope _ _

theorem not_listens_of_none (h : d.recorder.scope = none) : ¬d.Listens := by
  rintro ⟨index, s, hscope, -⟩
  rw [h] at hscope
  cases hscope

-- Registering something with an open scope leaves it open.
theorem withScope_register (hs : d.recorder.scopes[index]? = some s) (hopen : s.isClosed = false)
    (e : ScopeEffect) : d.withScope index (fun s => s.register (.once e)) =
      d.modifyRecorder fun r => { r with
        scopes := r.scopes.set index { s with pending := .once e :: s.pending } } := by
  have hregister := Scope.register_of_isOpen hopen (.once e)
  rw [withScope_silent hs (by rw [hregister]), hregister]

-- Something registered with a closed scope happens at once.
theorem withScope_register_closed (hs : d.recorder.scopes[index]? = some s)
    (hclosed : s.isClosed = true) (e : ScopeEffect) :
    d.withScope index (fun s => s.register (.once e)) = d.performEffect e := by
  have hregister := Scope.register_of_isClosed hclosed e
  obtain ⟨hlt, hget⟩ := List.getElem?_eq_some_iff.mp hs
  have hscopes : d.recorder.scopes.set index s = d.recorder.scopes := by
    rw [← hget, List.set_getElem_self]
  simp only [withScope, hs, hregister, List.foldl_cons, List.foldl_nil, modifyRecorder, hscopes]

-- A new scope stands at the end, is open and the current one, and the recorder listens.
structure OpenedOn (c d : Desk) : Prop where
  scopes : ∃ s : Scope ScopeEffect, s.isClosed = false ∧
    d.recorder.scopes = c.recorder.scopes ++ [s]
  scope : d.recorder.scope = some c.recorder.scopes.length
  listeners : d.stage.sampler.listeners = (c.stage.sampler.listeners.add .recorder).1

theorem OpenedOn.register {c : Desk} (h : c.OpenedOn d) (e : ScopeEffect) :
    c.OpenedOn (d.withScope c.recorder.scopes.length fun s => s.register (.once e)) := by
  obtain ⟨s, hopen, hscopes⟩ := h.scopes
  have hlast : d.recorder.scopes[c.recorder.scopes.length]? = some s := by
    rw [hscopes, List.getElem?_concat_length]
  rw [withScope_register hlast hopen]
  refine ⟨⟨{ s with pending := .once e :: s.pending }, hopen, ?_⟩, h.scope, h.listeners⟩
  show d.recorder.scopes.set _ _ = _
  rw [hscopes, List.set_append_right _ _ (Nat.le_refl _), Nat.sub_self]
  rfl

theorem openedOn_openScope (d : Desk) (block : Nat) :
    d.closeCurrentScope.OpenedOn (d.openScope block) := by
  generalize hclosed : d.closeCurrentScope = c
  simp only [openScope, hclosed]
  have hnew : c.OpenedOn (({ c with stage := { c.stage with sampler := { c.stage.sampler with
      listeners := (c.stage.sampler.listeners.add .recorder).1 } } } : Desk).modifyRecorder fun r =>
        { r with
          scopes := r.scopes ++ [({} : Scope ScopeEffect)]
          scope := some c.recorder.scopes.length }) := ⟨⟨{}, rfl, rfl⟩, rfl, rfl⟩
  have hlistening := hnew.register (.stopListening (c.stage.sampler.listeners.add .recorder).2)
  split
  · exact hlistening
  · rename_i router _
    have hnoted : c.OpenedOn (note _ (.routerInstalled router block)) :=
      ⟨hlistening.scopes, hlistening.scope, hlistening.listeners⟩
    exact hnoted.register (.uninstallRouter router block)

theorem Scoped.openScope (h : d.Scoped) (block : Nat) : (d.openScope block).Scoped := by
  have hopened := d.openedOn_openScope block
  obtain ⟨s, -, hscopes⟩ := hopened.scopes
  refine ⟨fun index s' hs' hopen => ?_, fun _ => ?_⟩
  · rw [hscopes] at hs'
    rcases Nat.lt_trichotomy index d.closeCurrentScope.recorder.scopes.length with hlt | rfl | hgt
    · rw [List.getElem?_append_left hlt] at hs'
      rw [h.all_closed.2 s' (List.mem_of_getElem? hs')] at hopen
      cases hopen
    · exact hopened.scope
    · rw [List.getElem?_eq_none (by rw [List.length_append]; exact hgt)] at hs'
      cases hs'
  · rw [hopened.listeners]
    simp [Registry.members, Registry.add]

theorem length_openScope (d : Desk) (block : Nat) :
    (d.openScope block).recorder.scopes.length = d.recorder.scopes.length + 1 := by
  obtain ⟨s, -, hscopes⟩ := (d.openedOn_openScope block).scopes
  rw [hscopes, List.length_append, length_closeCurrentScope]
  rfl

-- Registering a note with the current scope is no change for those who listen.
theorem Scoped.deferNote (h : d.Scoped) (label : Text) :
    (d.deferNote label).1.Scoped ∧ ((d.deferNote label).1.Listens → d.Listens) ∧
      (d.deferNote label).1.recorder.scopes.length = d.recorder.scopes.length := by
  have hsame : ∀ d', d.SameWings d' → d'.Scoped ∧ (d'.Listens → d.Listens) ∧
      d'.recorder.scopes.length = d.recorder.scopes.length := fun d' hwings =>
    ⟨h.of_wings hwings, hwings.listens, congrArg List.length hwings.scopes⟩
  unfold Desk.deferNote
  split
  · exact hsame d (.refl d)
  · rename_i index hscope
    dsimp only
    cases hs : d.recorder.scopes[index]? with
    | none =>
      rw [withScope_none hs]
      exact hsame d (.refl d)
    | some s =>
      cases hopen : s.isClosed with
      | false =>
        have hlistens : d.Listens := ⟨index, s, hscope, hs, hopen⟩
        rw [withScope_register hs hopen]
        refine ⟨⟨fun other s' hs' hopen' => ?_, fun _ => h.heard hlistens⟩, fun _ => hlistens,
          List.length_set⟩
        have hs'' : (d.recorder.scopes.set index _)[other]? = some s' := hs'
        rw [List.getElem?_set] at hs''
        split at hs''
        · rename_i heq
          exact heq ▸ hscope
        · exact h.current other s' hs'' hopen'
      | true =>
        rw [withScope_register_closed hs hopen]
        exact hsame _ ⟨rfl, rfl, rfl, rfl⟩

-- What a call makes of the scope. Where it leaves it alone and a command still runs, it leaves the
-- record alone.
inductive Turns (d : Desk) : Desk → Prop where
  | stays {d' : Desk} (wings : d.SameWings d')
      (record : d'.recorder.state = .running → d.SameShow d') : d.Turns d'
  | closes {d' : Desk} (wings : d.closeCurrentScope.SameWings d') : d.Turns d'
  | opens {d₁ d' : Desk} {block : Nat} (first : d.SameWings d₁ ∨ d.closeCurrentScope.SameWings d₁)
      (wings : (d₁.openScope block).SameWings d') : d.Turns d'

theorem Turns.same (d : Desk) : d.Turns d := .stays (.refl d) fun _ => .refl d

theorem Turns.mail (h : d.Turns d') : d'.stage.mailbox = d.stage.mailbox ∧
    d'.stage.sampler.lastSent = d.stage.sampler.lastSent := by
  have hclosed := backstage_closeCurrentScope d
  cases h with
  | stays hwings => exact ⟨hwings.mailbox, congrArg Sampler.lastSent hwings.sampler⟩
  | closes hwings =>
    exact ⟨hwings.mailbox.trans hclosed.mailbox,
      (congrArg Sampler.lastSent hwings.sampler).trans hclosed.lastSent⟩
  | @opens d₁ _ block hfirst hwings =>
    have hopened := backstage_openScope d₁ block
    have hmailbox := hwings.mailbox.trans hopened.mailbox
    have hsent := (congrArg Sampler.lastSent hwings.sampler).trans hopened.lastSent
    rcases hfirst with hfirst | hfirst
    · exact ⟨hmailbox.trans hfirst.mailbox,
        hsent.trans (congrArg Sampler.lastSent hfirst.sampler)⟩
    · exact ⟨(hmailbox.trans hfirst.mailbox).trans hclosed.mailbox,
        (hsent.trans (congrArg Sampler.lastSent hfirst.sampler)).trans hclosed.lastSent⟩

theorem Scoped.closeCurrentScope (h : d.Scoped) : d.closeCurrentScope.Scoped := by
  obtain ⟨hscope, hclosed⟩ := h.all_closed
  refine ⟨fun index s hs hopen => ?_, fun hlistens => absurd hlistens (not_listens_of_none hscope)⟩
  rw [hclosed s (List.mem_of_getElem? hs)] at hopen
  cases hopen

theorem Turns.scoped (h : d.Turns d') (hscoped : d.Scoped) : d'.Scoped := by
  cases h with
  | stays hwings => exact hscoped.of_wings hwings
  | closes hwings => exact hscoped.closeCurrentScope.of_wings hwings
  | opens hfirst hwings =>
    refine Scoped.of_wings (Scoped.openScope ?_ _) hwings
    rcases hfirst with hfirst | hfirst
    · exact hscoped.of_wings hfirst
    · exact hscoped.closeCurrentScope.of_wings hfirst

-- A recorder that listens after a call has just begun to, or the call did nothing.
theorem Turns.listening (h : d.Turns d') (hscoped : d.Scoped) (hlistens : d'.Listens)
    (hrunning : d'.recorder.state = .running) :
    d.recorder.scopes.length < d'.recorder.scopes.length ∨
      d.SameWings d' ∧ d.SameShow d' := by
  cases h with
  | stays hwings hshow => exact .inr ⟨hwings, hshow hrunning⟩
  | closes hwings =>
    have hscope := hwings.scope.trans hscoped.all_closed.1
    exact absurd hlistens (not_listens_of_none hscope)
  | @opens d₁ _ block hfirst hwings =>
    have hlength := congrArg List.length hwings.scopes
    rw [length_openScope] at hlength
    have hbefore : d₁.recorder.scopes.length = d.recorder.scopes.length := by
      rcases hfirst with hfirst | hfirst
      · exact congrArg List.length hfirst.scopes
      · exact (congrArg List.length hfirst.scopes).trans (length_closeCurrentScope d)
    exact .inl (by omega)

theorem scope_closeCurrentScope (d : Desk) : d.closeCurrentScope.recorder.scope = none := by
  unfold closeCurrentScope
  split
  · assumption
  · exact scope_closeScope _ _

theorem closeCurrentScope_of_none (h : d.recorder.scope = none) : d.closeCurrentScope = d := by
  unfold closeCurrentScope
  rw [h]

theorem sameWings_applyOutput (d : Desk) (output : Snapshot) :
    d.SameWings (d.applyOutput output).state := by
  rcases applyOutput_cases d output with hsame | ⟨t, caret, hwritten⟩
  · rw [hsame]
    exact .refl d
  · rw [hwritten]
    exact ⟨rfl, rfl, rfl, rfl⟩

theorem startBlock_cases (d : Desk) (command prompt : Option Text) (epoch : Nat) :
    (d.startBlock command prompt epoch).state = d ∨ ∃ d₁ block, d.SameWings d₁ ∧
      (d₁.openScope block).SameWings (d.startBlock command prompt epoch).state := by
  unfold startBlock
  split
  · exact .inl rfl
  · rename_i id t _
    let written := (d.withTranscript t).modifyRecorder fun r =>
      { r with state := .running, epoch := some epoch }
    exact .inr ⟨written.showCaret (written.stopOf id), id, ⟨rfl, rfl, rfl, rfl⟩,
      sameWings_applyOutput _ _⟩

theorem sameWings_finishBlock (d : Desk) (exitCode : Int) (output : Option Snapshot) :
    d.closeCurrentScope.SameWings (d.finishBlock exitCode output).state := by
  refine Outcome.state_andThen ?_ fun d' h => h.trans ?_
  · split
    · exact sameWings_applyOutput _ _
    · exact .refl _
  · split
    · exact ⟨rfl, rfl, rfl, rfl⟩
    · dsimp only
      split <;> exact ⟨rfl, rfl, rfl, rfl⟩

theorem turns_startBlock (d : Desk) (command prompt : Option Text) (epoch : Nat) :
    d.Turns (d.startBlock command prompt epoch).state := by
  rcases startBlock_cases d command prompt epoch with hsame | ⟨d₁, block, hfirst, hwings⟩
  · rw [hsame]
    exact .same d
  · exact .opens (.inl hfirst) hwings

theorem turns_startCommand (d : Desk) (command prompt : Option Text) :
    d.Turns (d.startCommand command prompt).state := by
  unfold startCommand
  split
  · exact .same d
  · refine Outcome.state_restoring (.same d) ?_
    rcases startBlock_cases { d with stage := { d.stage with terminal := d.stage.terminal.clearAll } }
      command prompt d.stage.terminal.clearAll.epoch with hsame | ⟨d₁, block, hfirst, hwings⟩
    · rw [hsame]
      exact .stays ⟨rfl, rfl, rfl, rfl⟩ fun _ => ⟨rfl, rfl, rfl, rfl⟩
    · exact .opens (.inl ⟨hfirst.sampler, hfirst.mailbox, hfirst.scopes, hfirst.scope⟩) hwings

theorem turns_finishCommand (d : Desk) (exitCode : Int) :
    d.Turns (d.finishCommand exitCode).state := by
  refine Outcome.state_restoring (.same d) (.closes ?_)
  have hwings := sameWings_finishBlock d.closeCurrentScope exitCode
    (some d.closeCurrentScope.stage.terminal.snapshot)
  rwa [closeCurrentScope_of_none (scope_closeCurrentScope d)] at hwings

theorem turns_changeAlternate (d : Desk) (enabled : Bool) :
    d.Turns (d.changeAlternate enabled).state := by
  unfold changeAlternate
  split
  · exact .closes ⟨rfl, rfl, rfl, rfl⟩
  · split
    · exact .stays ⟨rfl, rfl, rfl, rfl⟩ fun hrunning => by cases hrunning
    · rename_i id _
      have hrunning : (d.openScope id).SameWings ((d.openScope id).modifyRecorder fun r =>
          { r with state := .running }) := ⟨rfl, rfl, rfl, rfl⟩
      exact .opens (.inl (.refl d)) (hrunning.trans (sameWings_applyOutput _ _))
  · exact .same d

-- Only a snapshot is nothing that a scope hears of.
theorem turns_handle (d : Desk) {e : Event} (he : ∀ output, e ≠ .outputChanged output) :
    d.Turns (d.handle e).state := by
  refine Outcome.state_restoring (.same d) ?_
  cases e with
  | outputChanged output => exact absurd rfl (he output)
  | commandStarted command prompt epoch =>
    simp only [handleEvent]
    split
    · exact turns_startBlock d command prompt epoch
    · have hfinished := sameWings_finishBlock d 0 none
      cases hfinish : d.finishBlock 0 none with
      | refused reason d₁ =>
        rw [hfinish] at hfinished
        exact .closes hfinished
      | done d₁ =>
        rw [hfinish] at hfinished
        simp only [Outcome.andThen]
        rcases startBlock_cases d₁ command prompt epoch with hsame | ⟨d₂, block, hfirst, hwings⟩
        · rw [hsame]
          exact .closes hfinished
        · exact .opens (.inr (hfinished.trans hfirst)) hwings
  | commandFinished exitCode output =>
    simp only [handleEvent]
    split
    · exact .same d
    · exact .closes (sameWings_finishBlock d exitCode (some output))
  | cleared => exact .closes ⟨rfl, rfl, rfl, rfl⟩
  | alternateChanged enabled => exact turns_changeAlternate d enabled
  | terminated => exact .closes ⟨rfl, rfl, rfl, rfl⟩
  | disposed => exact .closes ⟨rfl, rfl, rfl, rfl⟩

theorem turns_runTask (d : Desk) {task : Task}
    (htask : ∀ output, task ≠ .event (.outputChanged output)) : d.Turns (d.runTask task) := by
  cases task with
  | event e => exact turns_handle d fun output heq => htask output (heq ▸ rfl)
  | invoke label =>
    exact .stays ⟨rfl, rfl, rfl, rfl⟩ fun _ => (backstage_note d (.ran label)).sameShow

-- A snapshot changes what is shown alone.
theorem sameWings_snapshot (d : Desk) (output : Snapshot) :
    d.SameWings (d.handle (.outputChanged output)).state := by
  have hevent : d.SameWings (d.handleEvent (.outputChanged output)).state := by
    simp only [handleEvent]
    split
    · exact sameWings_applyOutput d output
    · exact .refl d
  exact Outcome.state_restoring (.refl d) hevent

theorem turns_call (d : Desk) {c : Call} (hc : ∀ output, c ≠ .handle (.outputChanged output)) :
    d.Turns (c.run d).state := by
  cases c with
  | startCommand command prompt => exact turns_startCommand d command prompt
  | finishCommand exitCode => exact turns_finishCommand d exitCode
  | insertEmptyLine => exact .closes ⟨rfl, rfl, rfl, rfl⟩
  | changeAlternate enabled => exact turns_changeAlternate d enabled
  | clearBlocks => exact .closes ⟨rfl, rfl, rfl, rfl⟩
  | dispose => exact .closes ⟨rfl, rfl, rfl, rfl⟩
  | handle e => exact turns_handle d fun output heq => hc output (heq ▸ rfl)

end Scopes

end Desk

end ShellTranscript
