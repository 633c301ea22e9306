import Mathlib.Tactic.Common
import ShellTranscript.Recorder.Lifecycle

-- What goes on around a record: listening to the sampler, scopes and the journal. None of it changes
-- the transcript, the terminal or what was sampled of it, or what the recorder takes snapshots for.
namespace ShellTranscript

namespace Outcome

variable {σ : Type} {P Q : σ → Prop} {o : Outcome σ}

theorem state_andThen_of {next : σ → Outcome σ} (h : P o.state) (hrefused : ∀ s, P s → Q s)
    (hnext : ∀ s, P s → Q (next s).state) : Q (o.andThen next).state := by
  cases o with
  | done s => exact hnext s h
  | refused reason s => exact hrefused s h

theorem state_andThen {next : σ → Outcome σ} (h : P o.state)
    (hnext : ∀ s, P s → P (next s).state) : P (o.andThen next).state :=
  state_andThen_of h (fun _ => id) hnext

theorem state_restoring {before : σ} (hbefore : P before) (h : P o.state) :
    P (o.restoring before).state := by
  unfold restoring
  split
  · exact hbefore
  · exact h

end Outcome

namespace Desk

inductive Backstage (d : Desk) : Desk → Prop where
  | mk (listeners : Registry Relay) (scopes : List (Scope ScopeEffect)) (scope : Option Nat)
      (journal : List JournalEntry) :
      d.Backstage
        { stage := { d.stage with sampler := { d.stage.sampler with listeners } }
          recorder := { d.recorder with scopes, scope, journal } }

variable {d d' d'' : Desk}

namespace Backstage

theorem refl (d : Desk) : d.Backstage d :=
  .mk d.stage.sampler.listeners d.recorder.scopes d.recorder.scope d.recorder.journal

theorem trans (h : d.Backstage d') (h' : d'.Backstage d'') : d.Backstage d'' := by
  cases h
  cases h'
  exact .mk _ _ _ _

theorem transcript (h : d.Backstage d') : d'.recorder.transcript = d.recorder.transcript := by
  cases h; rfl

theorem state (h : d.Backstage d') : d'.recorder.state = d.recorder.state := by
  cases h; rfl

theorem epoch (h : d.Backstage d') : d'.recorder.epoch = d.recorder.epoch := by
  cases h; rfl

theorem viewport (h : d.Backstage d') : d'.recorder.viewport = d.recorder.viewport := by
  cases h; rfl

theorem terminal (h : d.Backstage d') : d'.stage.terminal = d.stage.terminal := by
  cases h; rfl

theorem lastSent (h : d.Backstage d') :
    d'.stage.sampler.lastSent = d.stage.sampler.lastSent := by
  cases h; rfl

theorem mailbox (h : d.Backstage d') : d'.stage.mailbox = d.stage.mailbox := by
  cases h; rfl

end Backstage

theorem backstage_note (d : Desk) (entry : JournalEntry) : d.Backstage (d.note entry) :=
  .mk _ _ _ _

theorem backstage_performEffect (d : Desk) (e : ScopeEffect) : d.Backstage (d.performEffect e) := by
  cases e with
  | stopListening id => exact .mk _ _ _ _
  | uninstallRouter router block => exact .mk _ _ _ _
  | note label => exact .mk _ _ _ _

theorem backstage_foldl (d : Desk) (effects : List ScopeEffect) :
    d.Backstage (effects.foldl performEffect d) := by
  induction effects generalizing d with
  | nil => exact .refl d
  | cons e effects ih => exact (d.backstage_performEffect e).trans (ih _)

theorem backstage_withScope (d : Desk) (index : Nat)
    (change : Scope ScopeEffect → Scope ScopeEffect × List ScopeEffect) :
    d.Backstage (d.withScope index change) := by
  unfold withScope
  split
  · exact .refl d
  · exact .trans (.mk _ _ _ _) (backstage_foldl _ _)

theorem backstage_closeCurrentScope (d : Desk) : d.Backstage d.closeCurrentScope := by
  unfold closeCurrentScope
  split
  · exact .refl d
  · exact .trans (.mk _ _ _ _) (backstage_withScope _ _ _)

theorem backstage_openScope (d : Desk) (block : Nat) : d.Backstage (d.openScope block) := by
  have hopened : d.Backstage
      ((({ d.closeCurrentScope with
        stage := { d.closeCurrentScope.stage with sampler :=
          { d.closeCurrentScope.stage.sampler with
            listeners := (d.closeCurrentScope.stage.sampler.listeners.add .recorder).1 } } } :
          Desk).modifyRecorder fun r => { r with
            scopes := r.scopes ++ [({} : Scope ScopeEffect)]
            scope := some d.closeCurrentScope.recorder.scopes.length }).withScope
        d.closeCurrentScope.recorder.scopes.length fun s =>
          s.register (.once (.stopListening
            (d.closeCurrentScope.stage.sampler.listeners.add .recorder).2))) :=
    .trans (backstage_closeCurrentScope d) (.trans (.mk _ _ _ _) (backstage_withScope _ _ _))
  simp only [openScope]
  split
  · exact hopened
  · exact .trans hopened (.trans (backstage_note _ _) (backstage_withScope _ _ _))

-- Whatever becomes of a snapshot, at most the transcript and the caret change.
theorem applyOutput_cases (d : Desk) (output : Snapshot) : (d.applyOutput output).state = d ∨
    ∃ t caret, (d.applyOutput output).state = (d.withTranscript t).showCaret caret := by
  unfold applyOutput
  split
  · exact .inl rfl
  · split
    · exact .inl rfl
    · split
      · exact .inl rfl
      · split
        · exact .inl rfl
        · exact .inr ⟨_, _, rfl⟩

end Desk

end ShellTranscript
