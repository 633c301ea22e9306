import Mathlib.Tactic.Common
import ShellTranscript.Proofs.Transcript.Operations
import ShellTranscript.Transcript.Output

-- Starts, outputs and conclusions are made of operations on the transcript, one after the other.
namespace ShellTranscript

-- What holds of the result, if there is one.
def WhenOk {α : Type} (P : α → Prop) (x : Except Refusal α) : Prop := ∀ a, x = .ok a → P a

namespace WhenOk

variable {α β : Type} {P : α → Prop} {Q : β → Prop} {x : Except Refusal α}

theorem ok {a : α} (h : P a) : WhenOk P (.ok a) := by
  rintro _ ⟨⟩
  exact h

theorem error (reason : Refusal) : WhenOk P (.error reason) := nofun

theorem any (x : Except Refusal α) : WhenOk (fun _ => True) x := fun _ _ => trivial

theorem mono {P' : α → Prop} (h : WhenOk P x) (himp : ∀ a, P a → P' a) : WhenOk P' x :=
  fun a hx => himp a (h a hx)

theorem bind {f : α → Except Refusal β} (h : WhenOk P x) (hf : ∀ a, P a → WhenOk Q (f a)) :
    WhenOk Q (x >>= f) := by
  cases x with
  | ok a => exact hf a (h a rfl)
  | error reason => exact error reason

theorem map {f : α → β} (h : WhenOk (fun a => Q (f a)) x) : WhenOk Q (x.map f) := by
  cases x with
  | ok a => exact ok (h a rfl)
  | error reason => exact error reason

end WhenOk

namespace Transcript

-- Where operations lead that are all carried out.
inductive Runs (t : Transcript) : Transcript → Prop where
  | here : Runs t t
  | run {t' t'' : Transcript} (o : Operation) : Runs t t' → o.run t' = .ok t'' → Runs t t''

variable {t t' t'' : Transcript}

theorem Runs.trans (h : t.Runs t') (h' : t'.Runs t'') : t.Runs t'' := by
  induction h' with
  | here => exact h
  | run o _ hrun ih => exact .run o ih hrun

section Operations

variable (t : Transcript) (id : Nat)

theorem runs_run (o : Operation) : WhenOk t.Runs (o.run t) := fun _ hrun => .run o .here hrun

theorem runs_closeLast : t.Runs t.closeLast := .run .closeLast .here rfl

theorem runs_appendLineBreak : t.Runs t.appendLineBreak := .run .lineBreak .here rfl

theorem runs_clear : t.Runs t.clear := .run .clear .here rfl

theorem runs_append (inserted : Text) (part : BlockPart) :
    WhenOk (fun added => t.Runs added.2) (t.append id inserted part) :=
  fun _ happend => .run (.append id inserted part) .here (congrArg (Except.map Prod.snd) happend)

theorem runs_createBlock (command prompt : Option Text) :
    WhenOk (fun created => t.Runs created.2) (t.createBlock command prompt) :=
  fun _ hcreate => .run (.create command prompt) .here (congrArg (Except.map Prod.snd) hcreate)

theorem runs_writeHeader (command prompt : Option Text) :
    WhenOk t.Runs (t.writeHeader id command prompt) := by
  unfold Transcript.writeHeader
  split
  · refine (runs_append t id _ .prompt).bind fun ⟨_, t'⟩ hprompt => ?_
    exact (runs_append t' id _ .command).bind fun _ hcommand => .ok (hprompt.trans hcommand)
  · exact (runs_append t id _ .prompt).bind fun _ h => .ok h
  · exact (runs_append t id _ .command).bind fun _ h => .ok h
  · exact .ok .here

theorem runs_start (command prompt : Option Text) :
    WhenOk (fun started => t.Runs started.2) (t.start command prompt) := by
  refine (runs_createBlock t _ _).bind fun ⟨id, t₁⟩ hcreated => ?_
  refine (runs_writeHeader t₁ id _ _).bind fun t₂ hwritten => ?_
  refine (WhenOk.any _).bind fun ⟨_, b⟩ _ => ?_
  refine (runs_run t₂ (.putSpans id _)).bind fun t₃ hput => ?_
  have hwhole := (hcreated.trans hwritten).trans hput
  split
  · exact (runs_run t₃ (.putFrame id _)).bind fun _ hframed => .ok (hwhole.trans hframed)
  · exact .ok hwhole

theorem runs_writeOutput (output : Snapshot) : WhenOk t.Runs (t.writeOutput id output) := by
  refine (runs_run t (.replaceOutput id _)).bind fun t₁ hreplaced => ?_
  refine (WhenOk.any _).bind fun ⟨_, b⟩ _ => ?_
  refine (WhenOk.any _).bind fun spans _ => ?_
  refine (runs_run t₁ (.putSpans id _)).bind fun t₂ hput => ?_
  have hwhole := hreplaced.trans hput
  split
  · exact (runs_run t₂ (.putFrame id _)).mono fun _ => hwhole.trans
  · exact .ok hwhole

theorem runs_trimLastLine : WhenOk t.Runs (t.trimLastLine id) := by
  refine (WhenOk.any _).bind fun ⟨_, b⟩ _ => ?_
  refine (WhenOk.any _).bind fun lineStart _ => ?_
  refine (WhenOk.any _).bind fun line _ => ?_
  split
  · exact runs_run t (.truncate id _)
  · exact .ok .here

theorem runs_conclude (exitCode : Int) : WhenOk t.Runs (t.conclude id exitCode) := by
  refine (runs_run t (.finish id exitCode)).bind fun t₁ hfinished => ?_
  refine (runs_trimLastLine t₁ id).bind fun t₂ htrimmed => ?_
  refine (WhenOk.any _).bind fun ⟨_, b⟩ _ => ?_
  refine (WhenOk.any _).bind fun written _ => ?_
  have hwhole := hfinished.trans htrimmed
  split
  · exact (runs_run t₂ (.remove id)).mono fun _ => hwhole.trans
  split
  · exact (runs_run t₂ (.setFrameState id .error)).mono fun _ => hwhole.trans
  · exact .ok hwhole

end Operations

end Transcript

end ShellTranscript
