-- A scope of teardown actions. Closing a scope runs the actions registered with it, newest first;
-- closing it again does nothing, and an action registered with a closed scope runs at once. An action
-- may itself close the scope or register more actions.
namespace ShellTranscript

-- What an action does, in order, until it is done.
inductive Teardown (ε : Type) where
  | done
  | effect (e : ε) (rest : Teardown ε)
  | defer (action rest : Teardown ε)
  | close (rest : Teardown ε)
deriving DecidableEq, Repr

-- The number of steps an action takes with all that it registers.
def Teardown.size {ε : Type} : Teardown ε → Nat
  | done => 1
  | effect _ rest => rest.size + 1
  | defer action rest => action.size + rest.size + 1
  | close rest => rest.size + 1

-- An action with one effect.
def Teardown.once {ε : Type} (e : ε) : Teardown ε := .effect e .done

-- The pending actions have the newest first.
structure Scope (ε : Type) where
  isClosed : Bool := false
  pending : List (Teardown ε) := []
deriving DecidableEq, Repr

namespace Scope

variable {ε : Type}

-- A run in progress: the scope, what is still to be done, and the effects so far.
structure Run (ε : Type) where
  scope : Scope ε
  agenda : List (Teardown ε)
  effects : List ε := []

def totalSize (actions : List (Teardown ε)) : Nat := actions.foldr (fun action n => action.size + n) 0

-- The steps that are left. Every step takes one away.
def Run.measure (r : Run ε) : Nat := totalSize r.agenda + totalSize r.scope.pending

def Run.step (r : Run ε) : Run ε :=
  match r.agenda with
  | [] => r
  | .done :: rest => { r with agenda := rest }
  | .effect e next :: rest => { r with agenda := next :: rest, effects := r.effects ++ [e] }
  | .defer action next :: rest =>
    if r.scope.isClosed then { r with agenda := action :: next :: rest }
    else
      { r with
        scope := { r.scope with pending := action :: r.scope.pending }
        agenda := next :: rest }
  | .close next :: rest =>
    if r.scope.isClosed then { r with agenda := next :: rest }
    else
      { r with
        scope := { isClosed := true, pending := [] }
        agenda := r.scope.pending ++ next :: rest }

theorem totalSize_cons (action : Teardown ε) (actions : List (Teardown ε)) :
    totalSize (action :: actions) = action.size + totalSize actions := by
  simp [totalSize]

theorem totalSize_append (front back : List (Teardown ε)) :
    totalSize (front ++ back) = totalSize front + totalSize back := by
  induction front with
  | nil => simp [totalSize]
  | cons action front ih => rw [List.cons_append, totalSize_cons, totalSize_cons, ih, Nat.add_assoc]

-- A run comes to its end.
theorem Run.measure_step_lt (r : Run ε) (h : r.agenda ≠ []) : r.step.measure < r.measure := by
  obtain ⟨scope, agenda, effects⟩ := r
  cases agenda with
  | nil => exact absurd rfl h
  | cons action rest =>
    cases action with
    | done => simp [Run.step, Run.measure, totalSize_cons, Teardown.size]
    | effect e next => simp [Run.step, Run.measure, totalSize_cons, Teardown.size]
    | defer action next =>
      simp only [Run.step]
      split <;> simp [Run.measure, totalSize_cons, Teardown.size] <;> omega
    | close next =>
      simp only [Run.step]
      split
      · simp [Run.measure, totalSize_cons, Teardown.size]
      · simp only [Run.measure, totalSize_append, totalSize_cons, Teardown.size]
        simp [totalSize]
        omega

def Run.iterate : Nat → Run ε → Run ε
  | 0, r => r
  | n + 1, r => (r.step).iterate n

-- Does everything on the agenda, and tells the effects in order.
def perform (s : Scope ε) (action : Teardown ε) : Scope ε × List ε :=
  let r : Run ε := { scope := s, agenda := [action] }
  let r := r.iterate r.measure
  (r.scope, r.effects)

-- Registers an action, which runs at once if the scope is closed.
def register (s : Scope ε) (action : Teardown ε) : Scope ε × List ε :=
  s.perform (.defer action .done)

def close (s : Scope ε) : Scope ε × List ε := s.perform (.close .done)

end Scope

end ShellTranscript
