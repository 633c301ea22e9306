import Mathlib.Tactic.Common
import ShellTranscript.Scope

-- Runs of the actions of a scope. A run comes to its end, and what it has come to by then does not
-- depend on how many more steps it is given. A closed scope is never opened again.
namespace ShellTranscript.Scope

variable {ε : Type}

namespace Run

theorem iterate_of_done (n : Nat) {r : Run ε} (h : r.agenda = []) : r.iterate n = r := by
  induction n with
  | zero => rfl
  | succ n ih =>
    have hstep : r.step = r := by rw [Run.step, h]
    rw [iterate, hstep, ih]

theorem iterate_add (m n : Nat) (r : Run ε) : r.iterate (m + n) = (r.iterate m).iterate n := by
  induction m generalizing r with
  | zero => rw [Nat.zero_add]; rfl
  | succ m ih =>
    rw [Nat.succ_add, iterate, iterate, ih]

theorem isClosed_step {r : Run ε} (h : r.scope.isClosed = true) :
    r.step.scope.isClosed = true := by
  unfold step
  split
  · exact h
  · exact h
  · exact h
  · rw [if_pos h]
    exact h
  · rw [if_pos h]
    exact h

theorem isClosed_iterate (n : Nat) {r : Run ε} (h : r.scope.isClosed = true) :
    (r.iterate n).scope.isClosed = true := by
  induction n generalizing r with
  | zero => exact h
  | succ n ih => exact ih (isClosed_step h)

-- What happened before makes no difference to a run.
def behind (before : List ε) (r : Run ε) : Run ε := { r with effects := before ++ r.effects }

theorem step_behind (before : List ε) (r : Run ε) :
    (r.behind before).step = r.step.behind before := by
  obtain ⟨scope, agenda, effects⟩ := r
  cases agenda with
  | nil => rfl
  | cons action rest =>
    cases action with
    | done => rfl
    | effect e next => simp only [behind, step, List.append_assoc]
    | defer action next =>
      cases hclosed : scope.isClosed with
      | true => simp only [behind, step, hclosed, if_true]
      | false => simp only [behind, step, hclosed, Bool.false_eq_true, if_false]
    | close next =>
      cases hclosed : scope.isClosed with
      | true => simp only [behind, step, hclosed, if_true]
      | false => simp only [behind, step, hclosed, Bool.false_eq_true, if_false]

theorem iterate_behind (before : List ε) (n : Nat) (r : Run ε) :
    (r.behind before).iterate n = (r.iterate n).behind before := by
  induction n generalizing r with
  | zero => rfl
  | succ n ih => rw [iterate, iterate, step_behind, ih]

theorem agenda_iterate {n : Nat} {r : Run ε} (h : r.measure ≤ n) : (r.iterate n).agenda = [] := by
  induction n generalizing r with
  | zero =>
    by_contra hnot
    have hless := measure_step_lt r hnot
    omega
  | succ n ih =>
    by_cases hdone : r.agenda = []
    · rw [iterate_of_done _ hdone, hdone]
    · have hless := measure_step_lt r hdone
      exact ih (by omega)

-- There is one end only.
theorem iterate_measure {n : Nat} {r : Run ε} (h : (r.iterate n).agenda = []) :
    r.iterate r.measure = r.iterate n := by
  rcases Nat.le_total n r.measure with hle | hle
  · obtain ⟨more, hmore⟩ := Nat.exists_eq_add_of_le hle
    rw [hmore, iterate_add, iterate_of_done more h]
  · obtain ⟨more, hmore⟩ := Nat.exists_eq_add_of_le hle
    rw [hmore, iterate_add, iterate_of_done more (agenda_iterate (Nat.le_refl _))]

theorem iterate_once (scope : Scope ε) (pending : List ε) (agenda : List (Teardown ε))
    (effects : List ε) :
    ({ scope, agenda := pending.map .once ++ agenda, effects } : Run ε).iterate
        (2 * pending.length) = { scope, agenda, effects := effects ++ pending } := by
  induction pending generalizing effects with
  | nil => simp [iterate]
  | cons e pending ih =>
    have hlength : 2 * (e :: pending).length = 2 * pending.length + 1 + 1 := by
      rw [List.length_cons]
      omega
    rw [hlength, iterate, iterate]
    simp only [List.map_cons, List.cons_append, step, Teardown.once, ih, List.append_assoc,
      List.nil_append]

end Run

variable {s : Scope ε}

-- What is done after some number of steps is done at the end.
theorem perform_of_done {action : Teardown ε} {n : Nat}
    (h : (({ scope := s, agenda := [action] } : Run ε).iterate n).agenda = []) :
    s.perform action = ((({ scope := s, agenda := [action] } : Run ε).iterate n).scope,
      (({ scope := s, agenda := [action] } : Run ε).iterate n).effects) := by
  simp only [perform, Run.iterate_measure h]

theorem isClosed_perform (h : s.isClosed = true) (action : Teardown ε) :
    (s.perform action).1.isClosed = true := Run.isClosed_iterate _ h

theorem isClosed_close (s : Scope ε) : s.close.1.isClosed = true := by
  let r : Run ε := { scope := s, agenda := [.close .done] }
  have hfirst : r.step.scope.isClosed = true := by
    simp only [r, Run.step]
    split
    · assumption
    · rfl
  have hless := Run.measure_step_lt r (List.cons_ne_nil _ _)
  obtain ⟨n, hn⟩ := Nat.exists_eq_add_of_lt (Nat.zero_lt_of_lt hless)
  show (r.iterate r.measure).scope.isClosed = true
  rw [hn, Nat.zero_add, Run.iterate]
  exact Run.isClosed_iterate n hfirst

theorem close_of_isClosed (h : s.isClosed = true) : s.close = (s, []) := by
  have hrun : ({ scope := s, agenda := [.close .done] } : Run ε).iterate 2 =
      { scope := s, agenda := [] } := by
    simp only [Run.iterate, Run.step, h, if_true]
  rw [close, perform_of_done (congrArg Run.agenda hrun), hrun]

theorem register_of_isOpen (h : s.isClosed = false) (action : Teardown ε) :
    s.register action = ({ s with pending := action :: s.pending }, []) := by
  have hrun : ({ scope := s, agenda := [.defer action .done] } : Run ε).iterate 2 =
      { scope := { s with pending := action :: s.pending }, agenda := [] } := by
    simp only [Run.iterate, Run.step, h, Bool.false_eq_true, if_false]
  rw [register, perform_of_done (congrArg Run.agenda hrun), hrun]

theorem register_of_isClosed (h : s.isClosed = true) (e : ε) :
    s.register (.once e) = (s, [e]) := by
  have hrun : ({ scope := s, agenda := [.defer (.once e) .done] } : Run ε).iterate 4 =
      { scope := s, agenda := [], effects := [e] } := by
    simp only [Run.iterate, Run.step, Teardown.once, h, if_true, List.nil_append]
  rw [register, perform_of_done (congrArg Run.agenda hrun), hrun]

-- Actions with one effect each run in their order.
theorem close_once (pending : List ε) :
    ({ pending := pending.map .once } : Scope ε).close = ({ isClosed := true }, pending) := by
  let scope : Scope ε := { pending := pending.map .once }
  have hopened : ({ scope, agenda := [.close .done] } : Run ε).iterate 1 =
      { scope := { isClosed := true }, agenda := pending.map .once ++ [.done] } := rfl
  have hrun : ({ scope, agenda := [.close .done] } : Run ε).iterate (1 + (2 * pending.length + 1)) =
      { scope := { isClosed := true }, agenda := [], effects := pending } := by
    rw [Run.iterate_add, hopened, Run.iterate_add, Run.iterate_once, List.nil_append]
    rfl
  rw [close, perform_of_done (congrArg Run.agenda hrun), hrun]

end ShellTranscript.Scope
