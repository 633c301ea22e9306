import Mathlib.Algebra.GroupWithZero.Nat
import Mathlib.Tactic.Common
import ShellTranscript.Proofs.Scope.Runs

-- The calls to a scope, seen from within. A call borrows the state of the scope while it looks at it
-- and changes it, and fails if another call has it. A ledger numbers the registrations and notes what
-- becomes of them. But for that it does the same steps as a run of the scope.
namespace ShellTranscript

-- The effects an action has of its own, and not through what it registers or closes.
def Teardown.ownEffects {ε : Type} : Teardown ε → List ε
  | done => []
  | effect e next => e :: next.ownEffects
  | defer _ next => next.ownEffects
  | close next => next.ownEffects

namespace Scope

variable {ε : Type}

-- A call through any handle of a scope. Handles share its state, so it makes no difference which one.
inductive Call (ε : Type) where
  | register (action : Teardown ε)
  | close
deriving DecidableEq, Repr

def Call.teardown : Call ε → Teardown ε
  | register action => .defer action .done
  | close => .close .done

def serve (s : Scope ε) : Call ε → Scope ε × List ε
  | .register action => s.register action
  | .close => s.close

theorem serve_eq (s : Scope ε) (c : Call ε) : s.serve c = s.perform c.teardown := by
  cases c <;> rfl

-- One call after another. The effects are those of all of them.
def serveAll (s : Scope ε) : List (Call ε) → Scope ε × List ε
  | [] => (s, [])
  | c :: calls =>
    let (served, effects) := s.serve c
    let (final, more) := served.serveAll calls
    (final, effects ++ more)

-- Actions are known by the number of their registration. The owner of an effect is the action that
-- has it; whoever called from outside has no number.
inductive Entry (ε : Type) where
  | registered (number : Nat) (action : Teardown ε)
  | closed
  | begun (number : Nat)
  | effect (owner : Option Nat) (e : ε)
  | ended (number : Nat)
deriving DecidableEq, Repr

def Entry.effect? : Entry ε → Option ε
  | effect _ e => some e
  | _ => none

-- An action that will run, what is left of one that runs, or a call that has the state.
inductive Work (ε : Type) where
  | start (number : Nat) (action : Teardown ε)
  | doing (owner : Option Nat) (left : Teardown ε)
  | registering (owner : Option Nat) (action left : Teardown ε)
  | closing (owner : Option Nat) (left : Teardown ε)
deriving DecidableEq, Repr

namespace Work

def left : Work ε → Teardown ε
  | start _ action => action
  | doing _ left => left
  | registering _ action left => .defer action left
  | closing _ left => .close left

def isInside : Work ε → Bool
  | registering _ _ _ | closing _ _ => true
  | _ => false

-- What is still to be noted about an action.
def due : Work ε → List (Entry ε)
  | start number action =>
    .begun number :: (action.ownEffects.map (.effect (some number)) ++ [.ended number])
  | doing owner left | registering owner _ left | closing owner left =>
    left.ownEffects.map (.effect owner) ++ (owner.map .ended).toList

def ofKept (entry : Nat × Teardown ε) : Work ε := .start entry.1 entry.2

-- A call takes two steps, and so does an end; whatever it registers has a step more for its beginning.
def size : Work ε → Nat
  | start _ action => 3 * action.size + 1
  | doing _ left => 3 * left.size
  | registering _ action left => 3 * action.size + 3 * left.size + 2
  | closing _ left => 3 * left.size + 2

end Work

-- What is kept until the scope is closed has the newest last. The work has first what is done first.
structure Ledger (ε : Type) where
  isClosed : Bool := false
  isBorrowed : Bool := false
  kept : List (Nat × Teardown ε) := []
  work : List (Work ε) := []
  entries : List (Entry ε) := []
  next : Nat := 0

namespace Ledger

def effects (l : Ledger ε) : List ε := l.entries.filterMap Entry.effect?

-- One step, unless a call finds the state borrowed.
def step (l : Ledger ε) : Option (Ledger ε) :=
  match l.work with
  | [] => some l
  | .start number action :: rest =>
    some { l with work := .doing (some number) action :: rest, entries := l.entries ++ [.begun number] }
  | .doing owner .done :: rest =>
    some { l with work := rest, entries := l.entries ++ (owner.map .ended).toList }
  | .doing owner (.effect e left) :: rest =>
    some { l with work := .doing owner left :: rest, entries := l.entries ++ [.effect owner e] }
  | .doing owner (.defer action left) :: rest =>
    if l.isBorrowed then none
    else some { l with isBorrowed := true, work := .registering owner action left :: rest }
  | .doing owner (.close left) :: rest =>
    if l.isBorrowed then none
    else some { l with isBorrowed := true, work := .closing owner left :: rest }
  -- The state is given back before the action runs.
  | .registering owner action left :: rest =>
    let counted : Ledger ε := { l with
      isBorrowed := false
      entries := l.entries ++ [.registered l.next action]
      next := l.next + 1 }
    if l.isClosed then
      some { counted with work := .start l.next action :: .doing owner left :: rest }
    else
      some { counted with
        kept := l.kept ++ [(l.next, action)]
        work := .doing owner left :: rest }
  -- The actions are taken out, and the state is given back before they run.
  | .closing owner left :: rest =>
    if l.isClosed then some { l with isBorrowed := false, work := .doing owner left :: rest }
    else
      some { l with
        isClosed := true
        isBorrowed := false
        kept := []
        work := l.kept.reverse.map .ofKept ++ .doing owner left :: rest
        entries := l.entries ++ [.closed] }

def run : Nat → Ledger ε → Option (Ledger ε)
  | 0, l => some l
  | n + 1, l => l.step.bind (run n)

-- The steps that are left, or more.
def measure (l : Ledger ε) : Nat :=
  (l.work.map Work.size).sum + (l.kept.map fun entry => 3 * entry.2.size + 1).sum

-- Serves a call from outside until it returns, unless a call fails meanwhile.
def serve (l : Ledger ε) (c : Call ε) : Option (Ledger ε) :=
  let l := { l with work := .doing none c.teardown :: l.work }
  l.run l.measure

def serveAll (l : Ledger ε) (calls : List (Call ε)) : Option (Ledger ε) := calls.foldlM serve l

-- What a step does.
inductive Turn (l : Ledger ε) : Ledger ε → Prop where
  | begins {number : Nat} {action : Teardown ε} {rest : List (Work ε)} :
      l.work = .start number action :: rest →
      Turn l { l with
        work := .doing (some number) action :: rest
        entries := l.entries ++ [.begun number] }
  | ends {owner : Option Nat} {rest : List (Work ε)} : l.work = .doing owner .done :: rest →
      Turn l { l with work := rest, entries := l.entries ++ (owner.map .ended).toList }
  | effect {owner : Option Nat} {e : ε} {left : Teardown ε} {rest : List (Work ε)} :
      l.work = .doing owner (.effect e left) :: rest →
      Turn l { l with work := .doing owner left :: rest, entries := l.entries ++ [.effect owner e] }
  | entersRegister {owner : Option Nat} {action left : Teardown ε} {rest : List (Work ε)} :
      l.work = .doing owner (.defer action left) :: rest → l.isBorrowed = false →
      Turn l { l with isBorrowed := true, work := .registering owner action left :: rest }
  | entersClose {owner : Option Nat} {left : Teardown ε} {rest : List (Work ε)} :
      l.work = .doing owner (.close left) :: rest → l.isBorrowed = false →
      Turn l { l with isBorrowed := true, work := .closing owner left :: rest }
  | registers {owner : Option Nat} {action left : Teardown ε} {rest : List (Work ε)} :
      l.work = .registering owner action left :: rest → l.isClosed = false →
      Turn l { l with
        isBorrowed := false
        kept := l.kept ++ [(l.next, action)]
        work := .doing owner left :: rest
        entries := l.entries ++ [.registered l.next action]
        next := l.next + 1 }
  | runs {owner : Option Nat} {action left : Teardown ε} {rest : List (Work ε)} :
      l.work = .registering owner action left :: rest → l.isClosed = true →
      Turn l { l with
        isBorrowed := false
        work := .start l.next action :: .doing owner left :: rest
        entries := l.entries ++ [.registered l.next action]
        next := l.next + 1 }
  | closes {owner : Option Nat} {left : Teardown ε} {rest : List (Work ε)} :
      l.work = .closing owner left :: rest → l.isClosed = false →
      Turn l { l with
        isClosed := true
        isBorrowed := false
        kept := []
        work := l.kept.reverse.map .ofKept ++ .doing owner left :: rest
        entries := l.entries ++ [.closed] }
  | leaves {owner : Option Nat} {left : Teardown ε} {rest : List (Work ε)} :
      l.work = .closing owner left :: rest → l.isClosed = true →
      Turn l { l with isBorrowed := false, work := .doing owner left :: rest }

variable {l l' : Ledger ε}

-- Only a call can fail, and only if another one has the state.
theorem exists_turn (hwork : l.work ≠ [])
    (hfree : ∀ w ∈ l.work.head?, w.isInside = false → l.isBorrowed = false) :
    ∃ l', l.step = some l' ∧ l.Turn l' := by
  unfold step
  cases hl : l.work with
  | nil => exact absurd hl hwork
  | cons w rest =>
    rw [hl, List.head?_cons] at hfree
    have hfree := hfree w rfl
    cases w with
    | start number action => exact ⟨_, rfl, .begins hl⟩
    | doing owner left =>
      cases left with
      | done => exact ⟨_, rfl, .ends hl⟩
      | effect e left => exact ⟨_, rfl, .effect hl⟩
      | defer action left =>
        have hfree := hfree rfl
        exact ⟨_, if_neg (Bool.not_eq_true _ ▸ hfree), .entersRegister hl hfree⟩
      | close left =>
        have hfree := hfree rfl
        exact ⟨_, if_neg (Bool.not_eq_true _ ▸ hfree), .entersClose hl hfree⟩
    | registering owner action left =>
      by_cases hclosed : l.isClosed = true
      · exact ⟨_, if_pos hclosed, .runs hl hclosed⟩
      · exact ⟨_, if_neg hclosed, .registers hl (Bool.eq_false_iff.mpr hclosed)⟩
    | closing owner left =>
      by_cases hclosed : l.isClosed = true
      · exact ⟨_, if_pos hclosed, .leaves hl hclosed⟩
      · exact ⟨_, if_neg hclosed, .closes hl (Bool.eq_false_iff.mpr hclosed)⟩

theorem Turn.measure_lt (h : l.Turn l') : l'.measure < l.measure := by
  cases h with
  | begins hwork | ends hwork | effect hwork | entersRegister hwork _ | entersClose hwork _
  | registers hwork _ | runs hwork _ | leaves hwork _ =>
    simp only [measure, hwork, List.map_cons, List.map_append, List.map_nil, List.sum_cons,
      List.sum_append, List.sum_nil, Work.size, Teardown.size]
    omega
  | closes hwork _ =>
    have hkept : (l.kept.reverse.map Work.ofKept).map Work.size =
        (l.kept.map fun entry => 3 * entry.2.size + 1).reverse := by
      rw [List.map_map, ← List.map_reverse]
      rfl
    simp only [measure, hwork, List.map_cons, List.sum_cons, Work.size, List.map_append, hkept,
      List.sum_append, List.sum_reverse, List.map_nil, List.sum_nil]
    omega

def scope (l : Ledger ε) : Scope ε where
  isClosed := l.isClosed
  pending := (l.kept.map Prod.snd).reverse

def scopeRun (l : Ledger ε) : Run ε where
  scope := l.scope
  agenda := l.work.map Work.left
  effects := l.effects

-- Beginnings and borrowings are steps of the ledger alone.
theorem Turn.scopeRun (h : l.Turn l') :
    l'.scopeRun = l.scopeRun ∨ l'.scopeRun = l.scopeRun.step := by
  cases h with
  | begins hwork | entersRegister hwork _ | entersClose hwork _ =>
    left
    simp [Ledger.scopeRun, Ledger.scope, effects, hwork, Work.left, Entry.effect?]
  | ends hwork =>
    right
    rename_i owner rest
    cases owner <;>
      simp [Ledger.scopeRun, Ledger.scope, effects, hwork, Work.left, Entry.effect?, Run.step]
  | effect hwork =>
    right
    simp [Ledger.scopeRun, Ledger.scope, effects, hwork, Work.left, Entry.effect?, Run.step]
  | registers hwork hphase | runs hwork hphase | leaves hwork hphase =>
    right
    simp [Ledger.scopeRun, Ledger.scope, effects, hwork, hphase, Work.left, Entry.effect?, Run.step]
  | closes hwork hopen =>
    right
    have hkept : (l.kept.reverse.map Work.ofKept).map Work.left = (l.kept.map Prod.snd).reverse := by
      rw [List.map_map, ← List.map_reverse]
      rfl
    simp only [Ledger.scopeRun, List.map_append, hkept]
    simp [Ledger.scope, effects, hwork, hopen, Work.left, Entry.effect?, Run.step]

end Ledger

end Scope

end ShellTranscript
