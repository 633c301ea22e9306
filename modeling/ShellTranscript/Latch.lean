-- A latch opens at most once, with a value, and can be disposed of at any time. Whoever waits at it
-- is answered as soon as it is no longer pending: with the value, or with nothing once it is
-- disposed.
namespace ShellTranscript

inductive Latch (α : Type) where
  | pending
  | ready (value : α)
  | disposed
deriving DecidableEq, Repr

namespace Latch

variable {α : Type}

-- Also tells whether the latch was still pending.
def resolve (l : Latch α) (value : α) : Latch α × Bool :=
  match l with
  | pending => (ready value, true)
  | l => (l, false)

def value? : Latch α → Option α
  | ready value => some value
  | _ => none

-- Hands the value back if there was one.
def dispose (l : Latch α) : Latch α × Option α := (disposed, l.value?)

-- The answer to one who waits; none while the latch is pending.
def answer? : Latch α → Option (Option α)
  | pending => none
  | ready value => some (some value)
  | disposed => some none

-- Those who wait and have no answer yet get the one there is.
def answerAll (l : Latch α) (waiters : List (Option (Option α))) : List (Option (Option α)) :=
  waiters.map fun waiter => waiter <|> l.answer?

-- Only the first value counts, and only if it comes before the disposal.
theorem resolve_snd_iff {l : Latch α} {value : α} : (l.resolve value).2 = true ↔ l = pending := by
  cases l <;> simp [resolve]

theorem answer?_dispose (l : Latch α) : l.dispose.1.answer? = some none := rfl

-- Whoever has an answer keeps it.
theorem answerAll_answerAll (l m : Latch α) (waiters : List (Option (Option α)))
    (h : l ≠ pending) : m.answerAll (l.answerAll waiters) = l.answerAll waiters := by
  simp only [answerAll, List.map_map]
  apply List.map_congr_left
  intro waiter _
  cases waiter <;> cases l <;> simp_all [answer?]

end Latch

end ShellTranscript
