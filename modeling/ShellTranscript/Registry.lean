-- Registered listeners. Every registration gets a number that is never used again, and those who are
-- told of something are the ones registered when it happens, in the order of their registration.
namespace ShellTranscript

structure Registry (α : Type) where
  entries : List (Nat × α) := []
  next : Nat := 1
deriving Repr

namespace Registry

variable {α σ : Type}

def add (r : Registry α) (a : α) : Registry α × Nat :=
  ({ entries := r.entries ++ [(r.next, a)], next := r.next + 1 }, r.next)

-- Also tells whether the number was registered.
def remove (r : Registry α) (id : Nat) : Registry α × Bool :=
  ({ r with entries := r.entries.filter fun entry => entry.1 != id },
    r.entries.any fun entry => entry.1 == id)

def clear (r : Registry α) : Registry α := { r with entries := [] }

def members (r : Registry α) : List α := r.entries.map Prod.snd

def size (r : Registry α) : Nat := r.entries.length

-- Calls everyone registered at the start, whatever the calls do to the registry.
def notify (r : Registry α) (call : Nat → α → σ → σ) (s : σ) : σ :=
  r.entries.foldl (fun s entry => call entry.1 entry.2 s) s

theorem mem_remove_iff {r : Registry α} {id : Nat} {entry : Nat × α} :
    entry ∈ (r.remove id).1.entries ↔ entry ∈ r.entries ∧ entry.1 ≠ id := by
  simp [remove]

theorem remove_snd_iff {r : Registry α} {id : Nat} :
    (r.remove id).2 = true ↔ ∃ a, (id, a) ∈ r.entries := by
  simp only [remove, List.any_eq_true, beq_iff_eq]
  constructor
  · rintro ⟨⟨n, a⟩, hmem, rfl⟩
    exact ⟨a, hmem⟩
  · rintro ⟨a, hmem⟩
    exact ⟨(id, a), hmem, rfl⟩

end Registry

end ShellTranscript
