import Mathlib.Tactic.Common
import ShellTranscript.TypedStore

-- What is stored after any row of accesses. Under a name there is what was put there last, whatever
-- its kind, unless something was removed under that name since. A removal gives back what a look-up
-- through the same key finds, but it takes away a value of any kind: it leaves the store alone just
-- if there is no kind through which the name finds a value.
namespace ShellTranscript.TypedStore

variable {Kind : Type} {Value : Kind → Type}

section Names

variable {s : TypedStore Kind Value} {name : Text}

theorem find?_cons (entry : Text × Sigma Value) (entries : List (Text × Sigma Value)) (name : Text) :
    (mk (entry :: entries)).find? name =
      if name = entry.1 then some entry.2 else (mk entries).find? name := by
  rw [find?, List.lookup_cons]
  by_cases hname : name = entry.1
  · rw [beq_iff_eq.mpr hname, if_pos hname]
  · rw [beq_false_of_ne hname, if_neg hname]
    rfl

theorem find?_erase (s : TypedStore Kind Value) (name name' : Text) :
    (s.erase name).find? name' = if name' = name then none else s.find? name' := by
  obtain ⟨entries⟩ := s
  induction entries with
  | nil => exact (ite_self none).symm
  | cons entry entries ih =>
    simp only [erase] at ih ⊢
    rw [List.filter_cons, find?_cons]
    by_cases hname : entry.1 = name
    · -- An entry under the erased name is found through no other name.
      rw [if_neg (by simp [hname]), ih, hname]
      by_cases hsame : name' = name
      · rw [if_pos hsame, if_pos hsame]
      · rw [if_neg hsame, if_neg hsame, if_neg hsame]
    · rw [if_pos (by simpa using hname), find?_cons, ih]
      by_cases hfound : name' = entry.1
      · rw [if_pos hfound, if_neg (hfound ▸ hname), if_pos hfound]
      · rw [if_neg hfound, if_neg hfound]

theorem erase_eq_self_iff : s.erase name = s ↔ s.find? name = none := by
  obtain ⟨entries⟩ := s
  simp only [erase, find?, mk.injEq, List.filter_eq_self, List.lookup_eq_none_iff, bne_iff_ne, ne_eq,
    eq_comm (a := name)]

end Names

inductive Access (Kind : Type) (Value : Kind → Type) where
  | put (kind : Kind) (name : Text) (value : Value kind)
  | get (kind : Kind) (name : Text)
  | modify (kind : Kind) (name : Text) (f : Value kind → Value kind)
  | remove (kind : Kind) (name : Text)

variable [DecidableEq Kind]

def Access.run (s : TypedStore Kind Value) : Access Kind Value → TypedStore Kind Value
  | put kind name value => (s.put kind name value).2
  | get _ _ => s
  | modify kind name f => (s.modify kind name f).2
  | remove kind name => (s.remove kind name).2

-- The store that a row of accesses leads to from an empty one.
def after (accesses : List (Access Kind Value)) : TypedStore Kind Value :=
  accesses.foldl Access.run {}

-- What an access makes of the value under a name. Only changes look at its kind.
def Access.keeps (name : Text) (stored : Option (Sigma Value)) :
    Access Kind Value → Option (Sigma Value)
  | put kind other value => if name = other then some ⟨kind, value⟩ else stored
  | get _ _ => stored
  | modify kind other f =>
    if name = other then
      stored.map fun value => if h : value.1 = kind then ⟨kind, f (h ▸ value.2)⟩ else value
    else stored
  | remove _ other => if name = other then none else stored

section Steps

variable {s : TypedStore Kind Value} {kind other : Kind} {name name' : Text} {stored : Sigma Value}
  {value : Value kind}

theorem find?_put (s : TypedStore Kind Value) (value : Value kind) (name name' : Text) :
    (s.put kind name value).2.find? name' =
      if name' = name then some ⟨kind, value⟩ else s.find? name' := by
  refine (find?_cons _ _ name').trans ?_
  have herased := s.find?_erase name name'
  by_cases hname : name' = name
  · rw [if_pos hname, if_pos hname]
  · rw [if_neg hname] at herased ⊢
    rw [if_neg hname]
    exact herased

theorem ofKind?_eq_some_iff : ofKind? kind stored = some value ↔ stored = ⟨kind, value⟩ := by
  obtain ⟨own, content⟩ := stored
  unfold ofKind?
  by_cases hkind : own = kind
  · subst hkind
    simp
  · simp [hkind]

theorem get?_eq_some_iff : s.get? kind name = some value ↔ s.find? name = some ⟨kind, value⟩ := by
  rw [get?, Option.bind_eq_some_iff]
  constructor
  · rintro ⟨stored, hfind, hkind⟩
    rwa [← ofKind?_eq_some_iff.mp hkind]
  · intro hfind
    exact ⟨_, hfind, ofKind?_eq_some_iff.mpr rfl⟩

-- What is stored is found through the key of its own kind.
theorem find?_eq_none_iff : s.find? name = none ↔ ∀ other, s.get? other name = none := by
  constructor
  · intro hnone other
    rw [get?, hnone]
    rfl
  · intro hnone
    cases hfind : s.find? name with
    | none => rfl
    | some stored =>
      have hown : s.get? stored.1 name = some stored.2 := get?_eq_some_iff.mpr hfind
      rw [hnone] at hown
      cases hown

theorem find?_modify (s : TypedStore Kind Value) (f : Value kind → Value kind) (name name' : Text) :
    (s.modify kind name f).2.find? name' = if name' = name then (s.find? name').map fun value =>
      if h : value.1 = kind then ⟨kind, f (h ▸ value.2)⟩ else value else s.find? name' := by
  unfold modify
  cases hget : s.get? kind name with
  | some value =>
    rw [find?_put]
    by_cases hname : name' = name
    · subst hname
      rw [if_pos rfl, if_pos rfl, get?_eq_some_iff.mp hget]
      simp
    · rw [if_neg hname, if_neg hname]
  | none =>
    by_cases hname : name' = name
    · subst hname
      rw [if_pos rfl]
      cases hfind : s.find? name' with
      | none => rfl
      | some stored =>
        have hkind : stored.1 ≠ kind := by
          rintro rfl
          rw [get?_eq_some_iff.mpr hfind] at hget
          cases hget
        rw [Option.map_some, dif_neg hkind]
    · rw [if_neg hname]

end Steps

section Runs

variable {accesses : List (Access Kind Value)}

theorem Access.find?_run (s : TypedStore Kind Value) (a : Access Kind Value) (name : Text) :
    (a.run s).find? name = a.keeps name (s.find? name) := by
  cases a with
  | put kind other value => exact s.find?_put value other name
  | get kind other => rfl
  | modify kind other f => exact s.find?_modify f other name
  | remove kind other => exact s.find?_erase other name

-- Each name is looked after by itself.
theorem find?_foldl (s : TypedStore Kind Value) (accesses : List (Access Kind Value)) (name : Text) :
    (accesses.foldl Access.run s).find? name =
      accesses.foldl (Access.keeps name) (s.find? name) := by
  induction accesses generalizing s with
  | nil => rfl
  | cons a accesses ih => rw [List.foldl_cons, List.foldl_cons, ih, a.find?_run]

-- What the accesses have left under a name.
def left (accesses : List (Access Kind Value)) (name : Text) : Option (Sigma Value) :=
  accesses.foldl (Access.keeps name) none

theorem find?_after (accesses : List (Access Kind Value)) (name : Text) :
    (after accesses).find? name = left accesses name := find?_foldl {} accesses name

theorem get?_after_eq_some_iff {kind : Kind} {name : Text} {value : Value kind} :
    (after accesses).get? kind name = some value ↔ left accesses name = some ⟨kind, value⟩ := by
  rw [get?_eq_some_iff, find?_after]

-- Whatever was done before, a removal gives back what was left under the name if that is of the key's
-- kind. It spares the other names, and nothing is found under its own name through any key. So it
-- changes nothing just if nothing was left there of any kind.
theorem remove_after (accesses : List (Access Kind Value)) (kind : Kind) (name : Text) :
    ((after accesses).remove kind name).1 = (after accesses).get? kind name ∧
      (∀ value, ((after accesses).remove kind name).1 = some value ↔
        left accesses name = some ⟨kind, value⟩) ∧
      (∀ other name', ((after accesses).remove kind name).2.get? other name' =
        if name' = name then none else (after accesses).get? other name') ∧
      (((after accesses).remove kind name).2 = after accesses ↔
        ∀ other, (after accesses).get? other name = none) := by
  refine ⟨rfl, fun value => get?_after_eq_some_iff, fun other name' => ?_, ?_⟩
  · show ((after accesses).erase name).get? other name' = _
    rw [get?, find?_erase]
    by_cases hname : name' = name
    · rw [if_pos hname, if_pos hname]
      rfl
    · rw [if_neg hname, if_neg hname]
      rfl
  · exact erase_eq_self_iff.trans find?_eq_none_iff

-- A number is put under a name, and a text is to be removed under that name. None is given back, and
-- the number is gone.
theorem remove_takes_other_kind :
    let s : TypedStore Bool fun isNumber => if isNumber then Nat else Text :=
      after [.put true ['c'] (1 : Nat)]
    s.get? true ['c'] = some (1 : Nat) ∧ (s.remove false ['c']).1 = none ∧
      (s.remove false ['c']).2.get? true ['c'] = none := by
  exact ⟨rfl, rfl, rfl⟩

end Runs

end ShellTranscript.TypedStore
