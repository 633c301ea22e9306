-- Texts and the byte offsets into them. A text is a list of characters; every position in a text is
-- an offset in bytes of its UTF-8 form, and a cut is possible only between two characters.
namespace ShellTranscript

abbrev Text := List Char

-- A position that does not fit in a machine word stays at the largest word.
def maxOffset : Nat := 0xFFFFFFFFFFFFFFFF

namespace Text

-- The number of bytes a text takes in UTF-8.
def byteLength : Text → Nat
  | [] => 0
  | c :: t => c.utf8Size + byteLength t

@[simp] theorem byteLength_nil : byteLength [] = 0 := rfl

@[simp] theorem byteLength_cons (c : Char) (t : Text) :
    byteLength (c :: t) = c.utf8Size + byteLength t := rfl

@[simp] theorem byteLength_append (s t : Text) :
    byteLength (s ++ t) = byteLength s + byteLength t := by
  induction s with
  | nil => simp
  | cons c s ih => simp only [List.cons_append, byteLength_cons, ih]; omega

-- The texts before and after a byte offset. There is no such cut past the end of the text or
-- inside a character.
def splitAt? : Text → Nat → Option (Text × Text)
  | t, 0 => some ([], t)
  | [], _ + 1 => none
  | c :: t, n + 1 =>
    if c.utf8Size ≤ n + 1 then
      (splitAt? t (n + 1 - c.utf8Size)).map fun cut => (c :: cut.1, cut.2)
    else
      none

@[simp] theorem splitAt?_zero (t : Text) : splitAt? t 0 = some ([], t) := by
  cases t <;> rfl

-- A cut loses nothing and lies where it was asked for.
theorem eq_append_of_splitAt? {t front back : Text} {n : Nat}
    (h : splitAt? t n = some (front, back)) : t = front ++ back ∧ byteLength front = n := by
  induction t generalizing n front back with
  | nil =>
    cases n with
    | zero => simp [splitAt?] at h; simp [h]
    | succ n => simp [splitAt?] at h
  | cons c t ih =>
    cases n with
    | zero => simp [splitAt?] at h; simp [h]
    | succ n =>
      simp only [splitAt?] at h
      split at h
      · next hc =>
        obtain ⟨⟨a, b⟩, hab, he⟩ := Option.map_eq_some_iff.1 h
        simp only [Prod.mk.injEq] at he
        obtain ⟨rfl, rfl⟩ := he
        obtain ⟨ht, hn⟩ := ih hab
        subst ht
        simp only [List.cons_append, byteLength_cons, true_and]
        omega
      · cases h

-- Between two texts their concatenation can always be cut.
theorem splitAt?_append (front back : Text) :
    splitAt? (front ++ back) (byteLength front) = some (front, back) := by
  induction front with
  | nil => simp
  | cons c front ih =>
    have hpos : 0 < c.utf8Size := Char.utf8Size_pos c
    obtain ⟨m, hm⟩ : ∃ m, c.utf8Size + byteLength front = m + 1 := ⟨_, (Nat.succ_pred (by omega)).symm⟩
    simp only [List.cons_append, byteLength_cons, hm, splitAt?]
    rw [if_pos (by omega), show m + 1 - c.utf8Size = byteLength front by omega, ih]
    rfl

-- The text between two byte offsets.
def slice? (t : Text) (start stop : Nat) : Option Text := do
  let (front, _) ← splitAt? t stop
  let (_, middle) ← splitAt? front start
  some middle

-- The text between two offsets, and the whole with that part replaced.
def splice? (t : Text) (start stop : Nat) (inserted : Text) : Option (Text × Text) := do
  let (front, back) ← splitAt? t stop
  let (before, removed) ← splitAt? front start
  some (removed, before ++ inserted ++ back)

-- The line feeds among the first bytes of a text.
def lineFeedsBefore : Text → Nat → Nat
  | [], _ => 0
  | _, 0 => 0
  | c :: t, n + 1 => (if c = '\n' then 1 else 0) + lineFeedsBefore t (n + 1 - c.utf8Size)

-- The part after the last line feed.
def lastLine (t : Text) : Text := (t.reverse.takeWhile (· != '\n')).reverse

-- The offset where the line that holds an offset starts.
def lineStart? (t : Text) (offset : Nat) : Option Nat :=
  (splitAt? t offset).map fun cut => byteLength cut.1 - byteLength (lastLine cut.1)

-- What follows a given beginning.
def dropBeginning? : Text → Text → Option Text
  | [], t => some t
  | _ :: _, [] => none
  | p :: ps, c :: t => if p = c then dropBeginning? ps t else none

theorem dropBeginning?_eq_some_iff {p t rest : Text} :
    dropBeginning? p t = some rest ↔ t = p ++ rest := by
  induction p generalizing t with
  | nil => simp [dropBeginning?]
  | cons c p ih =>
    cases t with
    | nil => simp [dropBeginning?]
    | cons d t =>
      simp only [dropBeginning?, List.cons_append, List.cons.injEq]
      by_cases h : c = d
      · simp [h, ih]
      · simp [h, Ne.symm h]

-- The pieces of a text between the occurrences of a separator; always at least one.
def fields (separator : Char) : Text → List Text
  | [] => [[]]
  | c :: t =>
    if c = separator then
      [] :: fields separator t
    else
      match fields separator t with
      | [] => [[c]]
      | field :: rest => (c :: field) :: rest

end Text

end ShellTranscript
