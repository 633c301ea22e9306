import Mathlib.Tactic.Common
import ShellTranscript.Document
import ShellTranscript.Text.Blank
import ShellTranscript.Text.Utf8

-- Cuts of a text: what the parts of a concatenation are at their own offsets, where a cut stays one
-- when more text follows, and how a text splits before its last line.
namespace ShellTranscript.Text

-- The item between two parts of a list.
theorem modify_append_cons {α : Type} (front back : List α) (a : α) (f : α → α) :
    (front ++ a :: back).modify front.length f = front ++ f a :: back := by
  induction front with
  | nil => rfl
  | cons first front ih => simp [ih]

-- A change at one place, seen through two views that differ only there.
theorem map_modify_place {α β : Type} {items : List α} {index : Nat} {f : α → α} {f' : β → β}
    {g g' : α → β} (hhere : ∀ a, items[index]? = some a → g' (f a) = f' (g a))
    (hother : ∀ place a, index ≠ place → items[place]? = some a → g' a = g a) :
    (items.modify index f).map g' = (items.map g).modify index f' := by
  refine List.ext_getElem? fun place => ?_
  rw [List.getElem?_map, List.getElem?_modify, List.getElem?_modify, List.getElem?_map]
  cases ha : items[place]? with
  | none => rfl
  | some a =>
    by_cases hplace : index = place
    · simp [hplace, hhere a (hplace ▸ ha)]
    · simp [hplace, hother place a hplace ha]

-- What a change leaves of every item is left of the list.
theorem map_modify {α β : Type} {f : α → α} {g : α → β} (hf : ∀ a, g (f a) = g a) (items : List α)
    (index : Nat) : (items.modify index f).map g = items.map g := by
  induction items generalizing index with
  | nil => rw [List.modify_nil]
  | cons a items ih =>
    cases index with
    | zero => rw [List.modify_zero_cons, List.map_cons, List.map_cons, hf]
    | succ index => rw [List.modify_succ_cons, List.map_cons, List.map_cons, ih]

-- What a change of an item keeps of all items.
theorem forall_mem_modify {α : Type} {p : α → Prop} {f : α → α} {items : List α} (i : Nat)
    (h : ∀ a ∈ items, p a) (hf : ∀ a, p a → p (f a)) : ∀ a ∈ items.modify i f, p a := by
  induction items generalizing i with
  | nil =>
    rw [List.modify_nil]
    exact h
  | cons first items ih =>
    have hfirst := h first List.mem_cons_self
    have hrest : ∀ a ∈ items, p a := fun a ha => h a (List.mem_cons_of_mem _ ha)
    cases i with
    | zero =>
      rw [List.modify_zero_cons]
      exact List.forall_mem_cons.mpr ⟨hf first hfirst, hrest⟩
    | succ i =>
      rw [List.modify_succ_cons]
      exact List.forall_mem_cons.mpr ⟨hfirst, ih i hrest⟩

theorem slice?_append (front middle back : Text) :
    slice? (front ++ middle ++ back) (byteLength front) (byteLength (front ++ middle)) =
      some middle := by
  simp only [slice?, Option.bind_eq_bind]
  rw [splitAt?_append (front ++ middle) back]
  simp only [Option.bind_some]
  rw [splitAt?_append front middle]
  rfl

theorem eq_append_of_slice? {t part : Text} {start stop : Nat} (h : slice? t start stop = some part) :
    ∃ front back, t = front ++ part ++ back ∧ start = byteLength front ∧
      stop = byteLength (front ++ part) := by
  simp only [slice?, Option.bind_eq_bind, Option.bind_eq_some_iff, Option.some.injEq] at h
  obtain ⟨⟨front, rest⟩, hstop, ⟨first, middle⟩, hstart, rfl⟩ := h
  obtain ⟨rfl, rfl⟩ := eq_append_of_splitAt? hstop
  obtain ⟨rfl, rfl⟩ := eq_append_of_splitAt? hstart
  exact ⟨first, rest, rfl, rfl, rfl⟩

-- What is appended does not move what is there.
theorem slice?_append_right {t part : Text} {start stop : Nat}
    (h : slice? t start stop = some part) (back : Text) :
    slice? (t ++ back) start stop = some part := by
  obtain ⟨front, rest, rfl, rfl, rfl⟩ := eq_append_of_slice? h
  rw [List.append_assoc (front ++ part)]
  exact slice?_append front part (rest ++ back)

-- A part that is made of two.
theorem slice?_parts {t first second : Text} {start : Nat}
    (h : slice? t start (start + byteLength (first ++ second)) = some (first ++ second)) :
    slice? t start (start + byteLength first) = some first ∧
      slice? t (start + byteLength first) (start + byteLength (first ++ second)) = some second := by
  obtain ⟨front, back, rfl, rfl, -⟩ := eq_append_of_slice? h
  refine ⟨?_, ?_⟩
  · rw [← byteLength_append]
    simpa only [List.append_assoc] using slice?_append front first (second ++ back)
  · rw [← byteLength_append, ← byteLength_append, ← List.append_assoc]
    exact slice?_append (front ++ first) second back

theorem splice?_append (front middle back inserted : Text) :
    splice? (front ++ middle ++ back) (byteLength front) (byteLength (front ++ middle)) inserted =
      some (middle, front ++ inserted ++ back) := by
  simp only [splice?, Option.bind_eq_bind]
  rw [splitAt?_append (front ++ middle) back]
  simp only [Option.bind_some]
  rw [splitAt?_append front middle]
  rfl

-- The offsets at which a text can be cut.
def IsCut (t : Text) (n : Nat) : Prop := (splitAt? t n).isSome

theorem isCut_byteLength (front back : Text) : IsCut (front ++ back) (byteLength front) := by
  simp [IsCut, splitAt?_append]

theorem IsCut.append {t : Text} {n : Nat} (h : IsCut t n) (back : Text) : IsCut (t ++ back) n := by
  obtain ⟨⟨first, second⟩, hcut⟩ := Option.isSome_iff_exists.mp h
  obtain ⟨rfl, rfl⟩ := eq_append_of_splitAt? hcut
  rw [List.append_assoc]
  exact isCut_byteLength first (second ++ back)

-- A part that can be replaced starts at a cut.
theorem isCut_of_splice? {t inserted : Text} {start stop : Nat} {parts : Text × Text}
    (h : splice? t start stop inserted = some parts) : IsCut t start := by
  simp only [splice?, Option.bind_eq_bind, Option.bind_eq_some_iff] at h
  obtain ⟨⟨front, back⟩, hstop, ⟨before, removed⟩, hstart, -⟩ := h
  obtain ⟨rfl, -⟩ := eq_append_of_splitAt? hstop
  obtain ⟨rfl, rfl⟩ := eq_append_of_splitAt? hstart
  rw [List.append_assoc]
  exact isCut_byteLength before (removed ++ back)

theorem byteLength_eq_zero_iff {t : Text} : byteLength t = 0 ↔ t = [] := by
  cases t with
  | nil => simp
  | cons c t =>
    have := Char.utf8Size_pos c
    simp only [byteLength_cons, List.cons_ne_nil, iff_false]
    omega

theorem splitAt?_append_of_le {front : Text} {n : Nat} (h : n ≤ byteLength front) (back : Text) :
    (splitAt? (front ++ back) n).map Prod.fst = (splitAt? front n).map Prod.fst := by
  induction front generalizing n with
  | nil =>
    obtain rfl : n = 0 := by simpa using h
    simp
  | cons c front ih =>
    cases n with
    | zero => simp
    | succ n =>
      simp only [List.cons_append, splitAt?]
      by_cases hc : c.utf8Size ≤ n + 1
      · have hrest : n + 1 - c.utf8Size ≤ byteLength front := by
          rw [byteLength_cons] at h
          omega
        have hcut := congrArg (Option.map (c :: ·)) (ih hrest)
        simpa [hc, Function.comp_def] using hcut
      · simp [hc]

theorem splitAt?_append_add (front t : Text) (n : Nat) :
    splitAt? (front ++ t) (byteLength front + n) =
      (splitAt? t n).map fun cut => (front ++ cut.1, cut.2) := by
  induction front with
  | nil => simp
  | cons c front ih =>
    have hpos := Char.utf8Size_pos c
    obtain ⟨m, hm⟩ : ∃ m, byteLength (c :: front) + n = m + 1 := by
      refine ⟨byteLength (c :: front) + n - 1, ?_⟩
      rw [byteLength_cons]
      omega
    have hrest : m + 1 - c.utf8Size = byteLength front + n := by
      rw [← hm, byteLength_cons]
      omega
    have hc : c.utf8Size ≤ m + 1 := by
      rw [← hm, byteLength_cons]
      omega
    rw [List.cons_append, hm, splitAt?, if_pos hc, hrest, ih]
    simp [Function.comp_def]

theorem slice?_eq (t : Text) (start stop : Nat) :
    slice? t start stop =
      ((splitAt? t stop).map Prod.fst).bind fun front => (splitAt? front start).map Prod.snd := by
  cases hstop : splitAt? t stop with
  | none => simp [slice?, hstop]
  | some cut =>
    cases hstart : splitAt? cut.1 start with
    | none => simp [slice?, hstop, hstart]
    | some cut' => simp [slice?, hstop, hstart]

-- What stands behind a part does not matter to it.
theorem slice?_append_of_le {front : Text} {stop : Nat} (h : stop ≤ byteLength front)
    (back : Text) (start : Nat) : slice? (front ++ back) start stop = slice? front start stop := by
  rw [slice?_eq, slice?_eq, splitAt?_append_of_le h]

-- Nor does what stands before it, but for the offsets.
theorem slice?_append_add (front t : Text) (start stop : Nat) :
    slice? (front ++ t) (byteLength front + start) (byteLength front + stop) =
      slice? t start stop := by
  simp only [slice?_eq, splitAt?_append_add]
  cases splitAt? t stop with
  | none => rfl
  | some cut => simp [splitAt?_append_add, Function.comp_def]

theorem encode_append (s t : Text) : Utf8.encode (s ++ t) = Utf8.encode s ++ Utf8.encode t := by
  simp [Utf8.encode]

theorem length_encode (t : Text) : (Utf8.encode t).length = byteLength t := by
  induction t with
  | nil => rfl
  | cons c t ih =>
    have hc : Utf8.encode (c :: t) = String.utf8EncodeChar c ++ Utf8.encode t := rfl
    rw [hc, List.length_append, ih, byteLength_cons, String.length_utf8EncodeChar]

-- The text up to and with its last line feed.
def earlierLines (t : Text) : Text := (t.reverse.dropWhile (· != '\n')).reverse

theorem earlierLines_append_lastLine (t : Text) : earlierLines t ++ lastLine t = t := by
  rw [earlierLines, lastLine, ← List.reverse_append, List.takeWhile_append_dropWhile,
    List.reverse_reverse]

-- What stands before the last line is nothing, or ends in a line feed.
theorem earlierLines_eq (t : Text) : earlierLines t = [] ∨ ∃ s, earlierLines t = s ++ ['\n'] := by
  rw [earlierLines]
  cases h : t.reverse.dropWhile (· != '\n') with
  | nil => exact Or.inl rfl
  | cons c rest =>
    refine Or.inr ⟨rest.reverse, ?_⟩
    have hc := List.head_dropWhile_not (fun c : Char => c != '\n')
      (l := t.reverse) (by simp [h])
    simp only [h, List.head_cons, bne_eq_false_iff_eq] at hc
    simp [hc]

-- A line feed in front of a text is the end of an earlier line.
theorem earlierLines_append {front : Text} (hfront : front = [] ∨ ∃ s, front = s ++ ['\n'])
    (t : Text) : earlierLines (front ++ t) = front ++ earlierLines t := by
  cases hfront with
  | inl h => simp [h]
  | inr h =>
    obtain ⟨s, rfl⟩ := h
    simp only [earlierLines, List.reverse_append, List.dropWhile_append]
    split
    · rename_i hempty
      rw [List.isEmpty_iff.mp hempty]
      simp
    · simp

theorem lineStart?_byteLength (t : Text) :
    lineStart? t (byteLength t) = some (byteLength (earlierLines t)) := by
  have hcut := splitAt?_append t []
  rw [List.append_nil] at hcut
  have hlen := congrArg byteLength (earlierLines_append_lastLine t)
  rw [byteLength_append] at hlen
  simp only [lineStart?, hcut, Option.map_some, Option.some.injEq]
  omega

-- A text without its last line and the line feed before it, if that line is blank.
def dropBlankLine (t : Text) : Text :=
  if (trim (lastLine t)).isEmpty then (earlierLines t).dropLast else t

theorem dropBlankLine_concat (t : Text) : dropBlankLine (t ++ ['\n']) = t := by
  have hlast : lastLine (t ++ ['\n']) = [] := by simp [lastLine]
  have hearlier := earlierLines_append_lastLine (t ++ ['\n'])
  rw [hlast, List.append_nil] at hearlier
  rw [dropBlankLine, hlast, hearlier, List.dropLast_concat]
  rfl

theorem dropBlankLine_prefix (t : Text) : ∃ rest, t = dropBlankLine t ++ rest := by
  rw [dropBlankLine]
  split
  · refine ⟨(earlierLines t).drop ((earlierLines t).length - 1) ++ lastLine t, ?_⟩
    rw [List.dropLast_eq_take, ← List.append_assoc, List.take_append_drop,
      earlierLines_append_lastLine]
  · exact ⟨[], (List.append_nil t).symm⟩

-- What stands before the last line feed of an earlier part stays.
theorem dropBlankLine_append (s t : Text) :
    ∃ rest, dropBlankLine (s ++ ['\n'] ++ t) = s ++ rest := by
  rw [dropBlankLine]
  split
  · rw [earlierLines_append (.inr ⟨s, rfl⟩)]
    rcases earlierLines_eq t with hnil | ⟨lines, hlines⟩
    · refine ⟨[], ?_⟩
      rw [hnil, List.append_nil, List.dropLast_concat, List.append_nil]
    · refine ⟨['\n'] ++ lines, ?_⟩
      rw [hlines, ← List.append_assoc, List.dropLast_concat, List.append_assoc]
  · exact ⟨['\n'] ++ t, List.append_assoc s ['\n'] t⟩

end ShellTranscript.Text
