import Mathlib.Tactic.Common
import ShellTranscript.Proofs.Text.Trim

-- What lines leave behind when they are typed: rows of limited length, of which each ends its line or
-- is continued by the next.
namespace ShellTranscript

open Text

-- A text without the spaces at its end.
def Text.trimSpaces (t : Text) : Text := dropEndWhile (fun c => c == ' ') t

theorem Text.trimSpaces_eq {t : Text} (h : t.getLast? ≠ some ' ') : trimSpaces t = t := by
  refine dropEndWhile_eq_self fun c hc => ?_
  rw [beq_eq_false_iff_ne]
  rintro rfl
  exact h hc

theorem Text.byteLength_trimSpaces_le (t : Text) : byteLength (trimSpaces t) ≤ byteLength t := by
  have hsplit := congrArg byteLength (dropEndWhile_append_removed (fun c => c == ' ') t)
  rw [byteLength_append] at hsplit
  rw [trimSpaces]
  omega

-- The rows above the last one, each with whether the next row continues it, and the last row.
structure Page where
  above : List (Text × Bool) := []
  last : Text := []

namespace Page

-- A character that finds no room starts a new row.
def print (columns : Nat) (p : Page) (c : Char) : Page :=
  if p.last.length < columns then { p with last := p.last ++ [c] }
  else { above := p.above ++ [(p.last, true)], last := [c] }

def newLine (p : Page) : Page := { above := p.above ++ [(p.last, false)] }

@[simp] theorem newLine_last (p : Page) : p.newLine.last = [] := rfl

def type (columns : Nat) (p : Page) (t : Text) : Page := t.foldl (print columns) p

def height (p : Page) : Nat := p.above.length + 1

-- What a row above the last one adds to the text.
def rowText (row : Text × Bool) : Text := if row.2 then row.1 else trimSpaces row.1 ++ ['\n']

def textAbove (p : Page) : Text := p.above.flatMap rowText

-- The text that the page shows.
def text (p : Page) : Text := p.textAbove ++ trimSpaces p.last

-- The text with the spaces at its end.
def typed (p : Page) : Text := p.textAbove ++ p.last

theorem byteLength_text_le (p : Page) : byteLength p.text ≤ byteLength p.typed := by
  have hlast := byteLength_trimSpaces_le p.last
  rw [text, typed, byteLength_append, byteLength_append]
  omega

theorem text_eq_typed {p : Page} (h : p.last.getLast? ≠ some ' ') : p.text = p.typed := by
  rw [text, typed, trimSpaces_eq h]

variable (columns : Nat) (p : Page)

theorem type_append (front back : Text) :
    p.type columns (front ++ back) = (p.type columns front).type columns back := by
  simp [type]

theorem typed_print (c : Char) : (p.print columns c).typed = p.typed ++ [c] := by
  unfold print
  split
  · simp [typed, textAbove]
  · simp [typed, textAbove, rowText]

theorem typed_type (t : Text) : (p.type columns t).typed = p.typed ++ t := by
  induction t generalizing p with
  | nil => simp [type]
  | cons c t ih =>
    have hrest := ih (p.print columns c)
    rw [typed_print, List.append_assoc] at hrest
    exact hrest

-- A short text stays on its row.
theorem type_of_short {t : Text} (h : p.last.length + t.length ≤ columns) :
    p.type columns t = { p with last := p.last ++ t } := by
  induction t generalizing p with
  | nil => simp [type]
  | cons c t ih =>
    rw [List.length_cons] at h
    have hprint : p.print columns c = { p with last := p.last ++ [c] } := by
      rw [print, if_pos (by omega)]
    have hrest := ih (p.print columns c) (by
      rw [hprint, List.length_append, List.length_singleton]
      omega)
    have htype : p.type columns (c :: t) = (p.print columns c).type columns t := rfl
    rw [htype, hrest, hprint, List.append_assoc]
    rfl

-- The last row ends as the text does.
theorem getLast?_last_type (t : Text) :
    (p.type columns t).last.getLast? = (p.last ++ t).getLast? := by
  induction t generalizing p with
  | nil => simp [type]
  | cons c t ih =>
    have hlast : (p.print columns c).last.getLast? = some c := by
      unfold print
      split <;> simp
    have hrest := ih (p.print columns c)
    rw [List.getLast?_append, hlast] at hrest
    rw [List.getLast?_append, List.getLast?_cons]
    refine hrest.trans ?_
    cases t.getLast? <;> rfl

theorem typed_newLine {p : Page} (h : p.last.getLast? ≠ some ' ') :
    p.newLine.typed = p.typed ++ ['\n'] := by
  simp [newLine, typed, textAbove, rowText, trimSpaces_eq h]

theorem height_le_print (c : Char) : p.height ≤ (p.print columns c).height := by
  unfold print height
  split
  · exact Nat.le_refl _
  · simp

theorem height_le_type (t : Text) : p.height ≤ (p.type columns t).height := by
  induction t generalizing p with
  | nil => exact Nat.le_refl _
  | cons c t ih => exact Nat.le_trans (height_le_print columns p c) (ih _)

theorem height_newLine : p.newLine.height = p.height + 1 := by simp [height, newLine]

-- Rows that are continued are full, and none is longer.
structure Fits (p : Page) (columns : Nat) : Prop where
  last : p.last.length ≤ columns
  above : ∀ row ∈ p.above, row.1.length ≤ columns ∧ (row.2 = true → row.1.length = columns)

variable {columns} {p}

theorem Fits.newLine (h : p.Fits columns) : p.newLine.Fits columns := by
  refine ⟨Nat.zero_le _, fun row hrow => ?_⟩
  cases List.mem_append.mp hrow with
  | inl hrow => exact h.above row hrow
  | inr hrow =>
    obtain rfl := List.mem_singleton.mp hrow
    exact ⟨h.last, fun hwrapped => by cases hwrapped⟩

theorem Fits.print (h : p.Fits columns) (hpos : 0 < columns) (c : Char) :
    (p.print columns c).Fits columns := by
  unfold Page.print
  split
  · rename_i hroom
    refine ⟨?_, h.above⟩
    rw [List.length_append, List.length_singleton]
    omega
  · rename_i hfull
    refine ⟨hpos, fun row hrow => ?_⟩
    cases List.mem_append.mp hrow with
    | inl hrow => exact h.above row hrow
    | inr hrow =>
      obtain rfl := List.mem_singleton.mp hrow
      exact ⟨h.last, fun _ => Nat.le_antisymm h.last (Nat.le_of_not_lt hfull)⟩

-- The rows that a line takes.
def rowsFor (columns : Nat) (line : Text) : Nat := (line.length - 1) / columns + 1

-- Characters fill row after row.
theorem filled_type (h : p.last.length ≤ columns) (hpos : 0 < columns) (t : Text) :
    (p.type columns t).above.length * columns + (p.type columns t).last.length =
        p.above.length * columns + p.last.length + t.length ∧
      (p.type columns t).last.length ≤ columns ∧
      (t ≠ [] → 0 < (p.type columns t).last.length) := by
  induction t generalizing p with
  | nil => exact ⟨rfl, h, fun hne => absurd rfl hne⟩
  | cons c t ih =>
    have hprint : (p.print columns c).above.length * columns + (p.print columns c).last.length =
          p.above.length * columns + p.last.length + 1 ∧
        (p.print columns c).last.length ≤ columns ∧ 0 < (p.print columns c).last.length := by
      unfold print
      split
      · simp only [List.length_append, List.length_singleton]
        omega
      · simp only [List.length_append, List.length_singleton, Nat.succ_mul]
        omega
    obtain ⟨hcount, hle, hlast⟩ := hprint
    obtain ⟨hrest, hle', hmore⟩ := ih hle
    have htype : p.type columns (c :: t) = (p.print columns c).type columns t := rfl
    rw [htype]
    refine ⟨?_, hle', fun _ => ?_⟩
    · rw [hrest, hcount, List.length_cons]
      omega
    · by_cases ht : t = []
      · rw [ht]
        exact hlast
      · exact hmore ht

theorem height_typeLine (hlast : p.last = []) (hpos : 0 < columns) (t : Text) :
    (p.type columns t).newLine.height = p.height + rowsFor columns t := by
  obtain ⟨hcount, hle, hmore⟩ := filled_type (by rw [hlast]; exact Nat.zero_le columns) hpos t
  by_cases ht : t = []
  · subst ht
    simp [height_newLine, type, rowsFor]
  · have hfirst := hmore ht
    have hlength := List.length_pos_iff.mpr ht
    rw [hlast, List.length_nil, Nat.add_zero] at hcount
    have habove : p.above.length ≤ (p.type columns t).above.length := by
      have := height_le_type columns p t
      rw [height, height] at this
      omega
    have hsplit : t.length - 1 = (p.type columns t).last.length - 1 +
        ((p.type columns t).above.length - p.above.length) * columns := by
      have := Nat.mul_le_mul_right columns habove
      rw [Nat.sub_mul]
      omega
    have hrows : (t.length - 1) / columns = (p.type columns t).above.length - p.above.length := by
      rw [hsplit, Nat.add_mul_div_right _ _ hpos, Nat.div_eq_of_lt (by omega), Nat.zero_add]
    rw [height_newLine, rowsFor, hrows, height, height]
    omega

-- The page as far as so many rows go, of which the last is always one; the oldest are lost first.
def newest (n : Nat) (p : Page) : Page := { p with above := p.above.rtake (n - 1) }

theorem newest_of_le {n : Nat} (h : p.height ≤ n) : p.newest n = p := by
  have hnone : p.above.length - (n - 1) = 0 := by
    rw [height] at h
    omega
  rw [newest, List.rtake, hnone, List.drop_zero]

theorem rtake_rtake {α : Type} (m n : Nat) (rows : List α) (h : m ≤ n) :
    (rows.rtake n).rtake m = rows.rtake m := by
  rw [List.rtake, List.rtake, List.rtake, List.length_drop, List.drop_drop]
  congr 1
  omega

theorem rtake_rtake_concat {α : Type} (n : Nat) (rows : List α) (row : α) :
    (rows.rtake n ++ [row]).rtake n = (rows ++ [row]).rtake n := by
  cases n with
  | zero => rw [List.rtake_zero, List.rtake_zero]
  | succ n =>
    rw [List.rtake_concat_succ, List.rtake_concat_succ, rtake_rtake n (n + 1) rows (Nat.le_succ n)]

-- Rows that are lost are lost for good: it makes no difference to leave them out before.
theorem newest_newLine (n : Nat) (p : Page) : (p.newest n).newLine.newest n = p.newLine.newest n := by
  simp only [newLine, newest, rtake_rtake_concat]

theorem newest_print (n : Nat) (p : Page) (c : Char) :
    ((p.newest n).print columns c).newest n = (p.print columns c).newest n := by
  have hlast : (p.newest n).last = p.last := rfl
  by_cases hroom : p.last.length < columns
  · rw [print, print, if_pos hroom, if_pos (hlast ▸ hroom)]
    simp only [newest, rtake_rtake _ _ _ (Nat.le_refl _)]
  · rw [print, print, if_neg hroom, if_neg (hlast ▸ hroom)]
    simp only [newest, rtake_rtake_concat]

theorem Fits.newest (h : p.Fits columns) (n : Nat) : (p.newest n).Fits columns :=
  ⟨h.last, fun row hrow => h.above row (List.mem_of_mem_drop hrow)⟩

theorem newest_type (columns n : Nat) (p : Page) (t : Text) :
    ((p.newest n).type columns t).newest n = (p.type columns t).newest n := by
  induction t generalizing p with
  | nil => simp only [type, List.foldl_nil, newest, rtake_rtake _ _ _ (Nat.le_refl _)]
  | cons c t ih =>
    have hfirst := ih ((p.newest n).print columns c)
    rw [newest_print, ih] at hfirst
    exact hfirst.symm

def typeLine (columns : Nat) (p : Page) (line : Text) : Page := (p.type columns line).newLine

def typeLines (columns : Nat) (p : Page) (lines : List Text) : Page :=
  lines.foldl (typeLine columns) p

-- The rows that lines take.
def rowsForAll (columns : Nat) : List Text → Nat
  | [] => 0
  | line :: lines => rowsFor columns line + rowsForAll columns lines

theorem last_typeLines (columns : Nat) (hlast : p.last = []) (lines : List Text) :
    (p.typeLines columns lines).last = [] := by
  induction lines generalizing p with
  | nil => exact hlast
  | cons line lines ih => exact ih (p := p.typeLine columns line) rfl

theorem newest_typeLines (columns n : Nat) (p : Page) (lines : List Text) :
    ((p.newest n).typeLines columns lines).newest n = (p.typeLines columns lines).newest n := by
  induction lines generalizing p with
  | nil => exact newest_type columns n p []
  | cons line lines ih =>
    have hfirst : ((p.newest n).typeLine columns line).newest n = (p.typeLine columns line).newest n := by
      rw [typeLine, ← newest_newLine, newest_type, newest_newLine, typeLine]
    have hrest := ih ((p.newest n).typeLine columns line)
    rw [hfirst, ih] at hrest
    exact hrest.symm

theorem typed_typeLine (columns : Nat) {line : Text} (hend : (p.last ++ line).getLast? ≠ some ' ') :
    (p.typeLine columns line).typed = p.typed ++ line ++ ['\n'] := by
  rw [← getLast?_last_type columns] at hend
  rw [typeLine, typed_newLine hend, typed_type]

theorem typed_typeLines (columns : Nat) (hlast : p.last = []) {lines : List Text}
    (hlines : ∀ line ∈ lines, line.getLast? ≠ some ' ') :
    (p.typeLines columns lines).typed = p.typed ++ lines.flatMap (fun line => line ++ ['\n']) ∧
      (p.typeLines columns lines).last = [] := by
  induction lines generalizing p with
  | nil => exact ⟨(List.append_nil _).symm, hlast⟩
  | cons line lines ih =>
    have hend : (p.last ++ line).getLast? ≠ some ' ' := by
      rw [hlast]
      exact hlines line List.mem_cons_self
    have hfirst := typed_typeLine columns hend
    obtain ⟨htyped, hempty⟩ := ih (p := p.typeLine columns line) rfl fun l hl =>
      hlines l (List.mem_cons_of_mem _ hl)
    refine ⟨?_, hempty⟩
    rw [hfirst, List.append_assoc (p.typed ++ line), List.append_assoc p.typed,
      ← List.append_assoc line] at htyped
    exact htyped

theorem height_typeLines (hlast : p.last = []) (hpos : 0 < columns) (lines : List Text) :
    (p.typeLines columns lines).height = p.height + rowsForAll columns lines := by
  induction lines generalizing p with
  | nil => rfl
  | cons line lines ih =>
    have hfirst := height_typeLine hlast hpos line
    have hrest := ih (p := p.typeLine columns line) rfl
    rw [typeLine, hfirst] at hrest
    rw [rowsForAll, ← Nat.add_assoc]
    exact hrest

end Page

end ShellTranscript
