import Mathlib.Tactic.Common
import ShellTranscript.Proofs.Screen.Lines

-- What was typed and the text up to the cursor. The two are the same up to the right margin, where
-- the cursor waits on the last cell and the character on it is left out.
namespace ShellTranscript

open Text

namespace Page

variable {columns : Nat} {p : Page}

-- The last row is full after exactly the texts that fill all of their rows.
theorem length_last_type (hpos : 0 < columns) {t : Text} (hne : t ≠ []) :
    (Page.type columns {} t).last.length = columns ↔ columns ∣ t.length := by
  obtain ⟨hcount, hle, hmore⟩ := filled_type (p := {}) (Nat.zero_le _) hpos t
  have hfirst := hmore hne
  have hsplit : (Page.type columns {} t).above.length * columns +
      (Page.type columns {} t).last.length = t.length := by
    rw [hcount, List.length_nil, List.length_nil, Nat.zero_mul, Nat.zero_add]
  constructor
  · intro hfull
    rw [← hsplit, hfull]
    exact Nat.dvd_add (Nat.dvd_mul_left _ _) (Nat.dvd_refl _)
  · intro hdvd
    have hlast : columns ∣ (Page.type columns {} t).last.length :=
      (Nat.dvd_add_right (Nat.dvd_mul_left _ _)).mp (hsplit ▸ hdvd)
    exact Nat.le_antisymm hle (Nat.le_of_dvd hfirst hlast)

-- On an empty page a text takes its rows and no more.
theorem height_type (hpos : 0 < columns) (t : Text) :
    (Page.type columns {} t).height = rowsFor columns t := by
  have hline := height_typeLine (p := {}) rfl hpos t
  have hempty : (({} : Page).height) = 1 := rfl
  rw [height_newLine] at hline
  omega

-- Without the character at the margin, a full page is what was typed but for that character.
theorem textAbove_append_take (hfull : p.last.length = columns) (hpos : 0 < columns) :
    p.textAbove ++ p.last.take (columns - 1) = p.typed.dropLast := by
  have hne : p.last ≠ [] := by
    intro hnil
    rw [hnil, List.length_nil] at hfull
    omega
  rw [typed, List.dropLast_append_of_ne_nil hne, List.dropLast_eq_take, hfull]

end Page

-- Of a text on an empty page, the character at the right margin is left out.
theorem Screen.Shows.textToCursor_type {s : Screen} {size : ScreenSize} {limit : Nat} {typed : Text}
    (h : s.Shows size limit (Page.type size.columns {} typed))
    (hend : s.AtEnd size.columns (Page.type size.columns {} typed)) (hpos : 0 < size.columns) :
    s.textToCursor = if size.columns ∣ typed.length then typed.dropLast else typed := by
  have htyped : (Page.type size.columns {} typed).typed = typed := Page.typed_type _ _ _
  by_cases hne : typed = []
  · subst hne
    rw [List.dropLast_nil, ite_self]
    exact h.textToCursor_eq_typed hend hpos
  · by_cases hdvd : size.columns ∣ typed.length
    · have hfull := (Page.length_last_type hpos hne).mpr hdvd
      have hmargin := Page.textAbove_append_take hfull hpos
      rw [htyped] at hmargin
      rw [if_pos hdvd, ← hmargin]
      exact h.textToCursor hend hpos
    · have hroom : (Page.type size.columns {} typed).last.length < size.columns :=
        Nat.lt_of_le_of_ne h.fits.last (mt (Page.length_last_type hpos hne).mp hdvd)
      rw [if_neg hdvd]
      exact (h.textToCursor_eq_typed hend hroom).trans htyped

theorem ite_dropLast_eq_iff {p : Prop} [Decidable p] {t : Text} :
    (if p then t.dropLast else t) = t ↔ t = [] ∨ ¬p := by
  by_cases hp : p
  · rw [if_pos hp, or_iff_left (not_not_intro hp)]
    constructor
    · intro hsame
      have hlength := congrArg List.length hsame
      rw [List.length_dropLast] at hlength
      exact List.length_eq_zero_iff.mp (by omega)
    · rintro rfl
      rfl
  · rw [if_neg hp]
    exact iff_of_true rfl (Or.inr hp)

namespace Terminal

-- On a new terminal, the text up to the cursor is what was typed, but for the last character if that
-- stands at the right margin, where the cursor has not gone past it. So it is all of it exactly if
-- the last row is not full.
theorem textToCursor_typed (columns rows scrollback : Nat) {typed : Text}
    (hchars : ∀ c ∈ typed, cellWidth? c = some 1)
    (hroom : Page.rowsFor (ScreenSize.new columns rows).columns typed ≤
      scrollback + (ScreenSize.new columns rows).rows)
    {chunks : List (List UInt8)} (hchunks : chunks.flatten = Utf8.encode typed) :
    (chunks.foldl write (.new (.new columns rows) scrollback)).textToCursor =
        (if (ScreenSize.new columns rows).columns ∣ typed.length then typed.dropLast else typed) ∧
      ((chunks.foldl write (.new (.new columns rows) scrollback)).textToCursor = typed ↔
        typed = [] ∨ ¬(ScreenSize.new columns rows).columns ∣ typed.length) := by
  have hpos : 0 < (ScreenSize.new columns rows).columns :=
    Nat.lt_of_lt_of_le Nat.one_pos (Nat.le_max_right _ _)
  have hrows : 0 < (ScreenSize.new columns rows).rows :=
    Nat.lt_of_lt_of_le Nat.one_pos (Nat.le_max_right _ _)
  generalize hsize : ScreenSize.new columns rows = size at *
  have hpoised := (Emulator.poised_new size scrollback hrows hpos).feed_chars hpos hchars
  rw [Page.newest_of_le (by rw [Page.height_type hpos]; exact hroom), ← hchunks] at hpoised
  have hfed : (chunks.foldl write (.new size scrollback)).emulator =
      (Emulator.new size.columns size.rows scrollback).feed chunks.flatten :=
    (foldl_write (.new size scrollback) chunks).1
  rw [← hfed] at hpoised
  have hshown : (chunks.foldl write (.new size scrollback)).textToCursor =
      if size.columns ∣ typed.length then typed.dropLast else typed :=
    hpoised.shows.textToCursor_type hpoised.atEnd hpos
  exact ⟨hshown, hshown ▸ ite_dropLast_eq_iff⟩

-- One character short of the margin, and at it.
theorem textToCursor_at_margin :
    ([[0x61, 0x62, 0x63, 0x64]].foldl write (.new (.new 5 3) 10)).textToCursor =
        ['a', 'b', 'c', 'd'] ∧
      ([[0x61, 0x62, 0x63], [0x64, 0x65]].foldl write (.new (.new 5 3) 10)).textToCursor =
        ['a', 'b', 'c', 'd'] := by
  have hchars : ∀ c ∈ ['a', 'b', 'c', 'd', 'e'], cellWidth? c = some 1 := by
    simp [cellWidth?, isControl]
  have hshort : ∀ c ∈ ['a', 'b', 'c', 'd'], cellWidth? c = some 1 :=
    fun c hc => hchars c (List.mem_append_left ['e'] hc)
  exact ⟨(textToCursor_typed 5 3 10 hshort (by decide +kernel) (by decide)).1,
    (textToCursor_typed 5 3 10 hchars (by decide +kernel) (by decide)).1⟩

-- A text that fills its row is not all there.
theorem textToCursor_ne_typed :
    ¬∀ (columns rows scrollback : Nat) (typed : Text), (∀ c ∈ typed, cellWidth? c = some 1) →
      Page.rowsFor (ScreenSize.new columns rows).columns typed ≤
          scrollback + (ScreenSize.new columns rows).rows →
        ((new (.new columns rows) scrollback).write (Utf8.encode typed)).textToCursor = typed := by
  intro h
  have htyped := h 5 3 10 ['a', 'b', 'c', 'd', 'e'] (by simp [cellWidth?, isControl])
    (by decide +kernel)
  revert htyped
  decide +kernel

end Terminal

end ShellTranscript
