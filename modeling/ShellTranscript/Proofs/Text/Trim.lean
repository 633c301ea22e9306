import Mathlib.Data.List.DropRight
import ShellTranscript.Text.Blank

-- Texts without blanks at their ends.
namespace ShellTranscript.Text

theorem dropEndWhile_eq_self {p : Char → Bool} {t : Text}
    (h : ∀ c, t.getLast? = some c → p c = false) : dropEndWhile p t = t := by
  refine List.rdropWhile_eq_self_iff.mpr fun hne => ?_
  rw [h _ (List.getLast?_eq_some_getLast hne)]
  simp

theorem getLast?_of_dropEndWhile_eq_self {p : Char → Bool} {t : Text} (h : dropEndWhile p t = t)
    {c : Char} (hc : t.getLast? = some c) : p c = false := by
  have hne : t ≠ [] := by
    rintro rfl
    cases hc
  have hlast := List.rdropWhile_eq_self_iff.mp h hne
  rw [List.getLast?_eq_some_getLast hne, Option.some.injEq] at hc
  rwa [hc, Bool.not_eq_true] at hlast

theorem length_dropEndWhile_le (p : Char → Bool) (t : Text) : (dropEndWhile p t).length ≤ t.length :=
  (List.rdropWhile_prefix p t).length_le

theorem trimEnd_eq_nil_iff {t : Text} : trimEnd t = [] ↔ ∀ c ∈ t, isBlank c = true :=
  List.rdropWhile_eq_nil_iff

theorem trim_eq_nil {t : Text} (h : ∀ c ∈ t, isBlank c = true) : trim t = [] := by
  rw [trim, trimStart, dropStartWhile, List.dropWhile_eq_nil_iff.mpr h]
  rfl

theorem trim_ne_nil {t : Text} {c : Char} (hc : c ∈ t) (hblank : isBlank c = false) :
    trim t ≠ [] := by
  intro hnil
  have hrest := trimEnd_eq_nil_iff.mp hnil
  rw [← List.takeWhile_append_dropWhile (p := isBlank) (l := t), List.mem_append] at hc
  rcases hc with hc | hc
  · rw [List.mem_takeWhile_imp hc] at hblank
    cases hblank
  · rw [hrest c hc] at hblank
    cases hblank

-- Without blanks at either end there are none at the end.
theorem trimEnd_of_trim {t : Text} (h : trim t = t) : trimEnd t = t := by
  have hstart : trimStart t = t := by
    refine List.IsSuffix.eq_of_length_le (List.dropWhile_suffix isBlank) ?_
    have hle := length_dropEndWhile_le isBlank (trimStart t)
    have hlength := congrArg List.length h
    exact Nat.le_trans (Nat.le_of_eq hlength.symm) hle
  rw [trim, hstart] at h
  exact h

theorem getLast?_ne_space {t : Text} (h : trimEnd t = t) : t.getLast? ≠ some ' ' := by
  intro hspace
  exact absurd (getLast?_of_dropEndWhile_eq_self h hspace) (by decide)

theorem trim_eq_self {t : Text} (h : ∀ c ∈ t, isBlank c = false) : trim t = t := by
  have hstart : trimStart t = t := by
    rw [trimStart, dropStartWhile]
    refine List.dropWhile_eq_self_iff.mpr fun hne => ?_
    rw [h _ (List.getElem_mem hne)]
    simp
  rw [trim, hstart]
  exact dropEndWhile_eq_self fun c hc => h c (List.mem_of_getLast? hc)

end ShellTranscript.Text
