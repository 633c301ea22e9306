import ShellTranscript.Proofs.Text.Cut
import ShellTranscript.Proofs.Text.Trim
import ShellTranscript.Signal.TypedCommand

-- What the recovered command is, by the shape of the text it is recovered from: what was typed behind
-- a prompt, or the last line where no prompt is found, each without the blanks around it. The trims
-- and the last line are described by how the text is put together, not by the functions that find
-- them; every description fits one text at most.
namespace ShellTranscript.Text

-- A text and what is left of it without the blanks at its end.
structure TrimmedEnd (t kept : Text) : Prop where
  behind : ∃ blanks : Text, (∀ c ∈ blanks, isBlank c = true) ∧ t = kept ++ blanks
  last : ∀ c, kept.getLast? = some c → isBlank c = false

-- A text and what is left of it without the blanks around it.
structure Trimmed (t core : Text) : Prop where
  around : ∃ front back : Text, (∀ c ∈ front, isBlank c = true) ∧ (∀ c ∈ back, isBlank c = true) ∧
    t = front ++ core ++ back
  first : ∀ c, core.head? = some c → isBlank c = false
  last : ∀ c, core.getLast? = some c → isBlank c = false

-- A text and its last line, which starts where the text does or behind a line feed.
structure LastLine (t line : Text) : Prop where
  ahead : ∃ front : Text, (front = [] ∨ ∃ lines, front = lines ++ ['\n']) ∧ t = front ++ line
  unbroken : '\n' ∉ line

-- The command that was typed: the text without the blanks around it, and none if it is all blank.
def Names (typed : Text) : Option Text → Prop
  | none => ∀ c ∈ typed, isBlank c = true
  | some command => command ≠ [] ∧ Trimmed typed command

theorem trimEnd_append_blanks {blanks : Text} (h : ∀ c ∈ blanks, isBlank c = true) (t : Text) :
    trimEnd (t ++ blanks) = trimEnd t := by
  have hrev : ∀ c ∈ blanks.reverse, isBlank c = true := fun c hc => h c (List.mem_reverse.mp hc)
  simp only [trimEnd, dropEndWhile, List.reverse_append, List.dropWhile_append_of_pos hrev]

theorem trimmedEnd_trimEnd (t : Text) : TrimmedEnd t (trimEnd t) where
  behind := by
    refine ⟨(t.reverse.takeWhile isBlank).reverse, fun c hc => ?_, ?_⟩
    · exact List.mem_takeWhile_imp (List.mem_reverse.mp hc)
    · exact (dropEndWhile_append_removed isBlank t).symm
  last := by
    have hagain : trimEnd (trimEnd t) = trimEnd t := List.rdropWhile_idempotent isBlank t
    exact fun c hc => getLast?_of_dropEndWhile_eq_self hagain hc

theorem TrimmedEnd.trimEnd_eq {t kept : Text} (h : TrimmedEnd t kept) : trimEnd t = kept := by
  obtain ⟨blanks, hblanks, rfl⟩ := h.behind
  rw [trimEnd_append_blanks hblanks]
  exact dropEndWhile_eq_self h.last

-- Behind a text that does not end in a blank, only the blanks of the rest are removed.
theorem trimEnd_append {front : Text} (hfront : ∀ c, front.getLast? = some c → isBlank c = false)
    (rest : Text) : trimEnd (front ++ rest) = front ++ trimEnd rest := by
  obtain ⟨blanks, hblanks, hrest⟩ := (trimmedEnd_trimEnd rest).behind
  have hkept : TrimmedEnd (front ++ rest) (front ++ trimEnd rest) := by
    refine ⟨⟨blanks, hblanks, ?_⟩, fun c hc => ?_⟩
    · rw [List.append_assoc, ← hrest]
    · by_cases hnil : trimEnd rest = []
      · rw [hnil, List.append_nil] at hc
        exact hfront c hc
      · rw [List.getLast?_append_of_ne_nil _ hnil] at hc
        exact (trimmedEnd_trimEnd rest).last c hc
  exact hkept.trimEnd_eq

theorem trim_blanks_append {blanks : Text} (h : ∀ c ∈ blanks, isBlank c = true) (t : Text) :
    trim (blanks ++ t) = trim t := by
  rw [trim, trim, trimStart, dropStartWhile, List.dropWhile_append_of_pos h]
  rfl

theorem trim_append_blanks {blanks : Text} (h : ∀ c ∈ blanks, isBlank c = true) (t : Text) :
    trim (t ++ blanks) = trim t := by
  by_cases hall : ∀ c ∈ t, isBlank c = true
  · rw [trim_blanks_append hall, trim_eq_nil h, trim_eq_nil hall]
  · have hrest : t.dropWhile isBlank ≠ [] := fun hnil => hall (List.dropWhile_eq_nil_iff.mp hnil)
    have hstart : trimStart (t ++ blanks) = trimStart t ++ blanks := by
      simp only [trimStart, dropStartWhile, List.dropWhile_append, List.isEmpty_iff, hrest, if_false]
    rw [trim, hstart, trimEnd_append_blanks h]
    rfl

theorem trimmed_trim (t : Text) : Trimmed t (trim t) where
  around := by
    obtain ⟨back, hback, hstart⟩ := (trimmedEnd_trimEnd (trimStart t)).behind
    refine ⟨t.takeWhile isBlank, back, fun c hc => List.mem_takeWhile_imp hc, hback, ?_⟩
    rw [List.append_assoc]
    exact (List.takeWhile_append_dropWhile (p := isBlank) (l := t)).symm.trans
      (congrArg (t.takeWhile isBlank ++ ·) hstart)
  first := by
    intro c hc
    obtain ⟨back, -, hstart⟩ := (trimmedEnd_trimEnd (trimStart t)).behind
    have hhead : (t.dropWhile isBlank).head? = some c := by
      have hfirst : (trimStart t).head? = some c := by
        rw [hstart, List.head?_append]
        exact congrArg (·.or back.head?) hc
      exact hfirst
    exact Bool.eq_false_iff.mpr (by simpa [hhead] using List.head?_dropWhile_not isBlank t)
  last := (trimmedEnd_trimEnd (trimStart t)).last

theorem Trimmed.trim_eq {t core : Text} (h : Trimmed t core) : trim t = core := by
  obtain ⟨front, back, hfront, hback, rfl⟩ := h.around
  rw [trim_append_blanks hback, trim_blanks_append hfront]
  have hstart : trimStart core = core := by
    rw [trimStart, dropStartWhile]
    refine List.dropWhile_eq_self_iff.mpr fun hne => ?_
    rw [h.first _ (List.head?_eq_getElem? ▸ List.getElem?_eq_getElem hne)]
    simp
  rw [trim, hstart]
  exact dropEndWhile_eq_self h.last

-- What is left of a text without the blanks around it, if anything is.
def core? (typed : Text) : Option Text :=
  if (trim typed).isEmpty then none else some (trim typed)

-- What was typed has one name only.
theorem names_iff {typed : Text} {answer : Option Text} :
    Names typed answer ↔ core? typed = answer := by
  by_cases hnil : trim typed = []
  · have hblank : ∀ c ∈ typed, isBlank c = true := by
      intro c hc
      by_contra hc'
      exact trim_ne_nil hc (Bool.eq_false_iff.mpr hc') hnil
    have hnone : core? typed = none := by rw [core?, hnil]; rfl
    cases answer with
    | none => exact iff_of_true hblank hnone
    | some command =>
      rw [hnone]
      refine iff_of_false (fun h => h.1 ?_) (by simp)
      rw [← h.2.trim_eq, hnil]
  · have hsome : core? typed = some (trim typed) := if_neg (by simpa using hnil)
    cases answer with
    | none => exact iff_of_false (fun h => hnil (trim_eq_nil h)) (by simp [hsome])
    | some command =>
      rw [hsome, Option.some.injEq]
      constructor
      · intro h
        exact h.2.trim_eq
      · rintro rfl
        exact ⟨hnil, trimmed_trim typed⟩

theorem lastLine_lastLine (t : Text) : LastLine t (lastLine t) where
  ahead := ⟨earlierLines t, earlierLines_eq t, (earlierLines_append_lastLine t).symm⟩
  unbroken := by
    intro hmem
    have hne := List.mem_takeWhile_imp (List.mem_reverse.mp hmem)
    simp at hne

theorem LastLine.eq {t line : Text} (h : LastLine t line) : lastLine t = line := by
  obtain ⟨front, hfront, rfl⟩ := h.ahead
  have hearlier : earlierLines (front ++ line) = front ++ earlierLines line :=
    earlierLines_append hfront line
  have hunbroken : earlierLines line = [] := by
    rcases earlierLines_eq line with hnil | ⟨lines, hlines⟩
    · exact hnil
    · refine absurd ?_ h.unbroken
      rw [← earlierLines_append_lastLine line, hlines]
      simp
  have hwhole := earlierLines_append_lastLine (front ++ line)
  rw [hearlier, hunbroken, List.append_nil] at hwhole
  exact List.append_cancel_left hwhole

-- Behind what is shown of a prompt, the blanks that the prompt ends in make no difference: with or
-- without them, the same command is left.
theorem typedCommand_behind {prompt rest : Text} (hprompt : trimEnd prompt ≠ []) :
    typedCommand (trimEnd prompt ++ rest) (some prompt) = core? rest := by
  obtain ⟨blanks, hblanks, hwhole⟩ := (trimmedEnd_trimEnd prompt).behind
  have hend : trimEnd (trimEnd prompt ++ rest) = trimEnd prompt ++ trimEnd rest :=
    trimEnd_append (trimmedEnd_trimEnd prompt).last rest
  have hshown : dropBeginning? (trimEnd prompt) (trimEnd prompt ++ trimEnd rest) =
      some (trimEnd rest) := dropBeginning?_eq_some_iff.mpr rfl
  obtain ⟨after, hafter, hcore⟩ : ∃ after,
      (dropBeginning? prompt (trimEnd prompt ++ trimEnd rest) <|>
        dropBeginning? (trimEnd prompt) (trimEnd prompt ++ trimEnd rest)) = some after ∧
      trim after = trim (trimEnd rest) := by
    cases hdrop : dropBeginning? prompt (trimEnd prompt ++ trimEnd rest) with
    | none => exact ⟨trimEnd rest, hshown, rfl⟩
    | some after =>
      refine ⟨after, rfl, ?_⟩
      have hsplit := dropBeginning?_eq_some_iff.mp hdrop
      rw [hwhole, List.append_assoc] at hsplit
      rw [trimEnd_append (trimmedEnd_trimEnd prompt).last, trimEnd_eq_nil_iff.mpr hblanks,
        List.append_nil] at hsplit
      rw [List.append_cancel_left hsplit, trim_blanks_append hblanks]
  have hrest : trim (trimEnd rest) = trim rest := by
    obtain ⟨back, hback, hsplit⟩ := (trimmedEnd_trimEnd rest).behind
    rw [hsplit, trim_append_blanks hback, ← hsplit]
  simp only [typedCommand, hend, Option.bind_some, List.isEmpty_iff, hprompt, if_false, hafter,
    Option.getD_some, hcore, hrest, core?]

theorem typedCommand_prompted {prompt blanks : Text} (hprompt : trimEnd prompt ≠ [])
    (hblanks : ∀ c ∈ blanks, isBlank c = true) (typed : Text) :
    typedCommand (prompt ++ typed ++ blanks) (some prompt) = core? typed := by
  obtain ⟨behind, hbehind, hsplit⟩ := (trimmedEnd_trimEnd prompt).behind
  have hwhole : prompt ++ typed ++ blanks = trimEnd prompt ++ (behind ++ (typed ++ blanks)) := by
    rw [← List.append_assoc (trimEnd prompt), ← hsplit, List.append_assoc]
  rw [hwhole, typedCommand_behind hprompt, core?, trim_blanks_append hbehind,
    trim_append_blanks hblanks, core?]

-- A command without blanks around it is recovered as it is.
theorem typedCommand_append {prompt command : Text} (hprompt : trim prompt ≠ [])
    (hcommand : trim command = command) (hne : command ≠ []) :
    typedCommand (prompt ++ command ++ ['\n']) (some prompt) = some command := by
  have hshown : trimEnd prompt ≠ [] := fun hnil =>
    hprompt (trim_eq_nil (trimEnd_eq_nil_iff.mp hnil))
  have hlineFeed : ∀ c ∈ ['\n'], isBlank c = true := List.forall_mem_singleton.mpr rfl
  rw [typedCommand_prompted hshown hlineFeed, core?, hcommand, if_neg (by simpa using hne)]

-- Without a prompt that the text starts with, the last line counts.
theorem typedCommand_unprompted {text : Text} {prompt : Option Text}
    (hprompt : ∀ p ∈ prompt, trimEnd p = [] ∨ ¬ p <+: text ∧ ¬ trimEnd p <+: text) :
    typedCommand text prompt = core? (lastLine (trimEnd text)) := by
  have hbeginning : ∀ {p : Text}, ¬ p <+: text → dropBeginning? p (trimEnd text) = none := by
    intro p hp
    rw [Option.eq_none_iff_forall_ne_some]
    intro rest hrest
    have hkept : p <+: trimEnd text := ⟨rest, (dropBeginning?_eq_some_iff.mp hrest).symm⟩
    exact hp (hkept.trans (List.rdropWhile_prefix isBlank text))
  have hnone : (prompt.bind fun p =>
      if (trimEnd p).isEmpty then none
      else dropBeginning? p (trimEnd text) <|> dropBeginning? (trimEnd p) (trimEnd text)) =
      none := by
    cases prompt with
    | none => rfl
    | some p =>
      rcases hprompt p rfl with hblank | ⟨hwhole, hshown⟩
      · rw [Option.bind_some, hblank]
        rfl
      · rw [Option.bind_some, hbeginning hwhole, hbeginning hshown]
        exact ite_self none
  simp only [typedCommand, hnone, Option.getD_none, core?]

-- Behind a prompt that is not all blank, the command is what was typed, without the blanks around
-- it; where the text starts with no prompt, it is the last line without them. All blank is none.
theorem typedCommand_iff_names :
    (∀ prompt typed blanks : Text, (∃ c ∈ prompt, isBlank c = false) →
      (∀ c ∈ blanks, isBlank c = true) → ∀ answer,
        typedCommand (prompt ++ typed ++ blanks) (some prompt) = answer ↔ Names typed answer) ∧
    ∀ (text : Text) (prompt : Option Text),
      (∀ p ∈ prompt, (∀ c ∈ p, isBlank c = true) ∨
        ¬ p <+: text ∧ ∀ shown, TrimmedEnd p shown → ¬ shown <+: text) → ∀ answer,
      (typedCommand text prompt = answer ↔
        ∃ kept line, TrimmedEnd text kept ∧ LastLine kept line ∧ Names line answer) := by
  constructor
  · intro prompt typed blanks ⟨c, hc, hblank⟩ hblanks answer
    have hshown : trimEnd prompt ≠ [] := by
      intro hnil
      rw [trimEnd_eq_nil_iff.mp hnil c hc] at hblank
      cases hblank
    rw [typedCommand_prompted hshown hblanks, names_iff]
  · intro text prompt hprompt answer
    have hnot : ∀ p ∈ prompt, trimEnd p = [] ∨ ¬ p <+: text ∧ ¬ trimEnd p <+: text := by
      intro p hp
      rcases hprompt p hp with hblank | ⟨hwhole, hshown⟩
      · exact Or.inl (trimEnd_eq_nil_iff.mpr hblank)
      · exact Or.inr ⟨hwhole, hshown _ (trimmedEnd_trimEnd p)⟩
    rw [typedCommand_unprompted hnot]
    constructor
    · intro h
      exact ⟨_, _, trimmedEnd_trimEnd text, lastLine_lastLine _, names_iff.mpr h⟩
    · rintro ⟨kept, line, hkept, hline, hnames⟩
      rw [hkept.trimEnd_eq, hline.eq]
      exact names_iff.mp hnames

theorem typedCommand_names_instances :
    Names ['l', 's'] (some ['l', 's']) ∧
      ∃ kept line, TrimmedEnd ['h', 'i', '\n', '%', ' ', 'l', 's', '\n'] kept ∧ LastLine kept line ∧
        Names line (some ['%', ' ', 'l', 's']) := by
  have hother : ∀ p ∈ some ['>'], (∀ c ∈ p, isBlank c = true) ∨
      ¬ p <+: ['h', 'i', '\n', '%', ' ', 'l', 's', '\n'] ∧
        ∀ shown, TrimmedEnd p shown → ¬ shown <+: ['h', 'i', '\n', '%', ' ', 'l', 's', '\n'] := by
    rintro p ⟨rfl⟩
    refine Or.inr ⟨by decide, ?_⟩
    rintro shown hshown
    rw [← hshown.trimEnd_eq]
    decide
  exact ⟨(typedCommand_iff_names.1 ['$', ' '] ['l', 's'] ['\n'] ⟨'$', by decide, by decide⟩
      (List.forall_mem_singleton.mpr rfl) (some ['l', 's'])).mp (by decide),
    (typedCommand_iff_names.2 _ _ hother (some ['%', ' ', 'l', 's'])).mp (by decide)⟩

end ShellTranscript.Text
