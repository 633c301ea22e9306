import Mathlib.Tactic.Common
import ShellTranscript.Proofs.Text.Trim
import ShellTranscript.Signal.Marker

-- What a payload denotes. Null characters at its ends do not count; the number in front of it decides
-- between a working directory and the life of a command, and of the fields behind the number only the
-- first two are read.
namespace ShellTranscript

namespace Text

section Fields

variable {separator : Char} {field : Text}

theorem fields_of_not_mem (h : separator ∉ field) : fields separator field = [field] := by
  induction field with
  | nil => rfl
  | cons c field ih =>
    rw [List.mem_cons, not_or] at h
    rw [fields, if_neg (Ne.symm h.1), ih h.2]

theorem fields_append (h : separator ∉ field) (rest : Text) :
    fields separator (field ++ separator :: rest) = field :: fields separator rest := by
  induction field with
  | nil => rw [List.nil_append, fields, if_pos rfl]
  | cons c field ih =>
    rw [List.mem_cons, not_or] at h
    rw [List.cons_append, fields, if_neg (Ne.symm h.1), ih h.2]

end Fields

-- What is cut off at the end stands behind the last character that is not to be cut off.
theorem dropEndWhile_append_cons {p : Char → Bool} {c : Char} (h : p c = false) (front back : Text) :
    dropEndWhile p (front ++ c :: back) = front ++ c :: dropEndWhile p back := by
  simp only [dropEndWhile, List.reverse_append, List.reverse_cons, List.append_assoc,
    List.singleton_append, List.dropWhile_append]
  split
  · rename_i hempty
    rw [List.isEmpty_iff.mp hempty, List.dropWhile_cons_of_neg (by simp [h])]
    simp
  · simp

end Text

namespace Signal.Marker

open Text

-- The numbers under which the life of a command is told.
def IsLife (number : Text) : Prop := number = "133".toList ∨ number = "633".toList

section Payloads

variable {nulls number kind argument : Text}

-- A payload that tells of the life of a command.
theorem ofPayload?_life (hnulls : ∀ c ∈ nulls, c = Char.ofNat 0) (hnumber : IsLife number)
    (rest : Text) : ofPayload? (nulls ++ (number ++ ';' :: rest)) =
      ofFields (fields ';' (dropEndWhile (· == Char.ofNat 0) rest)) := by
  have hstart : dropStartWhile (· == Char.ofNat 0) (nulls ++ (number ++ ';' :: rest)) =
      number ++ ';' :: rest := by
    rw [dropStartWhile, List.dropWhile_append_of_pos fun c hc => beq_iff_eq.mpr (hnulls c hc)]
    rcases hnumber with rfl | rfl <;> rfl
  have hend := dropEndWhile_append_cons (p := (· == Char.ofNat 0)) (c := ';') rfl number rest
  simp only [ofPayload?, hstart, hend]
  rcases hnumber with rfl | rfl <;> rfl

-- A payload that tells the working directory.
theorem ofPayload?_directory (hnulls : ∀ c ∈ nulls, c = Char.ofNat 0) (address : Text) :
    ofPayload? (nulls ++ '7' :: ';' :: address) =
      some (.workingDirectory (filePath (dropEndWhile (· == Char.ofNat 0) address))) := by
  have hstart : dropStartWhile (· == Char.ofNat 0) (nulls ++ '7' :: ';' :: address) =
      '7' :: ';' :: address := by
    rw [dropStartWhile, List.dropWhile_append_of_pos fun c hc => beq_iff_eq.mpr (hnulls c hc)]
    rfl
  have hend : dropEndWhile (· == Char.ofNat 0) ('7' :: ';' :: address) =
      '7' :: ';' :: dropEndWhile (· == Char.ofNat 0) address :=
    dropEndWhile_append_cons rfl ['7'] address
  simp only [ofPayload?, hstart, hend]
  rfl

theorem ofFields_cons_cons (kind argument : Text) (rest : List Text) :
    ofFields (kind :: argument :: rest) = ofFields [kind, argument] := by
  by_cases hprompt : kind = ['A']
  · rw [hprompt]
    rfl
  by_cases hinput : kind = ['B']
  · rw [hinput]
    rfl
  by_cases houtput : kind = ['C']
  · rw [houtput]
    rfl
  by_cases hexit : kind = ['D']
  · rw [hexit]
    rfl
  by_cases hline : kind = ['E']
  · rw [hline]
    rfl
  simp [ofFields, hprompt, hinput, houtput, hexit, hline]

-- Behind the end of its second field nothing is read any more.
theorem ofPayload?_closed (hnulls : ∀ c ∈ nulls, c = Char.ofNat 0) (hnumber : IsLife number)
    (hkind : ';' ∉ kind) (hargument : ';' ∉ argument) (rest : Text) :
    ofPayload? (nulls ++ (number ++ ';' :: (kind ++ ';' :: (argument ++ ';' :: rest)))) =
      ofFields [kind, argument] := by
  have hend := dropEndWhile_append_cons (p := (· == Char.ofNat 0)) (c := ';') rfl
    (kind ++ ';' :: argument) rest
  rw [List.append_assoc, List.cons_append, List.append_assoc, List.cons_append] at hend
  rw [ofPayload?_life hnulls hnumber, hend, fields_append hkind, fields_append hargument,
    ofFields_cons_cons]

theorem ofPayload?_fields (hnumber : IsLife number) (hkind : ';' ∉ kind) (hargument : ';' ∉ argument)
    (hend : ∀ c, argument.getLast? = some c → c ≠ Char.ofNat 0) :
    ofPayload? (number ++ ';' :: (kind ++ ';' :: argument)) = ofFields [kind, argument] := by
  have hlast : dropEndWhile (· == Char.ofNat 0) argument = argument :=
    dropEndWhile_eq_self fun c hc => beq_eq_false_iff_ne.mpr (hend c hc)
  have hpayload := ofPayload?_life (List.forall_mem_nil _) hnumber (kind ++ ';' :: argument)
  rwa [dropEndWhile_append_cons rfl, hlast, fields_append hkind, fields_of_not_mem hargument] at hpayload

theorem ofPayload?_commandLine {raw : Text} (hraw : ';' ∉ raw)
    (hend : ∀ c, raw.getLast? = some c → c ≠ Char.ofNat 0) :
    ofPayload? ("633;E;".toList ++ raw) = some (.commandLine (unescape raw)) := by
  have hkind : ';' ∉ ['E'] := by decide
  exact ofPayload?_fields (.inr rfl) hkind hraw hend

theorem unescape_cons_of_ne {c : Char} (hc : c ≠ '\\') (raw : Text) :
    unescape (c :: raw) = c :: unescape raw := by
  rw [unescape] <;> simp [hc]

theorem unescape_of_not_mem {raw : Text} (h : '\\' ∉ raw) : unescape raw = raw := by
  induction raw with
  | nil => rfl
  | cons c raw ih =>
    rw [List.mem_cons, not_or] at h
    rw [unescape_cons_of_ne (Ne.symm h.1), ih h.2]

end Payloads

end Signal.Marker

end ShellTranscript
