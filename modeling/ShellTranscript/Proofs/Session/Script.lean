import ShellTranscript.Event
import ShellTranscript.Proofs.Screen.Page
import ShellTranscript.Proofs.Screen.Spans
import ShellTranscript.Proofs.Text.Printable
import ShellTranscript.Settings

-- The output of a shell that runs one command after the other and marks where each of them is in its
-- life.
namespace ShellTranscript

open Text

-- A command with the prompt it was typed at, the lines it wrote and the exit code it ended with.
structure Episode where
  prompt : Text
  command : Text
  output : List Text
  exitCode : Int

namespace Episode

-- A string for the operating system, which ends with BEL.
def mark (payload : Text) : List UInt8 := [0x1B, 0x5D] ++ Utf8.encode payload ++ [0x07]

def lineEnd : List UInt8 := [0x0D, 0x0A]

def lineBytes (line : Text) : List UInt8 := Utf8.encode line ++ lineEnd

def promptMark : Text := "133;A".toList

def inputMark : Text := "133;B".toList

def outputMark : Text := "133;C".toList

def exitMark (exitCode : Int) : Text := "133;D;".toList ++ decimal exitCode

variable (e : Episode)

-- What the terminal receives.
def bytes : List UInt8 :=
  mark promptMark ++ (Utf8.encode e.prompt ++ mark inputMark) ++
    (lineBytes e.command ++ mark outputMark) ++
      (e.output.flatMap lineBytes ++ mark (exitMark e.exitCode))

def outputText : Text := e.output.flatMap fun line => line ++ ['\n']

-- The text of its block, which does not end in the last line feed.
def text : Text := (e.prompt ++ e.command ++ ['\n'] ++ e.outputText).dropLast

-- The prompt is short and not blank, the command has no blanks around it and no line of the output
-- has any at its end. What is typed and what is written each find room in the scrollback.
@[mk_iff]
structure Proper (settings : Settings) : Prop where
  prompt : ∀ c ∈ e.prompt, Printable c
  promptShown : trim e.prompt ≠ []
  promptShort : e.prompt.length < settings.size.columns
  command : ∀ c ∈ e.command, Printable c
  commandTrimmed : trim e.command = e.command
  commandGiven : e.command ≠ []
  output : ∀ line ∈ e.output, ∀ c ∈ line, Printable c
  outputTrimmed : ∀ line ∈ e.output, trimEnd line = line
  lowExit : -0x80000000 ≤ e.exitCode
  highExit : e.exitCode ≤ 0x7FFFFFFF
  inputFits : Page.rowsFor settings.size.columns (e.prompt ++ e.command) + 1 ≤
    settings.scrollback + settings.size.rows
  outputFits : Page.rowsForAll settings.size.columns e.output + 1 ≤
    settings.scrollback + settings.size.rows

instance (settings : Settings) : Decidable (e.Proper settings) :=
  decidable_of_iff' _ (e.proper_iff settings)

-- The text that all blocks make up, one line feed between two of them.
def document (script : List Episode) : Text := ['\n'].intercalate (script.map text)

-- The text that the block after some others stands behind.
def opening (done : List Episode) : Text := done.flatMap fun e => e.text ++ ['\n']

theorem text_concat : e.text ++ ['\n'] = e.prompt ++ e.command ++ ['\n'] ++ e.outputText := by
  have hends : ∃ t, e.prompt ++ e.command ++ ['\n'] ++ e.outputText = t ++ ['\n'] := by
    rw [outputText]
    rcases List.eq_nil_or_concat e.output with hnil | ⟨lines, line, hlines⟩
    · exact ⟨e.prompt ++ e.command, by rw [hnil, List.flatMap_nil, List.append_nil]⟩
    · refine ⟨e.prompt ++ e.command ++ ['\n'] ++ lines.flatMap (fun line => line ++ ['\n']) ++ line, ?_⟩
      simp [hlines]
  obtain ⟨t, ht⟩ := hends
  rw [text, ht, List.dropLast_concat]

theorem document_append (done : List Episode) (e : Episode) (todo : List Episode) :
    document (done ++ e :: todo) = opening done ++ document (e :: todo) := by
  induction done with
  | nil => rfl
  | cons d done ih =>
    have hne : (done ++ e :: todo).map text ≠ [] := by simp
    rw [document, List.cons_append, List.map_cons, List.intercalate_cons_of_ne_nil hne, ← document, ih,
      opening, opening, List.flatMap_cons, List.append_assoc (d.text ++ ['\n'])]

theorem document_concat (done : List Episode) (e : Episode) :
    document (done ++ [e]) = opening done ++ e.text := by
  rw [document_append, document, List.map_singleton, List.intercalate_singleton]

theorem opening_concat (done : List Episode) (e : Episode) :
    opening (done ++ [e]) = opening done ++ e.text ++ ['\n'] := by
  simp [opening]

theorem document_prefix (done : List Episode) (e : Episode) :
    document done <+: document (done ++ [e]) := by
  rcases List.eq_nil_or_concat done with rfl | ⟨before, d, rfl⟩
  · exact List.nil_prefix
  · rw [List.concat_eq_append, document_concat _ e, opening_concat, document_concat, List.append_assoc]
    exact List.prefix_append _ _

-- What is written for a command is never more than the whole, but for the last line feed.
theorem opening_prefix (done : List Episode) (e : Episode) (todo : List Episode) :
    opening done ++ e.text <+: document (done ++ e :: todo) := by
  have hfirst : e.text <+: document (e :: todo) := by
    cases todo with
    | nil => simp [document]
    | cons d todo =>
      rw [document, List.map_cons, List.intercalate_cons_of_ne_nil (by simp), List.append_assoc]
      exact List.prefix_append _ _
  rw [document_append]
  exact List.prefix_append_right_inj _ |>.mpr hfirst

end Episode

-- What is told of commands when so many have run before them.
inductive Announced : Nat → List Episode → List Event → Prop where
  | nothing (n : Nat) : Announced n [] []
  | command {n : Nat} {e : Episode} {todo : List Episode} {events : List Event} {output : Snapshot}
      (text : output.text = e.outputText) (main : output.alternate = false)
      (epoch : output.epoch = 2 * n + 1) (inside : output.RangesInside)
      (rest : Announced (n + 1) todo events) :
      Announced n (e :: todo) (.commandStarted (some e.command) (some e.prompt) (2 * n + 1) ::
        .commandFinished e.exitCode output :: events)

-- A snapshot taken while one of the commands runs shows no more than its output.
def Snapshot.Genuine (all : List Episode) (output : Snapshot) : Prop :=
  ∀ n e, all[n]? = some e → output.epoch = 2 * n + 1 →
    byteLength output.text ≤ byteLength e.outputText

theorem Snapshot.genuine_of_even {all : List Episode} {output : Snapshot} {n : Nat}
    (h : output.epoch = 2 * n) : output.Genuine all := by
  intro m e _ hodd
  omega

end ShellTranscript
