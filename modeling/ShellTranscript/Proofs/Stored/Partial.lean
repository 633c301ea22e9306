import Mathlib.Tactic.Common
import ShellTranscript.Proofs.Json.Reading
import ShellTranscript.Proofs.Json.Writing
import ShellTranscript.Settings

-- Settings of which only some are told. However an object with some of the settings is written, what
-- is told is taken, what is not told is the default, and what is unknown leaves no trace. All
-- settings that are read make a screen with room for a character and a wait that outlasts the quiet
-- period.
namespace ShellTranscript

open Text Spelling JsonReader

namespace EchoSettings

-- Times are words of sixty-four bits.
structure Fits (s : EchoSettings) : Prop where
  quietPeriod : s.quietPeriod ≤ maxOffset
  longestWait : s.longestWait ≤ maxOffset

def known (s : EchoSettings) : List (String × Spelling) :=
  [("enabled", .bool s.enabled), ("debounce_ms", .number s.quietPeriod),
    ("max_delay_ms", .number s.longestWait)]

-- The settings that are there by name, and the default for the others.
def merge (there : Text → Bool) (s default : EchoSettings) : EchoSettings where
  enabled := if there "enabled".toList then s.enabled else default.enabled
  quietPeriod := if there "debounce_ms".toList then s.quietPeriod else default.quietPeriod
  longestWait := if there "max_delay_ms".toList then s.longestWait else default.longestWait

theorem builds {s : EchoSettings} (h : s.Fits) :
    Builds fields s.known {} fun there => s.merge there {} where
  start := rfl
  fields := by
    refine .cons (buildsField_of (reads_bool _) fun there => ?_) <|
      .cons (buildsField_of (reads_natural (by decide) h.quietPeriod) fun there => ?_) <|
      .cons (buildsField_of (reads_natural (by decide) h.longestWait) fun there => ?_) .nil
    all_goals simp only [merge, toList_beq, String.reduceEq, decide_true, decide_false, Bool.true_or,
      Bool.false_or, if_true]
  congr := by
    intro there there' h
    simp only [known, List.forall_mem_cons] at h
    simp only [merge, h]

theorem reads {s : EchoSettings} (h : s.Fits) {names : List Text} (honce : Once s.known names) :
    Reads read (object (told s.known) names) (s.merge names.contains {}) := by
  refine reads_record (builds h) honce fun f hf => .inl ?_
  simp only [fields, List.mem_cons, List.not_mem_nil, or_false] at hf
  rcases hf with rfl | rfl | rfl <;> rfl

end EchoSettings

namespace Settings

-- Sizes are words of sixteen bits, all else of sixty-four.
structure Fits (s : Settings) : Prop where
  columns : s.columns ≤ 0xFFFF
  rows : s.rows ≤ 0xFFFF
  scrollback : s.scrollback ≤ maxOffset
  sampleInterval : s.sampleInterval ≤ maxOffset
  echo : s.echo.Fits

-- The second argument are the members that are told of the echo.
def known (s : Settings) (echoNames : List Text) : List (String × Spelling) :=
  [("columns", .number s.columns), ("rows", .number s.rows),
    ("scrollback_lines", .number s.scrollback), ("scrape_interval_ms", .number s.sampleInterval),
    ("shell", .option .text s.shell), ("typeahead", .object (told s.echo.known) echoNames)]

def merge (there thereOfEcho : Text → Bool) (s default : Settings) : Settings where
  columns := if there "columns".toList then s.columns else default.columns
  rows := if there "rows".toList then s.rows else default.rows
  scrollback := if there "scrollback_lines".toList then s.scrollback else default.scrollback
  sampleInterval :=
    if there "scrape_interval_ms".toList then s.sampleInterval else default.sampleInterval
  shell := if there "shell".toList then s.shell else default.shell
  echo := if there "typeahead".toList then s.echo.merge thereOfEcho default.echo else default.echo

theorem builds {s : Settings} (h : s.Fits) {echoNames : List Text}
    (honce : Once s.echo.known echoNames) :
    Builds fields (s.known echoNames) {} fun there => s.merge there echoNames.contains {} where
  start := rfl
  fields := by
    have hecho := EchoSettings.reads h.echo honce
    refine .cons (buildsField_of (reads_natural (by decide) h.columns) fun there => ?_) <|
      .cons (buildsField_of (reads_natural (by decide) h.rows) fun there => ?_) <|
      .cons (buildsField_of (reads_natural (by decide) h.scrollback) fun there => ?_) <|
      .cons (buildsField_of (reads_natural (by decide) h.sampleInterval) fun there => ?_) <|
      .cons (buildsField_of (reads_optional_text _) fun there => ?_) <|
      .cons (buildsField_of hecho fun there => ?_) .nil
    all_goals simp only [merge, toList_beq, String.reduceEq, decide_true, decide_false, Bool.true_or,
      Bool.false_or, if_true]
  congr := by
    intro there there' h
    simp only [known, List.forall_mem_cons] at h
    simp only [merge, h]

theorem reads {s : Settings} (h : s.Fits) {names echoNames : List Text}
    (honce : Once (s.known echoNames) names) (honceEcho : Once s.echo.known echoNames) :
    Reads read (object (told (s.known echoNames)) names)
      (s.merge names.contains echoNames.contains {}) := by
  refine reads_record (builds h honceEcho) honce fun f hf => .inl ?_
  simp only [fields, List.mem_cons, List.not_mem_nil, or_false] at hf
  rcases hf with rfl | rfl | rfl | rfl | rfl | rfl <;> rfl

-- Any of the settings may be told, in any order and spelling, and with unknown members of any value
-- between them: what is told is as it was, and the rest is the default.
theorem ofJson_merges :
    (∀ (s : Settings) (names echoNames : List Text) (t : Text), s.Fits →
      Once (s.known echoNames) names → Once s.echo.known echoNames →
      document (object (told (s.known echoNames)) names) t →
        ofJson t = .ok (s.merge names.contains echoNames.contains {})) ∧
    ∀ t s, ofJson t = .ok s → 1 ≤ s.size.columns ∧ 1 ≤ s.size.rows ∧
      s.echo.quietPeriod ≤ s.echo.effectiveWait := by
  constructor
  · intro s names echoNames t hfits honce honceEcho ht
    exact (reads hfits honce honceEcho).document ht
  · intro t s _
    exact ⟨Nat.le_max_right _ _, Nat.le_max_right _ _, Nat.le_max_right _ _⟩

-- Two settings among unknown members.
def sparseEcho : List (String × JsonValue) := [("max_delay_ms", .number 0), ("y", .null)]

def sparse : List (String × JsonValue) :=
  [("x", .array [.null, .record []]), ("rows", .number 30), ("typeahead", .record sparseEcho)]

theorem ofJson_merges_sparse :
    ofJson (JsonValue.record sparse).write = .ok { rows := 30, echo := { longestWait := 0 } } := by
  let s : Settings := { rows := 30, columns := 7, echo := { longestWait := 0, enabled := false } }
  let names := sparse.map fun field => field.1.toList
  let echoNames := sparseEcho.map fun field => field.1.toList
  have hfits : s.Fits := ⟨by decide, by decide, by decide, by decide, by decide, by decide⟩
  have hecho : ∀ field ∈ sparseEcho, told s.echo.known field.1.toList field.2.write := by
    simp only [sparseEcho, List.forall_mem_cons, EchoSettings.known, told_cons, told_nil,
      String.reduceEq, if_true, if_false]
    exact ⟨rfl, JsonValue.any_write _, fun _ h => (List.not_mem_nil h).elim⟩
  have hsparse : ∀ field ∈ sparse, told (s.known echoNames) field.1.toList field.2.write := by
    simp only [sparse, List.forall_mem_cons, known, told_cons, told_nil, String.reduceEq, if_true,
      if_false]
    exact ⟨JsonValue.any_write _, rfl, JsonValue.record_write hecho,
      fun _ h => (List.not_mem_nil h).elim⟩
  have hmerged := ofJson_merges.1 s names echoNames _ hfits
    (once_of_nodup (by decide) _) (once_of_nodup (by decide) _)
    ⟨[], _, [], blanks_nil, JsonValue.record_write hsparse, blanks_nil, (List.append_nil _).symm⟩
  exact hmerged.trans (congrArg Except.ok (by decide +kernel))

end Settings

end ShellTranscript
