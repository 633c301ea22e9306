import Mathlib.Tactic.Common
import ShellTranscript.Proofs.Recorder.Advance

-- Frames tell what came of commands. A frame is put at the start, with some output or at the end, and
-- each time it is found out anew whether its block is the first one. Whatever is done to a recorder,
-- the frames of all blocks that are listed agree with their exit codes, with what the blocks were
-- started with and with their places.
namespace ShellTranscript

open Transcript

-- There is something to show of a heading.
def Heading.IsShown (heading : Heading) : Prop :=
  (∃ command, heading.command = some command ∧ command ≠ []) ∨
    ∃ prompt, heading.prompt = some prompt ∧ prompt ≠ []

theorem Heading.isShown_iff (heading : Heading) : heading.IsShown ↔
    ((notEmpty heading.prompt).isSome || (notEmpty heading.command).isSome) = true := by
  obtain ⟨command, prompt⟩ := heading
  cases command <;> cases prompt <;> simp [IsShown, notEmpty, Option.filter, or_comm]

namespace Block

-- What a block at its place shows of what it was started with and of how it ended.
structure TellsOutcome (place : Nat) (heading : Heading) (b : Block) : Prop where
  command : b.command = notEmpty heading.command
  prompt : b.prompt = notEmpty heading.prompt
  error_iff : b.frame.map Frame.state = some .error ↔
    ∃ exitCode, b.exitCode = some exitCode ∧ exitCode ≠ 0
  framed : heading.IsShown → b.frame ≠ none
  first_iff : ∀ frame, b.frame = some frame → (frame.firstBlock = true ↔ place = 0)

-- The identity of a block is the number of its start. An open block has no exit code yet.
structure Recorded (headings : List Heading) (place : Nat) (b : Block) : Prop where
  tells : ∃ heading, headings[b.id]? = some heading ∧ b.TellsOutcome place heading
  unfinished : b.isOpen = true → b.exitCode = none

section Frames

variable {headings : List Heading} {heading : Heading} {place : Nat} {b b' : Block} {first : Bool}

theorem TellsOutcome.congr (h : b.TellsOutcome place heading) (hcommand : b'.command = b.command)
    (hprompt : b'.prompt = b.prompt) (hexit : b'.exitCode = b.exitCode) (hframe : b'.frame = b.frame) :
    b'.TellsOutcome place heading :=
  ⟨hcommand.trans h.command, hprompt.trans h.prompt, by rw [hframe, hexit]; exact h.error_iff,
    by rw [hframe]; exact h.framed, by rw [hframe]; exact h.first_iff⟩

theorem recorded_card_iff : b.card.Recorded headings place ↔ b.Recorded headings place := by
  constructor
  · rintro ⟨⟨heading, hheading, htells⟩, hunfinished⟩
    exact ⟨⟨heading, hheading, htells.congr rfl rfl rfl rfl⟩, hunfinished⟩
  · rintro ⟨⟨heading, hheading, htells⟩, hunfinished⟩
    exact ⟨⟨heading, hheading, htells.congr rfl rfl rfl rfl⟩, hunfinished⟩

theorem Recorded.append (h : b.Recorded headings place) (more : List Heading) :
    b.Recorded (headings ++ more) place := by
  obtain ⟨⟨heading, hheading, htells⟩, hunfinished⟩ := h
  refine ⟨⟨heading, ?_, htells⟩, hunfinished⟩
  have hlt := (List.getElem?_eq_some_iff.mp hheading).1
  rwa [List.getElem?_append_left hlt]

theorem Recorded.close (h : b.Recorded headings place) : b.close.Recorded headings place := by
  obtain ⟨⟨heading, hheading, htells⟩, -⟩ := h
  exact ⟨⟨heading, hheading, htells.congr rfl rfl rfl rfl⟩,
    fun hopen => absurd hopen Bool.false_ne_true⟩

-- A block that has no frame when one is put did not fail.
theorem Recorded.framed (h : b.Recorded headings place) (hfirst : first = true ↔ place = 0) :
    (b.framed first).Recorded headings place := by
  obtain ⟨⟨heading, hheading, htells⟩, hunfinished⟩ := h
  have herror := htells.error_iff
  refine ⟨⟨heading, hheading, htells.command, htells.prompt, ?_, fun _ => Option.some_ne_none _, ?_⟩,
    hunfinished⟩
  · cases hold : b.frame with
    | none => simpa [Block.framed, hold] using herror
    | some old => simpa [Block.framed, hold] using herror
  · intro frame hframe
    obtain rfl := Option.some.inj hframe
    cases hold : b.frame with
    | none => exact hfirst
    | some old => exact htells.first_iff old hold

theorem recorded_begun {id : Nat} (hheading : headings[id]? = some heading)
    (hfirst : first = true ↔ place = 0) :
    (begun id first (notEmpty heading.command) (notEmpty heading.prompt)).Recorded headings place := by
  rw [begun]
  split
  · refine ⟨⟨heading, hheading, rfl, rfl, ?_, fun _ => Option.some_ne_none _, ?_⟩, fun _ => rfl⟩
    · simp [Block.framed, opened]
    · intro frame hframe
      obtain rfl := Option.some.inj hframe
      exact hfirst
  · rename_i hbare
    rw [← heading.isShown_iff] at hbare
    refine ⟨⟨heading, hheading, rfl, rfl, ?_, fun hshown => absurd hshown hbare, ?_⟩, fun _ => rfl⟩
    · simp [opened]
    · intro frame hframe
      cases hframe

theorem Recorded.concluded (h : b.Recorded headings place) (hopen : b.isOpen = true)
    (hfirst : first = true ↔ place = 0) (exitCode : Int) :
    (b.concluded first exitCode).Recorded headings place := by
  obtain ⟨⟨heading, hheading, htells⟩, hunfinished⟩ := h
  rw [Block.concluded]
  split
  · rename_i hfailed
    refine ⟨⟨heading, hheading, htells.command, htells.prompt, ?_, fun _ => Option.some_ne_none _, ?_⟩,
      fun hfinished => absurd hfinished Bool.false_ne_true⟩
    · simp [Block.failed, Block.finish, hfailed]
    · intro frame hframe
      obtain rfl := Option.some.inj hframe
      cases hold : b.frame with
      | none => simpa [Block.finish, hold] using hfirst
      | some old => simpa [Block.finish, hold] using htells.first_iff old hold
  · rename_i hzero
    have herror := htells.error_iff
    rw [not_not] at hzero
    rw [hunfinished hopen] at herror
    refine ⟨⟨heading, hheading, htells.command, htells.prompt, ?_, htells.framed, htells.first_iff⟩,
      fun hfinished => absurd hfinished Bool.false_ne_true⟩
    simpa [Block.finish, hzero] using herror

end Frames

end Block

namespace Transcript

def AllRecorded (headings : List Heading) (blocks : List Block) : Prop :=
  ∀ (place : Nat) (b : Block), blocks[place]? = some b → b.Recorded headings place

-- Every start has its heading, and every card tells of its own.
structure Recorded (headings : List Heading) (t : Transcript) : Prop where
  rolled : t.Rolled
  counted : headings.length = t.nextId
  cards : AllRecorded headings t.cards

section Operations

variable {headings : List Heading} {heading : Heading} {t t' : Transcript} {front : List Block}
  {c : Block} {id : Nat}

theorem allRecorded_concat : AllRecorded headings (front ++ [c]) ↔
    AllRecorded headings front ∧ c.Recorded headings front.length := by
  constructor
  · intro h
    refine ⟨fun place b hb => h place b ?_, h front.length c List.getElem?_concat_length⟩
    rwa [List.getElem?_append_left (List.getElem?_eq_some_iff.mp hb).1]
  · rintro ⟨hfront, hc⟩ place b hb
    rcases Nat.lt_or_ge place front.length with hlt | hge
    · rw [List.getElem?_append_left hlt] at hb
      exact hfront place b hb
    · rw [List.getElem?_append_right hge, List.getElem?_eq_some_iff] at hb
      obtain ⟨hlt, rfl⟩ := hb
      rw [List.length_singleton, Nat.lt_one_iff] at hlt
      obtain rfl : place = front.length := by omega
      simpa using hc

theorem allRecorded_nil (headings : List Heading) : AllRecorded headings [] := by
  intro place b hb
  cases hb

theorem AllRecorded.append (h : AllRecorded headings front) (more : List Heading) :
    AllRecorded (headings ++ more) front :=
  fun place b hb => (h place b hb).append more

theorem isEmpty_iff_length (blocks : List Block) : blocks.isEmpty = true ↔ blocks.length = 0 := by
  rw [List.isEmpty_iff, List.length_eq_zero_iff]

theorem Recorded.of_same (h : t.Recorded headings) (hcards : t.SameCards t') :
    t'.Recorded headings :=
  ⟨hcards.sameRoll.rolled h.rolled, h.counted.trans hcards.nextId.symm, hcards.cards ▸ h.cards⟩

theorem Recorded.write (h : t.Recorded headings) (hactive : t.activeBlock?.map Block.id = some id)
    {output : Snapshot} (hwritten : t.writeOutput id output = .ok t') : t'.Recorded headings := by
  have hlists := lists_of_active hactive
  have hroll := (hlists.yields_writeOutput output).of_ok hwritten
  obtain ⟨front, c, hcards, rfl, -⟩ := exists_cards_of_active hactive
  obtain ⟨hnext, hcards'⟩ :=
    ((hlists.retouches_writeOutput output).of_ok hwritten).last h.rolled.numbered hcards
  have hall := h.cards
  rw [hcards, allRecorded_concat] at hall
  refine ⟨hroll.rolled h.rolled, h.counted.trans hnext.symm, ?_⟩
  rcases hcards' with hcards' | hcards'
  · rw [hcards', allRecorded_concat]
    exact hall
  · rw [hcards', allRecorded_concat]
    exact ⟨hall.1, hall.2.framed (isEmpty_iff_length front)⟩

theorem Recorded.conclude (h : t.Recorded headings) (hactive : t.activeBlock?.map Block.id = some id)
    {exitCode : Int} (hconcluded : t.conclude id exitCode = .ok t') : t'.Recorded headings := by
  have hlists := lists_of_active hactive
  obtain ⟨entries, hroll⟩ := exists_roll_of_active hactive
  obtain ⟨hnext, hroll'⟩ := (h.rolled.conclude hroll exitCode).of_ok hconcluded
  obtain ⟨front, c, hcards, rfl, hopen⟩ := exists_cards_of_active hactive
  obtain ⟨-, hcards'⟩ := ((hlists.concludes exitCode).of_ok hconcluded).last h.rolled.numbered hcards
  have hall := h.cards
  rw [hcards, allRecorded_concat] at hall
  refine ⟨(h.rolled.of_front hroll hnext hroll').1, h.counted.trans hnext.symm, ?_⟩
  rcases hcards' with hcards' | hcards'
  · rw [hcards']
    exact hall.1
  · rw [hcards', allRecorded_concat]
    exact ⟨hall.1, hall.2.concluded hopen (isEmpty_iff_length front) exitCode⟩

theorem Recorded.breakLine (h : t.Recorded headings) :
    t.closeLast.appendLineBreak.Recorded headings := by
  refine Recorded.of_same (t := t.closeLast) ⟨h.rolled.closeLast.1, h.counted, ?_⟩ ⟨rfl, rfl⟩
  have hall := h.cards
  rcases List.eq_nil_or_concat t.cards with hcards | ⟨front, c, hcards⟩
  · have hnone : t.blocks = [] := List.map_eq_nil_iff.mp hcards
    rw [Transcript.cards, closeLast, modifyAt, hnone]
    exact allRecorded_nil headings
  · rw [List.concat_eq_append] at hcards
    rw [hcards, allRecorded_concat] at hall
    rw [cards_closeLast hcards, allRecorded_concat]
    exact ⟨hall.1, hall.2.close⟩

theorem Recorded.clear (h : t.Recorded headings) : t.clear.Recorded headings :=
  ⟨(rolled_clear t).1, h.counted, allRecorded_nil headings⟩

theorem Recorded.start (h : t.Recorded headings)
    (hstarted : t.start heading.command heading.prompt = .ok (id, t')) :
    t'.Recorded (headings ++ [heading]) := by
  cases hactive : t.activeBlock? with
  | some b =>
    rw [start_of_active hactive] at hstarted
    cases hstarted
  | none =>
    have hopens := (opens_start hactive heading.command heading.prompt).of_ok hstarted
    obtain ⟨-, hnext, hcards⟩ := hopens.last h.rolled.numbered hactive
    obtain ⟨-, hroll, -⟩ := (yields_start hactive heading.command heading.prompt).of_ok hstarted
    refine ⟨h.rolled.concat hactive hroll hnext, ?_, ?_⟩
    · rw [List.length_append, List.length_singleton, hnext, h.counted]
    · rw [hcards, allRecorded_concat]
      refine ⟨h.cards.append [heading], Block.recorded_begun ?_ (isEmpty_iff_length t.cards)⟩
      rw [← h.counted]
      exact List.getElem?_concat_length

theorem Recorded.continues (h : t.Recorded headings) (hcontinues : t.Continues t') :
    t'.Recorded headings := by
  induction hcontinues with
  | here => exact h
  | write output _ hactive hwritten ih => exact ih.write hactive hwritten
  | conclude exitCode _ hactive hconcluded ih => exact ih.conclude hactive hconcluded
  | breakLine _ ih => exact ih.breakLine
  | clear _ ih => exact ih.clear

theorem Recorded.advances (h : t.Recorded headings) {asked : Option Heading}
    (hadvances : t.Advances asked t') : t'.Recorded headings ∨
      ∃ heading, asked = some heading ∧ t'.Recorded (headings ++ [heading]) := by
  cases hadvances with
  | continues hcontinues => exact .inl (h.continues hcontinues)
  | starts hasked hbefore hstarted hafter =>
    exact .inr ⟨_, hasked, ((h.continues hbefore).start hstarted).continues hafter⟩

end Operations

end Transcript

namespace Desk

-- The heading of the block that a step starts.
def begunBy (d : Desk) (s : Step) : List Heading :=
  if d.transcript.nextId < (s.play d).transcript.nextId then (s.heading? d).toList else []

-- The runs of a recorder from its beginning, with the headings of all starts.
inductive Chronicled : Desk → List Heading → Prop where
  | new (stage : Stage) : Chronicled { stage } []
  | step {d : Desk} {headings : List Heading} (s : Step) : Chronicled d headings →
      Chronicled (s.play d) (headings ++ d.begunBy s)
  | around {d d' : Desk} {headings : List Heading} : Chronicled d headings → d.Around d' →
      Chronicled d' headings

section Runs

variable {d d' : Desk} {headings : List Heading}

theorem Chronicled.recorded (h : Chronicled d headings) : d.transcript.Recorded headings := by
  induction h with
  | new stage =>
    refine ⟨⟨⟨.nil, fun b hb => (List.not_mem_nil hb).elim⟩, fun b hb => (List.not_mem_nil hb).elim⟩,
      rfl, allRecorded_nil []⟩
  | @step d headings s _ ih =>
    unfold begunBy
    rcases ih.advances (s.advances d) with hsame | ⟨heading, hasked, hstarted⟩
    · have hcounted := ih.counted.symm.trans hsame.counted
      rwa [if_neg (by rw [hcounted]; exact Nat.lt_irrefl _), List.append_nil]
    · have hcounted := hstarted.counted
      rw [List.length_append, List.length_singleton, ih.counted] at hcounted
      have hgrown : d.transcript.nextId < (s.play d).transcript.nextId :=
        Nat.lt_of_succ_le (Nat.le_of_eq hcounted)
      rwa [if_pos hgrown, hasked]
  | around _ haround ih =>
    exact ih.of_same ⟨congrArg (List.map Block.card) haround.record.blocks, haround.record.nextId⟩

-- Every block that is listed has its heading, and its frame tells how it ended, whether it has
-- something to show of the heading, and whether it is the first one.
theorem Chronicled.tellsOutcome (h : Chronicled d headings) {place : Nat} {b : Block}
    (hb : d.transcript.blocks[place]? = some b) :
    ∃ heading, headings[b.id]? = some heading ∧ b.TellsOutcome place heading := by
  have hcard : d.transcript.cards[place]? = some b.card := by
    rw [Transcript.cards, List.getElem?_map, hb]
    rfl
  exact (Block.recorded_card_iff.mp (h.recorded.cards place b.card hcard)).tells

end Runs

-- A blank block is taken out, and a command behind it fails.
def failedOnce : Desk × List Heading :=
  [.call (.startCommand none none), .call (.finishCommand 0), .call (.startCommand (some ['c']) none),
    .call (.finishCommand 2)].foldl (fun (d, headings) s => (s.play d, headings ++ d.begunBy s))
      ({ stage := { terminal := .new ⟨4, 2⟩ 0 } }, [])

theorem tellsOutcome_failedOnce : ∃ b, failedOnce.1.transcript.blocks[0]? = some b ∧
    b.exitCode = some 2 ∧ b.frame = some { state := .error, firstBlock := true } ∧
      ∃ heading, failedOnce.2[b.id]? = some heading ∧ b.TellsOutcome 0 heading := by
  have hrun : Chronicled failedOnce.1 failedOnce.2 :=
    ((((Chronicled.new { terminal := .new ⟨4, 2⟩ 0 }).step (.call (.startCommand none none))).step
      (.call (.finishCommand 0))).step (.call (.startCommand (some ['c']) none))).step
        (.call (.finishCommand 2))
  have hends : (failedOnce.1.transcript.blocks[0]?).map (fun b => (b.exitCode, b.frame)) =
      some (some 2, some { state := .error, firstBlock := true }) := by decide +kernel
  obtain ⟨b, hb, hb'⟩ := Option.map_eq_some_iff.mp hends
  exact ⟨b, hb, congrArg Prod.fst hb', congrArg Prod.snd hb', hrun.tellsOutcome hb⟩

end Desk

end ShellTranscript
