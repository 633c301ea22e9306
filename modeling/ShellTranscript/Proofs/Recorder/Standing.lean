import Mathlib.Data.List.Infix
import Mathlib.Tactic.Common
import ShellTranscript.Proofs.Recorder.Acts

-- Closed blocks stay. They stand in a beginning of the text that ends before the line feed which
-- separates the open block from them, and nothing short of a clear touches that beginning.
namespace ShellTranscript

open Text Transcript

namespace Transcript

-- The closed blocks are listed first and lie in the text before a place where a block can stand.
structure Stands (t : Transcript) (before : Text) (closed : List Block) : Prop where
  ready : Ready before closed
  text : before.dropLast <+: t.document.text
  blocks : t.blocks = closed ∨ ∃ b, t.blocks = closed ++ [b] ∧ b.isOpen = true
  numbered : t.Numbered

-- Each closed block is still in its place, with all that is known of it and with its text.
def Preserves (t t' : Transcript) : Prop :=
  ∀ (place : Nat) (b : Block), t.blocks[place]? = some b → b.isOpen = false →
    t'.blocks[place]? = some b ∧
      ∃ text, t.blockText? b.id = some (some text) ∧ t'.blockText? b.id = some (some text)

section Standing

variable {t t' t'' : Transcript} {before : Text} {closed : List Block}

theorem Preserves.trans (h : t.Preserves t') (h' : t'.Preserves t'') : t.Preserves t'' := by
  intro place b hb hclosed
  obtain ⟨hb', text, htext, htext'⟩ := h place b hb hclosed
  obtain ⟨hb'', text', hsame, htext''⟩ := h' place b hb' hclosed
  obtain rfl : text = text' := Option.some.inj (Option.some.inj (htext'.symm.trans hsame))
  exact ⟨hb'', text, htext, htext''⟩

-- A closed block is none but those that were listed before the open one.
theorem Stands.mem_closed (h : t.Stands before closed) {place : Nat} {b : Block}
    (hb : t.blocks[place]? = some b) (hclosed : b.isOpen = false) : closed[place]? = some b := by
  rcases h.blocks with hblocks | ⟨last, hblocks, hopen⟩
  · rwa [hblocks] at hb
  · rw [hblocks, List.getElem?_append] at hb
    split at hb
    · exact hb
    · have hlast := List.mem_singleton.mp (List.mem_of_getElem? hb)
      rw [hlast, hopen] at hclosed
      cases hclosed

theorem blockText?_of_prefix (hnumbered : t.Numbered) {text part : Text} {b : Block}
    (hb : b ∈ t.blocks) (htext : text <+: t.document.text)
    (hpart : slice? text b.start b.stop = some part) : t.blockText? b.id = some (some part) := by
  obtain ⟨rest, hrest⟩ := htext
  rw [blockText?, hnumbered.block? hb, Option.map_some, Document.slice?, ← hrest,
    slice?_append_right hpart rest]

-- As long as the beginning of the text and of the list stays, so do the blocks in it.
theorem Stands.preserves (h : t.Stands before closed) (htext : before.dropLast <+: t'.document.text)
    (hblocks : closed <+: t'.blocks) (hnumbered : t'.Numbered) : t.Preserves t' := by
  intro place b hb hclosed
  have hplace := h.mem_closed hb hclosed
  have hplace' : t'.blocks[place]? = some b := by
    obtain ⟨more, hmore⟩ := hblocks
    rw [← hmore, List.getElem?_append_left (List.getElem?_eq_some_iff.mp hplace).1, hplace]
  obtain ⟨text, hpart⟩ := h.ready.laid_dropLast.exists_slice? b (List.mem_of_getElem? hplace)
  exact ⟨hplace', text,
    blockText?_of_prefix h.numbered (List.mem_of_getElem? hb) h.text hpart,
    blockText?_of_prefix hnumbered (List.mem_of_getElem? hplace') htext hpart⟩

theorem Rests.stands (h : t.Rests) : t.Stands t.opening t.blocks := by
  refine ⟨h.ready, ?_, Or.inl rfl, h.numbered⟩
  rw [opening]
  split
  · exact List.dropLast_prefix _
  · rw [List.dropLast_concat]

end Standing

-- What is said of a block and the text that it stands in, whatever stands behind the block.
def Local (P : Text → Block → Prop) : Prop :=
  ∀ ⦃front more more' : Text⦄ ⦃b : Block⦄, b.stop ≤ byteLength front → P (front ++ more) b →
    P (front ++ more') b

def Every (P : Text → Block → Prop) (t : Transcript) : Prop := ∀ b ∈ t.blocks, P t.document.text b

section Every

variable {t t' : Transcript} {before : Text} {closed : List Block} {P : Text → Block → Prop}

theorem Every.of_sameRecord (h : t.Every P) (hsame : t.SameRecord t') : t'.Every P := by
  intro b hb
  rw [hsame.text]
  exact h b (hsame.blocks ▸ hb)

-- It stays true of the closed blocks.
theorem Stands.every_closed (h : t.Stands before closed) (hlocal : Local P) (hevery : t.Every P)
    (htext : before.dropLast <+: t'.document.text) : ∀ b ∈ closed, P t'.document.text b := by
  intro b hb
  have hmem : b ∈ t.blocks := by
    rcases h.blocks with hblocks | ⟨last, hblocks, -⟩
    · rwa [hblocks]
    · rw [hblocks]
      exact List.mem_append_left _ hb
  have hb' := hevery b hmem
  have hstop := (h.ready.laid_dropLast.ordered b hb).2.2.2
  obtain ⟨more, hmore⟩ := h.text
  obtain ⟨more', hmore'⟩ := htext
  rw [← hmore] at hb'
  rw [← hmore']
  exact hlocal hstop hb'

-- So only the block that is written is to be looked at.
theorem Stands.every_concat (h : t.Stands before closed) (hlocal : Local P) (hevery : t.Every P)
    {b : Block} (htext : before.dropLast <+: t'.document.text) (hblocks : t'.blocks = closed ++ [b])
    (hb : P t'.document.text b) : t'.Every P := by
  intro c hc
  rw [hblocks] at hc
  rcases List.mem_append.mp hc with hc | hc
  · exact h.every_closed hlocal hevery htext c hc
  · obtain rfl := List.mem_singleton.mp hc
    exact hb

end Every

end Transcript

namespace Desk

-- The closed blocks are kept, and the recorder is in one of its two shapes.
structure Retains (d d' : Desk) : Prop where
  shaped : d'.Shaped
  preserves : d.recorder.transcript.Preserves d'.recorder.transcript

section Shapes

variable {d d' d'' : Desk} {before prompt command output output' : Text} {closed : List Block}
  {b b' : Block}

theorem Retains.trans (h : d.Retains d') (h' : d'.Retains d'') : d.Retains d'' :=
  ⟨h'.shaped, h.preserves.trans h'.preserves⟩

theorem dropLast_prefix_append (before more : Text) : before.dropLast <+: before ++ more :=
  (List.dropLast_prefix before).trans (List.prefix_append before more)

theorem dropLast_prefix_concludedText (before body : Text) :
    before.dropLast <+: concludedText before body := by
  rw [concludedText]
  split
  · exact List.prefix_refl _
  · exact dropLast_prefix_append before _

theorem Recording.stands (h : d.Recording before prompt command output closed b) :
    d.recorder.transcript.Stands before closed := by
  refine ⟨h.ready, ?_, Or.inr ⟨b, h.ends.blocks, h.isOpen⟩, h.ends.numbered⟩
  rw [h.ends.text, List.append_assoc, List.append_assoc]
  exact dropLast_prefix_append before _

theorem Shaped.exists_stands (h : d.Shaped) :
    ∃ before closed, d.recorder.transcript.Stands before closed := by
  rcases h with h | ⟨before, prompt, command, output, closed, b, h⟩
  · exact ⟨_, _, h.rests.stands⟩
  · exact ⟨before, closed, h.stands⟩

-- What else the recorder does is not part of the record.
theorem Shaped.retains_still (h : d.Shaped) (hstill : d.Still d') : d.Retains d' := by
  obtain ⟨before, closed, hstands⟩ := h.exists_stands
  have hsame := hstill.record
  refine ⟨h.of_still hstill, hstands.preserves ?_ ?_ (hsame.numbered hstands.numbered)⟩
  · rw [hsame.text]
    exact hstands.text
  · rw [hsame.blocks]
    rcases hstands.blocks with hblocks | ⟨last, hblocks, -⟩
    · rw [hblocks]
    · rw [hblocks]
      exact List.prefix_append closed [last]

theorem Shaped.retains_refl (h : d.Shaped) : d.Retains d := h.retains_still (.refl d)

-- The open block stands where it stood.
theorem Recording.retains (h : d.Recording before prompt command output closed b)
    (h' : d'.Recording before prompt command output' closed b') : d.Retains d' := by
  refine ⟨h'.shaped, h.stands.preserves h'.stands.text ?_ h'.ends.numbered⟩
  rw [h'.ends.blocks]
  exact List.prefix_append closed [b']

theorem Resting.retains_started (h : d.Resting)
    (h' : d'.Recording d.recorder.transcript.opening prompt command output
      d.recorder.transcript.blocks b) : d.Retains d' := by
  refine ⟨h'.shaped, h.rests.stands.preserves h'.stands.text ?_ h'.ends.numbered⟩
  rw [h'.ends.blocks]
  exact List.prefix_append _ [b]

-- A concluded block that is taken out takes along the line feed before it, and nothing before that.
theorem Recording.retains_concluded (h : d.Recording before prompt command output closed b)
    (h' : d'.Resting) {body : Text} {exitCode : Int}
    (htext : d'.recorder.transcript.document.text = concludedText before body)
    (hblocks : d'.recorder.transcript.blocks = concludedBlocks closed b' body exitCode) :
    d.Retains d' := by
  refine ⟨h'.shaped, h.stands.preserves ?_ ?_ h'.rests.numbered⟩
  · rw [htext]
    exact dropLast_prefix_concludedText before body
  · rw [hblocks, concludedBlocks]
    split
    · exact List.prefix_refl _
    · exact List.prefix_append closed _

theorem Shaped.retains_broken (h : d.Shaped) (h' : d'.Resting)
    (htext : d'.recorder.transcript.document.text = d.recorder.transcript.document.text ++ ['\n'])
    (hblocks : d'.recorder.transcript.blocks = d.recorder.transcript.closeLast.blocks) :
    d.Retains d' := by
  rcases h with h | ⟨before, prompt, command, output, closed, b, h⟩
  · refine ⟨h'.shaped, h.rests.stands.preserves ?_ ?_ h'.rests.numbered⟩
    · rw [htext]
      exact h.rests.stands.text.trans (List.prefix_append _ _)
    · rw [hblocks, closeLast_of_closed h.rests.closed]
  · refine ⟨h'.shaped, h.stands.preserves ?_ ?_ h'.rests.numbered⟩
    · rw [htext]
      exact h.stands.text.trans (List.prefix_append _ _)
    · rw [hblocks, h.ends.closeLast.blocks]
      exact List.prefix_append closed _

end Shapes

section Every

variable {d d' : Desk} {P : Text → Block → Prop} {before prompt command output : Text}
  {closed : List Block} {b b' : Block}

theorem Recording.of_every (h : d.Recording before prompt command output closed b)
    (hevery : d.recorder.transcript.Every P) : P (before ++ prompt ++ command ++ output) b := by
  rw [← h.ends.text]
  refine hevery b ?_
  rw [h.ends.blocks]
  exact List.mem_concat_self

theorem Resting.every_started (h : d.Resting) (hlocal : Local P)
    (hevery : d.recorder.transcript.Every P)
    (h' : d'.Recording d.recorder.transcript.opening prompt command output
      d.recorder.transcript.blocks b)
    (hb : P (d.recorder.transcript.opening ++ prompt ++ command ++ output) b) :
    d'.recorder.transcript.Every P := by
  rw [← h'.ends.text] at hb
  exact h.rests.stands.every_concat hlocal hevery h'.stands.text h'.ends.blocks hb

theorem Recording.every_written {output' : Text}
    (h : d.Recording before prompt command output closed b) (hlocal : Local P)
    (hevery : d.recorder.transcript.Every P)
    (h' : d'.Recording before prompt command output' closed b')
    (hb : P (before ++ prompt ++ command ++ output') b') : d'.recorder.transcript.Every P := by
  rw [← h'.ends.text] at hb
  exact h.stands.every_concat hlocal hevery h'.stands.text h'.ends.blocks hb

-- A block that is concluded is not listed any more, or it is the last one.
theorem Recording.every_concluded (h : d.Recording before prompt command output closed b)
    (hlocal : Local P) (hevery : d.recorder.transcript.Every P) {body : Text} {exitCode : Int}
    (htext : d'.recorder.transcript.document.text = concludedText before body)
    (hblocks : d'.recorder.transcript.blocks = concludedBlocks closed b' body exitCode)
    (hb : P (before ++ dropBlankLine body) (concludedBlock b' body exitCode closed.isEmpty)) :
    d'.recorder.transcript.Every P := by
  have hbefore : before.dropLast <+: d'.recorder.transcript.document.text := by
    rw [htext]
    exact dropLast_prefix_concludedText before body
  by_cases hblank : (trim (dropBlankLine body)).isEmpty = true
  · rw [concludedBlocks, if_pos hblank] at hblocks
    intro c hc
    rw [hblocks] at hc
    exact h.stands.every_closed hlocal hevery hbefore c hc
  · rw [concludedBlocks, if_neg hblank] at hblocks
    refine h.stands.every_concat hlocal hevery hbefore hblocks ?_
    rwa [htext, concludedText, if_neg hblank]

theorem Shaped.every_broken (h : d.Shaped) (hlocal : Local P)
    (hevery : d.recorder.transcript.Every P)
    (htext : d'.recorder.transcript.document.text = d.recorder.transcript.document.text ++ ['\n'])
    (hblocks : d'.recorder.transcript.blocks = d.recorder.transcript.closeLast.blocks)
    (hclose : ∀ t b, P t b → P t b.close) : d'.recorder.transcript.Every P := by
  rcases h with h | ⟨before, prompt, command, output, closed, b, h⟩
  · intro b hb
    rw [hblocks, closeLast_of_closed h.rests.closed] at hb
    refine h.rests.stands.every_closed hlocal hevery ?_ b hb
    rw [htext]
    exact h.rests.stands.text.trans (List.prefix_append _ _)
  · have hprefix := h.stands.text.trans (List.prefix_append _ ['\n'])
    rw [← htext] at hprefix
    refine h.stands.every_concat hlocal hevery hprefix (hblocks.trans h.ends.closeLast.blocks)
      (hclose _ _ ?_)
    have hb := h.of_every hevery
    rw [← List.append_nil (_ ++ output)] at hb
    rw [htext, h.ends.text]
    exact hlocal (Nat.le_of_eq h.ends.stop) hb

end Every

section Acts

variable {d d' : Desk} {a : Act}

theorem Does.retains (h : d.Does a d') (hkeeps : a ≠ .clear) : d.Retains d' := by
  cases h with
  | start command prompt epoch resting recording => exact resting.retains_started recording
  | write output recording _ _ recording' => exact recording.retains recording'
  | conclude exitCode recording resting htext hblocks =>
    exact recording.retains_concluded resting htext hblocks
  | breakLine shaped resting htext hblocks => exact shaped.retains_broken resting htext hblocks
  | clear => exact absurd rfl hkeeps

theorem Shaped.retains_of_through (h : d.Shaped) (hthrough : d.Through (· ≠ .clear) d') :
    d.Retains d' := by
  induction hthrough with
  | here => exact h.retains_refl
  | still _ hstill ih => exact ih.trans (ih.shaped.retains_still hstill)
  | act _ hkeeps hdoes ih => exact ih.trans (hdoes.retains hkeeps)

end Acts

end Desk

-- The calls that may take closed blocks away.
def Call.Clears : Call → Prop
  | clearBlocks => True
  | handle e => e = .cleared
  | _ => False

namespace Desk

theorem not_clear_of_serves {d : Desk} {c : Call} (hkeeps : ¬c.Clears) {a : Act}
    (h : a.Serves d c) : a ≠ .clear := by
  rintro rfl
  cases c with
  | clearBlocks => exact hkeeps trivial
  | handle e => cases e <;> simp_all [Act.Serves, Act.Follows, Call.Clears]
  | _ => simp [Act.Serves, Act.Follows] at h

theorem Shaped.retains_call {d : Desk} (h : d.Shaped) {c : Call} (hkeeps : ¬c.Clears)
    (hfits : c.Fits d) : d.Retains (c.run d).state :=
  h.retains_of_through ((h.through_call c hfits).mono fun _ => not_clear_of_serves hkeeps)

-- Where calls of some kind lead, in any order and with any other changes around them. The styles of
-- a snapshot may lie anywhere; what is refused for that leaves the record as it was.
inductive Leads (allowed : Call → Prop) (d : Desk) : Desk → Prop where
  | here : Leads allowed d d
  | call {d' : Desk} (c : Call) : Leads allowed d d' → allowed c → c.Fits d' →
      Leads allowed d (c.run d').state
  | around {d' d'' : Desk} : Leads allowed d d' → d'.Around d'' → Leads allowed d d''

theorem Shaped.of_leads {d d' : Desk} (h : d.Shaped) {allowed : Call → Prop}
    (hleads : d.Leads allowed d') : d'.Shaped := by
  induction hleads with
  | here => exact h
  | call c _ _ hfits ih => exact (ih.through_call c hfits).shaped ih
  | around _ haround ih => exact ih.of_around haround

theorem Shaped.retains_of_leads {d d' : Desk} (h : d.Shaped)
    (hleads : d.Leads (fun c => ¬c.Clears) d') : d.Retains d' := by
  induction hleads with
  | here => exact h.retains_refl
  | call c _ hkeeps hfits ih => exact ih.trans (ih.shaped.retains_call hkeeps hfits)
  | around _ haround ih => exact ih.trans (ih.shaped.retains_still haround.still)

-- Once a block is closed it stays as it is, with its place and its text, until the next clear.
theorem Leads.closed_stays {stage : Stage} {d d' : Desk}
    (hbefore : Leads (fun _ => True) { stage } d) (hafter : d.Leads (fun c => ¬c.Clears) d')
    (place : Nat) {b : Block} (hplace : d.recorder.transcript.blocks[place]? = some b)
    (hclosed : b.isOpen = false) :
    d'.recorder.transcript.blocks[place]? = some b ∧
      ∃ text, d.recorder.transcript.blockText? b.id = some (some text) ∧
        d'.recorder.transcript.blockText? b.id = some (some text) := by
  have hshaped := (resting_new stage).shaped.of_leads hbefore
  exact (hshaped.retains_of_leads hafter).preserves place b hplace hclosed

-- A command that an empty line cut short, with another command behind that line.
theorem Leads.closed_stays_interrupted :
    let interrupted : Block :=
      { Block.opened 0 0 (some ['l', 's']) none with
        outputStart := 3
        stop := 3
        isOpen := false
        spans := some [⟨0, 2, .command⟩]
        frame := some { firstBlock := true } }
    let d := (Call.insertEmptyLine.run ((Call.startCommand (some ['l', 's']) none).run
      { stage := { terminal := .new ⟨4, 2⟩ 0 } }).state).state
    let d' := ((Call.startCommand none (some ['é'])).run d).state
    d'.recorder.transcript.blocks[0]? = some interrupted ∧
      ∃ text, d.recorder.transcript.blockText? 0 = some (some text) ∧
        d'.recorder.transcript.blockText? 0 = some (some text) :=
  Leads.closed_stays
    (.call .insertEmptyLine (.call (.startCommand (some ['l', 's']) none) .here trivial
      (by unfold Call.Fits; decide +kernel)) trivial (by unfold Call.Fits; decide +kernel))
    (.call (.startCommand none (some ['é'])) .here not_false (by unfold Call.Fits; decide +kernel))
    0 (by decide +kernel) rfl

end Desk

end ShellTranscript
