import Mathlib.Tactic.Common
import ShellTranscript.Proofs.Transcript.Arrangement
import ShellTranscript.Proofs.Transcript.Conclusion

-- Edits of any block of a transcript, with other blocks before it and behind it. An edit rewrites the
-- end of one block and is exact there, and every other block is what it was, wherever it stands now.
namespace ShellTranscript

open Text

-- What stands before a block and behind it.
structure Surroundings where
  front : List Block
  lead : Text
  rest : Text
  back : List Block

-- A transcript in which a block with these parts stands there.
structure Surroundings.Hold (s : Surroundings) (t : Transcript) (b : Block)
    (prompt command output : Text) : Prop where
  text : t.document.text = s.lead ++ (prompt ++ command ++ output) ++ s.rest
  blocks : t.blocks = s.front ++ b :: s.back
  before : Arranged [] s.front s.lead
  covers : b.Covers s.lead prompt command output
  behind : Arranged (s.lead ++ (prompt ++ command ++ output)) s.back s.rest

-- Where a block's text goes from one length to another, what is behind it moves.
def Surroundings.moved (s : Surroundings) (old new : Text) : Surroundings :=
  { s with
    back := s.back.map
      (Block.shift ((byteLength (s.lead ++ new) : Int) - byteLength (s.lead ++ old))) }

-- A block without what reaches past its end.
def Block.clipTo (stop : Nat) (b : Block) : Block :=
  { b.clampToStop with spans := b.spans.map fun spans => spans.filter fun s => s.stop ≤ stop }

@[simp] theorem Block.endPart_id (part : BlockPart) (b : Block) : (b.endPart part).id = b.id := by
  cases part <;> rfl

@[simp] theorem Block.endPart_isOpen (part : BlockPart) (b : Block) :
    (b.endPart part).isOpen = b.isOpen := by
  cases part <;> rfl

namespace Transcript

-- Blocks that follow each other in the document, of which only the last one can be open.
structure InOrder (t : Transcript) : Prop where
  arranged : Arranged [] t.blocks t.document.text
  closed : AllClosed t.blocks.dropLast
  numbered : t.Numbered
  fits : t.document.length ≤ maxOffset

-- One block has another text now, and the others are what they were.
structure Rewritten (t : Transcript) (id : Nat) (text : Text) (t' : Transcript) : Prop where
  ids : t'.blocks.map Block.id = t.blocks.map Block.id
  text : t'.blockText? id = some (some text)
  others : ∀ c ∈ t.blocks, c.id ≠ id →
    ∃ c' ∈ t'.blocks, c.KeptAs t.document.text c' t'.document.text

-- Blocks with something between every two of them, and behind the last one where a separator is
-- already there.
structure Spaced (t : Transcript) : Prop where
  blocks : t.blocks.Pairwise fun a b => a.stop < b.start
  pending : t.separatorPending = true → ∀ b ∈ t.blocks, b.stop < t.document.length

-- What comes of giving one block another text, which is exact as long as the document has offsets.
structure Rewrites (t : Transcript) (b' : Block) (text whole : Text) (t' : Transcript) : Prop where
  whole_eq : t'.document.text = whole
  exact_of_fits : t'.document.length ≤ maxOffset →
    t'.InOrder ∧ t.Rewritten b'.id text t' ∧ t'.block? b'.id = some b'
  spaced_of_fits : t'.document.length ≤ maxOffset → t.Spaced → t'.Spaced

end Transcript

open Transcript

theorem AllClosed.of_unplaced {blocks blocks' : List Block} (h : AllClosed blocks)
    (hsame : blocks'.map Block.unplaced = blocks.map Block.unplaced) : AllClosed blocks' := by
  intro c' hc'
  obtain ⟨c, hc, hcc⟩ := List.mem_map.mp (hsame ▸ List.mem_map_of_mem hc')
  have hopen : c.unplaced.isOpen = c'.unplaced.isOpen := by rw [hcc]
  exact hopen.symm.trans (h c hc)

-- A closed block that stays closed keeps the last block the one that can be open.
theorem AllClosed.replace {front back back' : List Block} {b b' : Block}
    (h : AllClosed (front ++ b :: back).dropLast) (hopen : b.isOpen = false → b'.isOpen = false)
    (hsame : back'.map Block.unplaced = back.map Block.unplaced) :
    AllClosed (front ++ b' :: back').dropLast := by
  rw [List.dropLast_append_cons] at h ⊢
  have hfront : AllClosed front := fun c hc => h c (List.mem_append_left _ hc)
  cases back with
  | nil =>
    obtain rfl : back' = [] := by simpa using hsame
    simpa using hfront
  | cons c back =>
    cases back' with
    | nil => simp at hsame
    | cons c' back' =>
      rw [List.dropLast_cons_cons] at h ⊢
      have hsame' : (c' :: back').dropLast.map Block.unplaced =
          (c :: back).dropLast.map Block.unplaced := by
        rw [List.map_dropLast, List.map_dropLast, hsame]
      have hbehind : AllClosed (c :: back).dropLast := fun d hd => h d (by simp [hd])
      intro d hd
      rcases List.mem_append.mp hd with hd | hd
      · exact hfront d hd
      · cases List.mem_cons.mp hd with
        | inl hd => exact hd ▸ hopen (h b (by simp))
        | inr hd => exact hbehind.of_unplaced hsame' d hd

namespace Surroundings.Hold

variable {s s' : Surroundings} {t t' : Transcript} {b b' : Block}
variable {prompt command output prompt' command' output' : Text}

theorem arranged (h : s.Hold t b prompt command output) : Arranged [] t.blocks t.document.text := by
  rw [h.blocks, h.text]
  exact h.before.append_block h.covers h.behind

theorem slice? (h : s.Hold t b prompt command output) :
    t.document.slice? b.start b.stop = some (prompt ++ command ++ output) := by
  rw [Document.slice?, h.text]
  exact h.covers.slice? s.rest

theorem blockText? (h : s.Hold t b prompt command output) (hids : t.Numbered) :
    t.blockText? b.id = some (some (prompt ++ command ++ output)) := by
  have hb : b ∈ t.blocks := by
    rw [h.blocks]
    exact List.mem_append_right _ List.mem_cons_self
  rw [Transcript.blockText?, hids.block? hb, Option.map_some, h.slice?]

theorem ids_eq (h : s.Hold t b prompt command output) (h' : s'.Hold t' b' prompt' command' output')
    (hfront : s'.front = s.front) (hback : s'.back.map Block.unplaced = s.back.map Block.unplaced)
    (hid : b'.id = b.id) : t'.blocks.map Block.id = t.blocks.map Block.id := by
  have hbehind := congrArg (List.map Block.id) hback
  rw [List.map_map, List.map_map] at hbehind
  have hbehind' : s'.back.map Block.id = s.back.map Block.id := hbehind
  rw [h.blocks, h'.blocks, hfront, List.map_append, List.map_append, List.map_cons, List.map_cons,
    hid, hbehind']

-- The order stays when a block that was closed is not opened again.
theorem inOrder (h : s.Hold t b prompt command output) (h' : s'.Hold t' b' prompt' command' output')
    (hfront : s'.front = s.front) (hback : s'.back.map Block.unplaced = s.back.map Block.unplaced)
    (hid : b'.id = b.id) (hopen : b.isOpen = false → b'.isOpen = false) (hnext : t'.nextId = t.nextId)
    (hfits : t'.document.length ≤ maxOffset) (horder : t.InOrder) : t'.InOrder := by
  have hclosed := horder.closed
  rw [h.blocks] at hclosed
  refine ⟨h'.arranged, ?_, horder.numbered.of_ids (h.ids_eq h' hfront hback hid) hnext, hfits⟩
  rw [h'.blocks, hfront]
  exact hclosed.replace hopen hback

theorem moved_hold (h : s.Hold t b prompt command output)
    (htext : t'.document.text = s.lead ++ (prompt' ++ command' ++ output') ++ s.rest)
    (hblocks : t'.blocks = s.front ++ b' ::
      (s.moved (prompt ++ command ++ output) (prompt' ++ command' ++ output')).back)
    (hcovers : b'.Covers s.lead prompt' command' output')
    (hfits : t'.document.length ≤ maxOffset) :
    (s.moved (prompt ++ command ++ output) (prompt' ++ command' ++ output')).Hold t' b'
      prompt' command' output' := by
  rw [Document.length, htext] at hfits
  exact ⟨htext, hblocks, h.before, hcovers, h.behind.shift hfits⟩

theorem rewritten (h : s.Hold t b prompt command output)
    (h' : (s.moved (prompt ++ command ++ output) (prompt' ++ command' ++ output')).Hold t' b'
      prompt' command' output')
    (hid : b'.id = b.id) (horder : t'.InOrder) :
    t.Rewritten b.id (prompt' ++ command' ++ output') t' := by
  have hsame : (s.moved (prompt ++ command ++ output) (prompt' ++ command' ++ output')).back.map
      Block.unplaced = s.back.map Block.unplaced := by
    rw [moved, List.map_map]
    rfl
  refine ⟨h.ids_eq h' rfl hsame hid, hid ▸ h'.blockText? horder.numbered, ?_⟩
  have hfits := horder.fits
  rw [Document.length, h'.text] at hfits
  rw [h.text, h'.text]
  intro c hc hne
  rw [h.blocks] at hc
  rcases List.mem_append.mp hc with hc | hc
  · refine ⟨c, ?_, ?_⟩
    · rw [h'.blocks]
      exact List.mem_append_left _ hc
    · have hkept := h.before.kept_front hc (prompt ++ command ++ output ++ s.rest)
        (prompt' ++ command' ++ output' ++ s.rest)
      simpa only [moved, List.append_assoc] using hkept
  · cases List.mem_cons.mp hc with
    | inl hc => exact absurd (congrArg Block.id hc) hne
    | inr hc =>
      refine ⟨_, ?_, h.behind.kept_back hc hfits⟩
      rw [h'.blocks]
      exact List.mem_append_right _ (List.mem_cons_of_mem _ (List.mem_map_of_mem hc))

-- The space around a block is no part of it.
theorem spaced (h : s.Hold t b prompt command output)
    (h' : (s.moved (prompt ++ command ++ output) (prompt' ++ command' ++ output')).Hold t' b'
      prompt' command' output')
    (hpending : t'.separatorPending = t.separatorPending) (hfits : t'.document.length ≤ maxOffset)
    (hspaced : t.Spaced) : t'.Spaced := by
  have hstart : b'.start = b.start := h'.covers.start.trans h.covers.start.symm
  have hinner := h'.covers.ordered
  have hstop : b.stop = byteLength (s.lead ++ (prompt ++ command ++ output)) := by
    simpa only [List.append_assoc] using h.covers.stop
  have hstop' : b'.stop = byteLength (s.lead ++ (prompt' ++ command' ++ output')) := by
    simpa only [moved, List.append_assoc] using h'.covers.stop
  have htext' : t'.document.text = s.lead ++ (prompt' ++ command' ++ output') ++ s.rest := h'.text
  have hroom : byteLength (s.lead ++ (prompt' ++ command' ++ output') ++ s.rest) ≤ maxOffset := by
    rwa [Document.length, htext'] at hfits
  obtain ⟨hfront, ⟨hbehind, hback⟩, hcross⟩ :
      s.front.Pairwise _ ∧ ((∀ c ∈ s.back, b.stop < c.start) ∧ s.back.Pairwise _) ∧
        ∀ a ∈ s.front, ∀ c ∈ b :: s.back, a.stop < c.start := by
    have hblocks := hspaced.blocks
    rwa [h.blocks, List.pairwise_append, List.pairwise_cons] at hblocks
  -- Everything behind the block moves as far as the block's end does.
  have hbehind' : ∀ c ∈ (s.moved (prompt ++ command ++ output) (prompt' ++ command' ++ output')).back,
      b'.stop < c.start := by
    rw [hstop] at hbehind
    rw [hstop']
    exact h.behind.above_shift hroom hbehind
  refine ⟨?_, ?_⟩
  · rw [h'.blocks, List.pairwise_append, List.pairwise_cons]
    refine ⟨hfront, ⟨hbehind', h.behind.spaced_shift hroom hback⟩, ?_⟩
    intro a ha c hc
    have hlt := hcross a ha b List.mem_cons_self
    cases List.mem_cons.mp hc with
    | inl hc =>
      subst hc
      omega
    | inr hc =>
      have hlt' := hbehind' c hc
      omega
  · intro hpending' c hc
    rw [hpending] at hpending'
    have hroomy := hspaced.pending hpending'
    have hb := hroomy b (by rw [h.blocks]; simp)
    rw [Document.length, h.text] at hroomy hb
    rw [Document.length, htext']
    rw [byteLength_append, ← hstop] at hb
    rw [h'.blocks] at hc
    rcases List.mem_append.mp hc with hc | hc
    · have hlt := hcross c hc b List.mem_cons_self
      rw [byteLength_append]
      omega
    · cases List.mem_cons.mp hc with
      | inl hc =>
        subst hc
        rw [byteLength_append]
        omega
      | inr hc =>
        exact h.behind.below_shift hroom (fun c hc => hroomy c (by rw [h.blocks]; simp [hc])) c hc

-- The end of the block's text is replaced.
theorem edit (h : s.Hold t b prompt command output) {kept removed : Text}
    (hpart : prompt ++ command ++ output = kept ++ removed) (inserted : Text) :
    ∃ t', t.edit s.front.length (byteLength (s.lead ++ kept)) b.stop inserted = .ok t' ∧
      t'.document.text = s.lead ++ (kept ++ inserted) ++ s.rest ∧ t'.nextId = t.nextId ∧
      t'.separatorPending = t.separatorPending ∧
      (t'.document.length ≤ maxOffset →
        t'.blocks = s.front ++ b.endingAt (byteLength (s.lead ++ (kept ++ inserted))) ::
          (s.moved (prompt ++ command ++ output) (kept ++ inserted)).back) := by
  have hstop : b.stop = byteLength (s.lead ++ kept ++ removed) := by
    rw [h.covers.stop]
    simp only [byteLength_append] at hpart ⊢
    have hlength := congrArg byteLength hpart
    simp only [byteLength_append] at hlength
    omega
  have htext : t.document.text = s.lead ++ kept ++ removed ++ s.rest := by
    rw [h.text, hpart]
    simp only [List.append_assoc]
  obtain ⟨document, hdocument, hnew⟩ := Document.replace?_part htext inserted
  rw [← hstop] at hdocument
  simp only [Transcript.edit, hdocument, orBadOffset, h.blocks, modify_append_cons, shiftFrom_place, bind,
    Except.bind, pure, Except.pure]
  refine ⟨_, rfl, by simpa only [List.append_assoc] using hnew, rfl, rfl, ?_⟩
  intro hfits
  have hdelta : (byteLength inserted : Int) - ((b.stop - byteLength (s.lead ++ kept) : Nat) : Int) =
      (byteLength (s.lead ++ (kept ++ inserted)) : Int) -
        byteLength (s.lead ++ (prompt ++ command ++ output)) := by
    rw [hstop, hpart]
    simp only [byteLength_append]
    omega
  have hmoved : b.moveStop ((byteLength (s.lead ++ (kept ++ inserted)) : Int) -
      byteLength (s.lead ++ (prompt ++ command ++ output))) =
        b.endingAt (byteLength (s.lead ++ (kept ++ inserted))) := by
    rw [Document.length, hnew] at hfits
    rw [hpart]
    simp only [Block.moveStop, Block.endingAt, moveOffset, Block.mk.injEq, true_and, and_true, hstop]
    simp only [byteLength_append] at hfits ⊢
    omega
  simp only [hdelta, hmoved, moved]

-- The end of the block's text is replaced, and its sections are set anew.
theorem edited (h : s.Hold t b prompt command output) (horder : t.InOrder) {kept removed : Text}
    (hpart : prompt ++ command ++ output = kept ++ removed) (inserted : Text) {f : Block → Block}
    (hcovers : (f (b.endingAt (byteLength (s.lead ++ (kept ++ inserted))))).Covers s.lead
      prompt' command' output')
    (hpart' : prompt' ++ command' ++ output' = kept ++ inserted)
    (hid : ∀ c, (f c).id = c.id) (hopen : ∀ c, (f c).isOpen = c.isOpen) :
    ∃ t', t.edit s.front.length (byteLength (s.lead ++ kept)) b.stop inserted = .ok t' ∧
      t.Rewrites (f (b.endingAt (byteLength (s.lead ++ (kept ++ inserted))))) (kept ++ inserted)
        (s.lead ++ (kept ++ inserted) ++ s.rest) (t'.modifyAt s.front.length f) := by
  obtain ⟨t', hedit, htext, hnext, hpending, hblocks⟩ := h.edit hpart inserted
  have hid' : (f (b.endingAt (byteLength (s.lead ++ (kept ++ inserted))))).id = b.id := hid _
  have hhold : t'.document.length ≤ maxOffset →
      (s.moved (prompt ++ command ++ output) (prompt' ++ command' ++ output')).Hold
        (t'.modifyAt s.front.length f) (f (b.endingAt (byteLength (s.lead ++ (kept ++ inserted)))))
        prompt' command' output' := by
    intro hfits
    apply h.moved_hold
    · rw [hpart']
      exact htext
    · rw [Transcript.modifyAt, hblocks hfits, modify_append_cons, hpart']
    · exact hcovers
    · exact hfits
  refine ⟨t', hedit, htext, ?_, ?_⟩
  · intro hfits
    have hhold' := hhold hfits
    have hsame : (s.moved (prompt ++ command ++ output) (prompt' ++ command' ++ output')).back.map
        Block.unplaced = s.back.map Block.unplaced := by
      rw [moved, List.map_map]
      rfl
    have horder' := h.inOrder hhold' rfl hsame hid' (fun hclosed => (hopen _).trans hclosed) hnext
      hfits horder
    have hrewritten := h.rewritten hhold' hid' horder'
    rw [hpart', ← hid'] at hrewritten
    refine ⟨horder', hrewritten, horder'.numbered.block? ?_⟩
    rw [hhold'.blocks]
    exact List.mem_append_right _ List.mem_cons_self
  · intro hfits
    exact h.spaced (hhold hfits) hpending hfits

theorem append (h : s.Hold t b prompt command output) (horder : t.InOrder) (inserted : Text)
    (part : BlockPart) :
    ∃ t', t.append b.id inserted part =
        .ok ((b.stop, b.stop + byteLength inserted), t') ∧
      t.Rewrites ((b.endingAt (b.stop + byteLength inserted)).endPart part)
        (prompt ++ command ++ output ++ inserted)
        (s.lead ++ (prompt ++ command ++ output ++ inserted) ++ s.rest) t' := by
  have hstop : b.stop = byteLength (s.lead ++ (prompt ++ command ++ output)) := by
    simpa only [List.append_assoc] using h.covers.stop
  have hend : byteLength (s.lead ++ (prompt ++ command ++ output ++ inserted)) =
      b.stop + byteLength inserted := by
    rw [hstop]
    simp only [byteLength_append]
    omega
  obtain ⟨prompt', command', hparts, hcovers⟩ : ∃ prompt' command',
      prompt' ++ command' ++ [] = prompt ++ command ++ output ++ inserted ∧
        ((b.endingAt (byteLength (s.lead ++ (prompt ++ command ++ output ++ inserted)))).endPart
          part).Covers s.lead prompt' command' [] := by
    have hstart := h.covers.start
    have hcommand := h.covers.commandStart
    cases part with
    | prompt =>
      refine ⟨prompt ++ command ++ output ++ inserted, [], by simp, hstart, ?_, ?_, ?_⟩ <;>
        simp [Block.endPart, Block.endingAt]
    | command =>
      refine ⟨prompt, command ++ output ++ inserted, by simp, hstart, hcommand, ?_, ?_⟩ <;>
        simp [Block.endPart, Block.endingAt]
  obtain ⟨t', hedit, hrewrites⟩ := h.edited horder (List.append_nil _).symm inserted hcovers hparts
    (Block.endPart_id part) (Block.endPart_isOpen part)
  rw [hend] at hrewrites
  rw [← hstop] at hedit
  refine ⟨_, ?_, hrewrites⟩
  simp only [Transcript.append, horder.numbered.locate h.blocks, hedit, bind, Except.bind, pure,
    Except.pure]

theorem replaceOutput (h : s.Hold t b prompt command output) (horder : t.InOrder) (new : Text) :
    ∃ t', t.replaceOutput b.id new = .ok t' ∧
      t.Rewrites (b.endingAt (b.outputStart + byteLength new)) (prompt ++ command ++ new)
        (s.lead ++ (prompt ++ command ++ new) ++ s.rest) t' := by
  have hstart : b.outputStart = byteLength (s.lead ++ (prompt ++ command)) := by
    simpa only [List.append_assoc] using h.covers.outputStart
  have hend : byteLength (s.lead ++ (prompt ++ command ++ new)) = b.outputStart + byteLength new := by
    rw [hstart]
    simp only [byteLength_append]
    omega
  have hcovers : (b.endingAt (byteLength (s.lead ++ (prompt ++ command ++ new)))).Covers s.lead
      prompt command new := by
    refine ⟨h.covers.start, h.covers.commandStart, h.covers.outputStart, ?_⟩
    simp only [Block.endingAt, List.append_assoc]
  obtain ⟨t', hedit, hrewrites⟩ := h.edited (f := id) horder rfl new hcovers rfl
    (fun _ => rfl) fun _ => rfl
  have hunchanged : t'.modifyAt s.front.length id = t' := by
    rw [Transcript.modifyAt, List.modify_id]
  rw [hend, hunchanged] at hrewrites
  rw [← hstart] at hedit
  refine ⟨t', ?_, hrewrites⟩
  simpa only [Transcript.replaceOutput, horder.numbered.locate h.blocks, bind, Except.bind] using hedit

-- A cut of the document inside the block is one of the block's text.
theorem cut (h : s.Hold t b prompt command output) {n : Nat} (hcut : IsCut t.document.text n)
    (hstart : b.start ≤ n) (hstop : n ≤ b.stop) :
    ∃ kept removed, prompt ++ command ++ output = kept ++ removed ∧
      n = byteLength (s.lead ++ kept) := by
  rw [h.covers.start] at hstart
  obtain ⟨m, rfl⟩ := Nat.exists_eq_add_of_le hstart
  have hinside : m ≤ byteLength (prompt ++ command ++ output) := by
    rw [h.covers.stop] at hstop
    simp only [byteLength_append] at hstop ⊢
    omega
  rw [IsCut, h.text, List.append_assoc, splitAt?_append_add, Option.isSome_map] at hcut
  have hsame := congrArg Option.isSome (splitAt?_append_of_le hinside s.rest)
  rw [Option.isSome_map, Option.isSome_map, hcut] at hsame
  obtain ⟨⟨kept, removed⟩, hsplit⟩ := Option.isSome_iff_exists.mp hsame.symm
  obtain ⟨hpart, hlength⟩ := eq_append_of_splitAt? hsplit
  refine ⟨kept, removed, hpart, ?_⟩
  rw [byteLength_append, hlength]

theorem truncate (h : s.Hold t b prompt command output) (horder : t.InOrder) {stop : Nat}
    (hcut : IsCut t.document.text (min (max stop b.start) b.stop)) :
    ∃ t' kept removed, t.truncate b.id stop = .ok t' ∧
      prompt ++ command ++ output = kept ++ removed ∧
      b.start + byteLength kept = min (max stop b.start) b.stop ∧
      t.Rewrites (b.cutOff (min (max stop b.start) b.stop)) kept (s.lead ++ kept ++ s.rest) t' := by
  have hinner := h.covers.ordered
  have hwithin : b.start ≤ min (max stop b.start) b.stop ∧ min (max stop b.start) b.stop ≤ b.stop := by
    omega
  generalize hn : min (max stop b.start) b.stop = n at hcut hwithin ⊢
  obtain ⟨kept, removed, hpart, hlength⟩ := h.cut hcut hwithin.1 hwithin.2
  obtain ⟨prompt', command', output', hparts, -, hcovers⟩ := h.covers.cutOff hpart
  rw [← List.append_nil kept] at hparts hcovers
  have hend : byteLength (s.lead ++ (kept ++ [])) = n := by rw [List.append_nil, hlength]
  have hblock : (b.endingAt (byteLength (s.lead ++ (kept ++ [])))).clipTo n = b.cutOff n := by
    rw [hend]
    rfl
  rw [hend, ← hblock] at hcovers
  obtain ⟨t', hedit, hrewrites⟩ := h.edited horder hpart [] hcovers hparts.symm
    (fun _ => rfl) fun _ => rfl
  rw [hblock, List.append_nil] at hrewrites
  rw [← hlength] at hedit
  refine ⟨_, kept, removed, ?_, hpart, ?_, hrewrites⟩
  · have hordered : ¬b.stop < b.start := by omega
    simp only [Transcript.truncate, horder.numbered.locate h.blocks, if_neg hordered, hn, hedit, bind,
      Except.bind, pure, Except.pure]
    rfl
  · rw [hlength, h.covers.start, byteLength_append]

-- Only a cut of the text is accepted.
theorem isCut_of_truncate (h : s.Hold t b prompt command output) (horder : t.InOrder) {stop : Nat}
    (hrun : t.truncate b.id stop = .ok t') :
    IsCut t.document.text (min (max stop b.start) b.stop) := by
  have hinner := h.covers.ordered
  have hordered : ¬b.stop < b.start := by omega
  obtain ⟨-, -, -, hstop⟩ := h.arranged.isCut b (by rw [h.blocks]; simp)
  by_cases hend : min (max stop b.start) b.stop = b.stop
  · rw [hend]
    exact hstop
  · have hproper : ¬b.stop ≤ min (max stop b.start) b.stop := by omega
    cases hsplice : splice? t.document.text (min (max stop b.start) b.stop) b.stop [] with
    | some parts => exact isCut_of_splice? hsplice
    | none =>
      simp [Transcript.truncate, horder.numbered.locate h.blocks, hordered, Transcript.edit,
        Document.replace?, hproper, hsplice, orBadOffset, bind, Except.bind] at hrun

end Surroundings.Hold

end ShellTranscript
