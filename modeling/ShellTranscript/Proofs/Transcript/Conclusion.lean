import Mathlib.Tactic.Common
import ShellTranscript.Proofs.Transcript.Writing

-- The end of a command: its block is trimmed, and taken out if nothing is left to see. Either way the
-- transcript is laid out again, with no open block.
namespace ShellTranscript

open Text

namespace Transcript

-- A block with this text, without its last line if that is blank.
def trimmedBlock (b : Block) (body : Text) : Block :=
  if (trim (lastLine body)).isEmpty then b.cutOff (b.start + byteLength (dropBlankLine body)) else b

-- What a block keeps when it is cut off.
structure Shortened (b b' : Block) : Prop where
  id : b'.id = b.id
  start : b'.start = b.start
  prompt : b'.prompt = b.prompt
  command : b'.command = b.command
  exitCode : b'.exitCode = b.exitCode
  isOpen : b'.isOpen = b.isOpen
  frame : b'.frame = b.frame

theorem shortened_cutOff (b : Block) (stop : Nat) : Shortened b (b.cutOff stop) :=
  ⟨rfl, rfl, rfl, rfl, rfl, rfl, rfl⟩

theorem shortened_trimmedBlock (b : Block) (body : Text) : Shortened b (trimmedBlock b body) := by
  rw [trimmedBlock]
  split
  · exact shortened_cutOff b _
  · exact ⟨rfl, rfl, rfl, rfl, rfl, rfl, rfl⟩

section Conclusion

variable {t : Transcript} {before body : Text} {closed : List Block} {b : Block}

theorem EndsIn.trimLastLine (h : t.EndsIn (before ++ body) closed b)
    (hstart : b.start = byteLength before) (hbefore : before = [] ∨ ∃ s, before = s ++ ['\n']) :
    ∃ t', t.trimLastLine b.id = .ok t' ∧
      t'.EndsIn (before ++ dropBlankLine body) closed (trimmedBlock b body) ∧
      t'.nextId = t.nextId := by
  have hlineStart : t.document.lineStart? b.stop =
      some (b.start + byteLength (earlierLines body)) := by
    rw [Document.lineStart?, h.text, h.stop, lineStart?_byteLength, earlierLines_append hbefore,
      byteLength_append, hstart]
  have hmax : max (b.start + byteLength (earlierLines body)) b.start =
      b.start + byteLength (earlierLines body) := by omega
  have hline : t.document.slice? (b.start + byteLength (earlierLines body)) b.stop =
      some (lastLine body) := by
    have hslice := slice?_append (before ++ earlierLines body) (lastLine body) []
    rw [List.append_nil, List.append_assoc before, earlierLines_append_lastLine,
      byteLength_append before (earlierLines body), ← h.stop, ← hstart] at hslice
    rw [Document.slice?, h.text, hslice]
  simp only [Transcript.trimLastLine, h.locate, hlineStart, hmax, hline, orBadOffset, bind,
    Except.bind, pure, Except.pure]
  by_cases hblank : (trim (lastLine body)).isEmpty = true
  · obtain ⟨rest, hrest⟩ := dropBlankLine_prefix body
    have hsplit : t.EndsIn ((before ++ dropBlankLine body) ++ rest) closed b := by
      rwa [List.append_assoc, ← hrest]
    have hcut : (if b.start + byteLength (earlierLines body) > b.start then
        b.start + byteLength (earlierLines body) - 1 else b.start + byteLength (earlierLines body)) =
          byteLength (before ++ dropBlankLine body) := by
      rw [dropBlankLine, if_pos hblank, byteLength_append, hstart]
      cases earlierLines_eq body with
      | inl hnil => simp [hnil]
      | inr hfeed =>
        obtain ⟨s, hs⟩ := hfeed
        have hone : byteLength ['\n'] = 1 := by decide
        rw [hs, List.dropLast_concat, byteLength_append, hone, if_pos (by omega)]
        omega
    obtain ⟨t', htruncate, hends, hnext⟩ := hsplit.truncate (by rw [byteLength_append]; omega)
    refine ⟨t', ?_, ?_, hnext⟩
    · rw [if_pos hblank, hcut, htruncate]
    · rw [trimmedBlock, if_pos hblank, hstart, ← byteLength_append]
      exact hends
  · refine ⟨t, by rw [if_neg hblank], ?_, rfl⟩
    rwa [trimmedBlock, if_neg hblank, dropBlankLine, if_neg hblank]

-- A block after its command: trimmed, and marked if the command failed.
def concludedBlock (b : Block) (body : Text) (exitCode : Int) (isFirst : Bool) : Block :=
  let b := trimmedBlock (b.finish exitCode) body
  if exitCode ≠ 0 then
    { b with frame := some { b.frame.getD { firstBlock := isFirst } with state := .error } }
  else b

private theorem EndsIn.finish_trim (h : t.EndsIn (before ++ body) closed b)
    (hstart : b.start = byteLength before) (hbefore : before = [] ∨ ∃ s, before = s ++ ['\n'])
    (exitCode : Int) :
    ∃ t₁ t₂, t.finish b.id exitCode = .ok t₁ ∧ t₁.trimLastLine b.id = .ok t₂ ∧
      t₂.EndsIn (before ++ dropBlankLine body) closed (trimmedBlock (b.finish exitCode) body) ∧
      t₂.document.slice? (trimmedBlock (b.finish exitCode) body).start
        (trimmedBlock (b.finish exitCode) body).stop = some (dropBlankLine body) ∧
      t₂.nextId = t.nextId := by
  obtain ⟨t₁, hfinish, hends₁, hnext₁⟩ := h.finish exitCode
  obtain ⟨t₂, htrim, hends₂, hnext₂⟩ := hends₁.trimLastLine hstart hbefore
  refine ⟨t₁, t₂, hfinish, htrim, hends₂, ?_, hnext₂.trans hnext₁⟩
  have hslice := slice?_append before (dropBlankLine body) []
  rw [List.append_nil, ← hends₂.stop, ← hstart] at hslice
  rw [Document.slice?, hends₂.text, (shortened_trimmedBlock _ _).start]
  exact hslice

-- A block with nothing but blanks is taken out.
theorem EndsIn.conclude_blank (h : t.EndsIn (before ++ body) closed b)
    (hstart : b.start = byteLength before) (hbefore : before = [] ∨ ∃ s, before = s ++ ['\n'])
    (hblank : (trim (dropBlankLine body)).isEmpty = true) (exitCode : Int) :
    ∃ t', t.conclude b.id exitCode = .ok t' ∧ t'.document.text = before.dropLast ∧
      t'.blocks = closed ∧ t'.Numbered ∧ t'.separatorPending = false ∧ t'.nextId = t.nextId := by
  obtain ⟨t₁, t₂, hfinish, htrim, hends, hslice, hnext⟩ := h.finish_trim hstart hbefore exitCode
  have hid : (trimmedBlock (b.finish exitCode) body).id = b.id := (shortened_trimmedBlock _ _).id
  have hstart' := (shortened_trimmedBlock (b.finish exitCode) body).start.trans hstart
  obtain ⟨t₃, hremove, htext, hblocks, hids, hpending, hnext'⟩ := hends.remove hstart' hbefore
  have hlocate := hends.locate
  rw [hid] at hremove hlocate
  refine ⟨t₃, ?_, htext, hblocks, hids, hpending, hnext'.trans hnext⟩
  simp only [Transcript.conclude, hfinish, htrim, hlocate, hslice, orBadOffset, hblank, if_true,
    hremove, bind, Except.bind]

theorem EndsIn.conclude_shown (h : t.EndsIn (before ++ body) closed b)
    (hstart : b.start = byteLength before) (hbefore : before = [] ∨ ∃ s, before = s ++ ['\n'])
    (hshown : (trim (dropBlankLine body)).isEmpty = false) (exitCode : Int) :
    ∃ t', t.conclude b.id exitCode = .ok t' ∧
      t'.EndsIn (before ++ dropBlankLine body) closed
        (concludedBlock b body exitCode closed.isEmpty) ∧
      t'.nextId = t.nextId := by
  obtain ⟨t₁, t₂, hfinish, htrim, hends, hslice, hnext⟩ := h.finish_trim hstart hbefore exitCode
  have hid : (trimmedBlock (b.finish exitCode) body).id = b.id := (shortened_trimmedBlock _ _).id
  obtain ⟨t₃, hmark, hends', hnext'⟩ := hends.setFrameState .error
  have hlocate := hends.locate
  rw [hid] at hmark hlocate
  simp only [Transcript.conclude, hfinish, htrim, hlocate, hslice, orBadOffset, hshown, if_false,
    Bool.false_eq_true, hmark, bind, Except.bind, pure, Except.pure, concludedBlock]
  by_cases hfailed : exitCode ≠ 0
  · rw [if_pos hfailed, if_pos hfailed]
    exact ⟨t₃, rfl, hends', hnext'.trans hnext⟩
  · rw [if_neg hfailed, if_neg hfailed]
    exact ⟨t₂, rfl, hends, hnext⟩

-- The text and the blocks after a block with this text is concluded.
def concludedText (before body : Text) : Text :=
  if (trim (dropBlankLine body)).isEmpty then before.dropLast else before ++ dropBlankLine body

def concludedBlocks (closed : List Block) (b : Block) (body : Text) (exitCode : Int) : List Block :=
  if (trim (dropBlankLine body)).isEmpty then closed
  else closed ++ [concludedBlock b body exitCode closed.isEmpty]

theorem byteLength_concludedText_le (before body : Text) :
    byteLength (concludedText before body) ≤ byteLength (before ++ body) := by
  rw [concludedText]
  split
  · have hsplit : before = before.dropLast ++ before.drop (before.length - 1) := by
      rw [List.dropLast_eq_take, List.take_append_drop]
    have hlength := congrArg byteLength hsplit
    rw [byteLength_append] at hlength
    rw [byteLength_append]
    omega
  · obtain ⟨rest, hrest⟩ := dropBlankLine_prefix body
    have hlength := congrArg byteLength hrest
    rw [byteLength_append] at hlength
    rw [byteLength_append, byteLength_append]
    omega

theorem concludedBlock_id (b : Block) (body : Text) (exitCode : Int) (isFirst : Bool) :
    (concludedBlock b body exitCode isFirst).id = b.id := by
  have hshortened := shortened_trimmedBlock (b.finish exitCode) body
  unfold concludedBlock
  split <;> exact hshortened.id

theorem concludedBlock_fields (b : Block) (body : Text) (exitCode : Int) (isFirst : Bool) :
    (concludedBlock b body exitCode isFirst).prompt = b.prompt ∧
      (concludedBlock b body exitCode isFirst).command = b.command ∧
      (concludedBlock b body exitCode isFirst).exitCode = some exitCode := by
  have hshortened := shortened_trimmedBlock (b.finish exitCode) body
  unfold concludedBlock
  split <;> exact ⟨hshortened.prompt, hshortened.command, hshortened.exitCode⟩

-- The frame tells how the command ended.
theorem concludedBlock_frame {b : Block} (h : b.frame.map Frame.state = some .normal) (body : Text)
    (exitCode : Int) (isFirst : Bool) :
    (concludedBlock b body exitCode isFirst).frame.map Frame.state =
      some (if exitCode = 0 then .normal else .error) := by
  have htrimmed : (trimmedBlock (b.finish exitCode) body).frame = b.frame :=
    (shortened_trimmedBlock (b.finish exitCode) body).frame
  unfold concludedBlock
  by_cases hfailed : exitCode = 0
  · rw [if_neg (not_not.mpr hfailed), if_pos hfailed, htrimmed, h]
  · rw [if_pos hfailed, if_neg hfailed]
    rfl

theorem concludedBlock_isOpen (b : Block) (body : Text) (exitCode : Int) (isFirst : Bool) :
    (concludedBlock b body exitCode isFirst).isOpen = false := by
  have hshortened := shortened_trimmedBlock (b.finish exitCode) body
  unfold concludedBlock
  split <;> exact hshortened.isOpen

end Conclusion

end Transcript

-- A block that is cut off still consists of what is left of its parts.
theorem Block.Covers.cutOff {b : Block} {before prompt command output kept rest : Text}
    (h : b.Covers before prompt command output)
    (hkept : prompt ++ command ++ output = kept ++ rest) :
    ∃ prompt' command' output', kept = prompt' ++ command' ++ output' ∧ output' <+: output ∧
      (b.cutOff (byteLength (before ++ kept))).Covers before prompt' command' output' := by
  have hstart := h.start
  have hcommand := h.commandStart
  have houtput := h.outputStart
  simp only [byteLength_append] at hcommand houtput
  rw [List.append_assoc, List.append_eq_append_iff] at hkept
  rcases hkept with ⟨tail, rfl, htail⟩ | ⟨cut, rfl, -⟩
  · rw [List.append_eq_append_iff] at htail
    rcases htail with ⟨tail', rfl, rfl⟩ | ⟨cut, rfl, -⟩
    · refine ⟨prompt, command, tail', (List.append_assoc _ _ _).symm, List.prefix_append _ _,
        hstart, ?_, ?_, ?_⟩ <;>
        simp only [Block.cutOff, Block.endingAt, Block.clampToStop, byteLength_append] <;> omega
    · simp only [byteLength_append] at houtput
      refine ⟨prompt, tail, [], by simp, List.nil_prefix, hstart, ?_, ?_, ?_⟩ <;>
        simp only [Block.cutOff, Block.endingAt, Block.clampToStop, byteLength_append,
          byteLength_nil] <;> omega
  · simp only [byteLength_append] at hcommand houtput
    refine ⟨kept, [], [], by simp, List.nil_prefix, hstart, ?_, ?_, ?_⟩ <;>
      simp only [Block.cutOff, Block.endingAt, Block.clampToStop, byteLength_append,
        byteLength_nil] <;> omega

namespace Transcript

-- The parts of a concluded block.
theorem concludedBlock_covers {b : Block} {before prompt command output : Text}
    (h : b.Covers before prompt command output) (exitCode : Int) (isFirst : Bool) :
    ∃ prompt' command' output',
      dropBlankLine (prompt ++ command ++ output) = prompt' ++ command' ++ output' ∧
      output' <+: output ∧
      (concludedBlock b (prompt ++ command ++ output) exitCode isFirst).Covers
        before prompt' command' output' := by
  have hframe : ∀ {c : Block} {frame : Option Frame} {p q r : Text}, c.Covers before p q r →
      ({ c with frame } : Block).Covers before p q r :=
    fun hc => ⟨hc.start, hc.commandStart, hc.outputStart, hc.stop⟩
  have hfinished : (b.finish exitCode).Covers before prompt command output :=
    ⟨h.start, h.commandStart, h.outputStart, h.stop⟩
  obtain ⟨rest, hrest⟩ := dropBlankLine_prefix (prompt ++ command ++ output)
  obtain ⟨p, c, o, hparts, hprefix, hcovers⟩ : ∃ p c o,
      dropBlankLine (prompt ++ command ++ output) = p ++ c ++ o ∧ o <+: output ∧
        (trimmedBlock (b.finish exitCode) (prompt ++ command ++ output)).Covers before p c o := by
    by_cases hblank : (trim (lastLine (prompt ++ command ++ output))).isEmpty = true
    · have hcut := hfinished.cutOff hrest
      rw [byteLength_append, ← hfinished.start] at hcut
      rwa [trimmedBlock, if_pos hblank]
    · refine ⟨prompt, command, output, by rw [dropBlankLine, if_neg hblank], List.prefix_refl _, ?_⟩
      rwa [trimmedBlock, if_neg hblank]
  refine ⟨p, c, o, hparts, hprefix, ?_⟩
  unfold concludedBlock
  split
  · exact hframe hcovers
  · exact hcovers

theorem Ready.laid_block {before prompt command output : Text} {closed : List Block} {b : Block}
    (h : Ready before closed) (hcovers : b.Covers before prompt command output) :
    Laid (before ++ prompt ++ command ++ output) (closed ++ [b]) := by
  obtain ⟨hclosed, s, separator, rfl, hlaid, hsep⟩ := h
  exact .block hlaid hclosed hsep hcovers

theorem EndsIn.conclude {t : Transcript} {before prompt command output : Text}
    {closed : List Block} {b : Block}
    (h : t.EndsIn (before ++ prompt ++ command ++ output) closed b)
    (hcovers : b.Covers before prompt command output) (hready : Ready before closed)
    (exitCode : Int) :
    ∃ t', t.conclude b.id exitCode = .ok t' ∧
      t'.document.text = concludedText before (prompt ++ command ++ output) ∧
      t'.blocks = concludedBlocks closed b (prompt ++ command ++ output) exitCode ∧
      t'.Rests ∧ t'.separatorPending = false ∧ t'.nextId = t.nextId := by
  have hsplit : before ++ prompt ++ command ++ output = before ++ (prompt ++ command ++ output) := by
    simp only [List.append_assoc]
  rw [hsplit] at h
  by_cases hblank : (trim (dropBlankLine (prompt ++ command ++ output))).isEmpty = true
  · obtain ⟨t', hconclude, htext, hblocks, hids, hpending, hnext⟩ :=
      h.conclude_blank hcovers.start hready.eq_nil_or hblank exitCode
    rw [concludedText, if_pos hblank, concludedBlocks, if_pos hblank]
    refine ⟨t', hconclude, htext, hblocks, ⟨?_, ?_, hids, ?_⟩, hpending, hnext⟩
    · rw [htext, hblocks]
      exact hready.laid_dropLast
    · rw [hblocks]
      exact hready.1
    · simp [hpending]
  · have hshown := Bool.eq_false_iff.mpr hblank
    obtain ⟨t', hconclude, hends, hnext⟩ :=
      h.conclude_shown hcovers.start hready.eq_nil_or hshown exitCode
    obtain ⟨p, c, o, hparts, -, hcovers'⟩ :=
      concludedBlock_covers hcovers exitCode closed.isEmpty
    rw [concludedText, if_neg hblank, concludedBlocks, if_neg hblank]
    refine ⟨t', hconclude, hends.text, hends.blocks, ⟨?_, ?_, hends.numbered, ?_⟩,
      hends.noSeparator, hnext⟩
    · rw [hends.text, hends.blocks, hparts]
      simpa only [List.append_assoc] using hready.laid_block hcovers'
    · rw [hends.blocks]
      intro c hc
      cases List.mem_append.mp hc with
      | inl hc => exact hready.1 c hc
      | inr hc =>
        obtain rfl := List.mem_singleton.mp hc
        exact concludedBlock_isOpen _ _ _ _
    · simp [hends.noSeparator]

-- A concluded block holds what is left of its text.
theorem slice?_concludedBlock {b : Block} {before prompt command output : Text}
    (h : b.Covers before prompt command output) (exitCode : Int) (isFirst : Bool) :
    slice? (before ++ dropBlankLine (prompt ++ command ++ output))
        (concludedBlock b (prompt ++ command ++ output) exitCode isFirst).start
        (concludedBlock b (prompt ++ command ++ output) exitCode isFirst).stop =
      some (dropBlankLine (prompt ++ command ++ output)) := by
  obtain ⟨p, c, o, hparts, -, hcovers⟩ := concludedBlock_covers h exitCode isFirst
  have hwhole : before ++ p ++ c ++ o = before ++ dropBlankLine (prompt ++ command ++ output) := by
    rw [hparts]
    simp only [List.append_assoc]
  have hslice := slice?_append before (dropBlankLine (prompt ++ command ++ output)) []
  rwa [List.append_nil, ← hwhole, ← hcovers.stop, ← hcovers.start, hwhole] at hslice

-- The text of a concluded block, if it is still there.
theorem blockText?_concluded {t : Transcript} {before prompt command output : Text}
    {closed : List Block} {b : Block} {exitCode : Int}
    (hcovers : b.Covers before prompt command output) (hfresh : ∀ c ∈ closed, c.id ≠ b.id)
    (htext : t.document.text = concludedText before (prompt ++ command ++ output))
    (hblocks : t.blocks = concludedBlocks closed b (prompt ++ command ++ output) exitCode) :
    t.blockText? b.id =
      if (trim (dropBlankLine (prompt ++ command ++ output))).isEmpty then none
      else some (some (dropBlankLine (prompt ++ command ++ output))) := by
  have hnone : closed.find? (fun c => c.id == b.id) = none := by
    rw [List.find?_eq_none]
    intro c hc
    simpa using hfresh c hc
  rw [concludedText] at htext
  rw [concludedBlocks] at hblocks
  by_cases hblank : (trim (dropBlankLine (prompt ++ command ++ output))).isEmpty = true
  · rw [if_pos hblank] at hblocks ⊢
    rw [blockText?, Transcript.block?, hblocks, hnone, Option.map_none]
  · rw [if_neg hblank] at hblocks htext ⊢
    have hslice := slice?_concludedBlock hcovers exitCode closed.isEmpty
    simp only [blockText?, Transcript.block?, hblocks, List.find?_append, hnone, Option.none_or,
      List.find?_cons, concludedBlock_id, beq_self_eq_true, Option.map_some, Document.slice?, htext,
      hslice]

-- A block without the frame around it.
def unframed (b : Block) : Block := { b with frame := none }

theorem unframed_concludedBlock (b : Block) (body : Text) (exitCode : Int) (isFirst : Bool) :
    unframed (concludedBlock b body exitCode isFirst) =
      unframed (trimmedBlock ((unframed b).finish exitCode) body) := by
  unfold concludedBlock trimmedBlock
  split <;> split <;> rfl

-- Blocks that differ in their frames alone are concluded alike.
theorem unframed_concludedBlocks {b b' : Block} (h : unframed b = unframed b')
    (closed : List Block) (body : Text) (exitCode : Int) :
    (concludedBlocks closed b body exitCode).map unframed =
      (concludedBlocks closed b' body exitCode).map unframed := by
  simp only [concludedBlocks]
  split
  · rfl
  · simp only [List.map_append, List.map_cons, List.map_nil, unframed_concludedBlock, h]

theorem closeLast_of_closed {t : Transcript} (h : AllClosed t.blocks) : t.closeLast = t := by
  have hblocks : t.blocks.modify (t.blocks.length - 1) Block.close = t.blocks := by
    refine List.ext_getElem? fun n => ?_
    rw [List.getElem?_modify]
    split
    · cases hb : t.blocks[n]? with
      | none => rfl
      | some b =>
        have hclosed := h b (List.mem_of_getElem? hb)
        cases b
        simp_all [Block.close]
    · simp
  rw [closeLast, modifyAt, hblocks]

theorem EndsIn.closeLast_rests {t : Transcript} {before prompt command output : Text}
    {closed : List Block} {b : Block}
    (h : t.EndsIn (before ++ prompt ++ command ++ output) closed b)
    (hcovers : b.Covers before prompt command output) (hready : Ready before closed) :
    t.closeLast.Rests := by
  have hends := h.closeLast
  refine ⟨?_, ?_, hends.numbered, ?_⟩
  · rw [hends.text, hends.blocks]
    exact hready.laid_block
      ⟨hcovers.start, hcovers.commandStart, hcovers.outputStart, hcovers.stop⟩
  · rw [hends.blocks]
    intro c hc
    cases List.mem_append.mp hc with
    | inl hc => exact hready.1 c hc
    | inr hc =>
      obtain rfl := List.mem_singleton.mp hc
      rfl
  · simp [hends.noSeparator]

-- The line feed stands behind a laid out text, however many there were before.
theorem Rests.appendLineBreak {t : Transcript} (h : t.Rests) : t.appendLineBreak.Rests := by
  have htext : t.appendLineBreak.document.text = t.document.text ++ ['\n'] := by
    simp [Transcript.appendLineBreak, Document.append, Document.tell]
  refine ⟨?_, h.closed, ⟨h.numbered.ascending, h.numbered.below⟩, fun _ => ?_⟩
  · rw [htext]
    exact .lineFeed h.laid h.closed
  · exact ⟨t.document.text, htext, h.laid⟩

theorem clear_text (t : Transcript) : t.clear.document.text = [] := by
  simp only [clear, Document.clear]
  split
  · assumption
  · rfl

theorem clear_rests (t : Transcript) : t.clear.Rests := by
  have hblocks : t.clear.blocks = [] := rfl
  have hpending : t.clear.separatorPending = false := rfl
  refine ⟨?_, ?_, ⟨?_, ?_⟩, ?_⟩
  · rw [clear_text, hblocks]
    exact .empty
  · simp [hblocks, AllClosed]
  · simp [hblocks]
  · simp [hblocks]
  · simp [hpending]

end Transcript

end ShellTranscript
