import Mathlib.Tactic.Common
import ShellTranscript.Proofs.Transcript.Editing

-- Runs of operations on a transcript, in any order and on any block. As long as no block is taken
-- out, the blocks stay in order, and an edit of any of them is exact and leaves all others alone.
namespace ShellTranscript

open Text

namespace Transcript

inductive Operation where
  | create (command prompt : Option Text)
  | append (id : Nat) (text : Text) (part : BlockPart)
  | replaceOutput (id : Nat) (text : Text)
  | truncate (id stop : Nat)
  | finish (id : Nat) (exitCode : Int)
  | closeLast
  | lineBreak
  | remove (id : Nat)
  | clear
  | putSpans (id : Nat) (spans : List Span)
  | putFrame (id : Nat) (firstBlock : Bool)
  | setFrameState (id : Nat) (state : FrameState)

namespace Operation

def run (t : Transcript) : Operation → Except Refusal Transcript
  | create command prompt => (t.createBlock command prompt).map Prod.snd
  | append id text part => (t.append id text part).map Prod.snd
  | replaceOutput id text => t.replaceOutput id text
  | truncate id stop => t.truncate id stop
  | finish id exitCode => t.finish id exitCode
  | closeLast => .ok t.closeLast
  | lineBreak => .ok t.appendLineBreak
  | remove id => t.remove id
  | clear => .ok t.clear
  | putSpans id spans => t.putSpans id spans
  | putFrame id firstBlock => t.putFrame id firstBlock
  | setFrameState id state => t.setFrameState id state

-- The block that an operation is about.
def target? : Operation → Option Nat
  | append id _ _ | replaceOutput id _ | truncate id _ | finish id _ | remove id | putSpans id _
  | putFrame id _ | setFrameState id _ => some id
  | create _ _ | closeLast | lineBreak | clear => none

def isRemoval : Operation → Bool
  | remove _ => true
  | _ => false

-- No block is created behind others in a document that is empty, where it would touch them.
def Tidy (t : Transcript) (o : Operation) : Prop :=
  ∀ command prompt, o = create command prompt → t.document.text = [] → t.blocks = []

end Operation

-- The transcripts that allowed operations lead to, from an empty one. What is refused changes nothing,
-- listeners come and go, and a document has no more bytes than there are offsets.
inductive Reached (allowed : Transcript → Operation → Prop) : Transcript → Prop where
  | new : Reached allowed {}
  | step {t t' : Transcript} {o : Operation} : Reached allowed t → allowed t o → o.run t = .ok t' →
      t'.document.length ≤ maxOffset → Reached allowed t'
  | listeners {t t' : Transcript} : Reached allowed t → t.SameRecord t' → Reached allowed t'

variable {t t' : Transcript}

-- Ranges follow each other and are cut out of the text, and only the last block can be open.
structure Orderly (t : Transcript) : Prop where
  sections : ∀ b ∈ t.blocks, b.start ≤ b.commandStart ∧ b.commandStart ≤ b.outputStart ∧
    b.outputStart ≤ b.stop ∧ b.stop ≤ t.document.length
  cuts : ∀ b ∈ t.blocks, IsCut t.document.text b.start ∧ IsCut t.document.text b.commandStart ∧
    IsCut t.document.text b.outputStart ∧ IsCut t.document.text b.stop
  disjoint : t.blocks.Pairwise fun a b => a.stop ≤ b.start
  closed : AllClosed t.blocks.dropLast

theorem InOrder.orderly (h : t.InOrder) : t.Orderly := by
  refine ⟨?_, ?_, h.arranged.pairwise, h.closed⟩
  · intro b hb
    exact (h.arranged.ordered b hb).2
  · intro b hb
    exact h.arranged.isCut b hb

-- An operation on a block that is not listed is refused.
theorem Operation.run_unlisted {o : Operation} {id : Nat} (htarget : o.target? = some id)
    (hid : ∀ b ∈ t.blocks, b.id ≠ id) : o.run t = .error (.unknownBlock id) := by
  have hindex : t.indexOf id = .error (.unknownBlock id) := by
    have hnone : t.blocks.findIdx? (fun b => b.id == id) = none := by
      rw [List.findIdx?_eq_none_iff]
      intro b hb
      simpa using hid b hb
    rw [Transcript.indexOf, hnone]
  have hlocate : t.locate id = .error (.unknownBlock id) := by
    simp [Transcript.locate, hindex, bind, Except.bind]
  cases o <;> simp only [target?, Option.some.injEq, reduceCtorEq] at htarget <;> subst htarget <;>
    simp [run, Transcript.append, Transcript.replaceOutput, Transcript.truncate, Transcript.finish,
      Transcript.remove, Transcript.putSpans, Transcript.putFrame, Transcript.setFrameState,
      Transcript.modifyBlock, hindex, hlocate, bind, Except.bind, Except.map]

theorem InOrder.exists_hold (h : t.InOrder) {b : Block} (hb : b ∈ t.blocks) :
    ∃ s prompt command output, Surroundings.Hold s t b prompt command output := by
  obtain ⟨front, back, hblocks⟩ := List.append_of_mem hb
  have harranged := h.arranged
  rw [hblocks] at harranged
  obtain ⟨lead, prompt, command, output, rest, htext, hfront, hcovers, hback⟩ := harranged.split_at
  rw [List.nil_append] at hcovers hback
  exact ⟨⟨front, lead, rest, back⟩, prompt, command, output, htext, hblocks, hfront, hcovers, hback⟩

theorem Operation.listed_of_run {o : Operation} {id : Nat} (htarget : o.target? = some id)
    (hrun : o.run t = .ok t') : ∃ b ∈ t.blocks, b.id = id := by
  by_contra hnone
  push Not at hnone
  rw [Operation.run_unlisted htarget hnone] at hrun
  cases hrun

theorem InOrder.hold_of_run (h : t.InOrder) {o : Operation} {id : Nat} (htarget : o.target? = some id)
    (hrun : o.run t = .ok t') : ∃ b s prompt command output,
      b.id = id ∧ Surroundings.Hold s t b prompt command output := by
  obtain ⟨b, hb, hid⟩ := Operation.listed_of_run htarget hrun
  obtain ⟨s, prompt, command, output, hhold⟩ := h.exists_hold hb
  exact ⟨b, s, prompt, command, output, hid, hhold⟩

theorem InOrder.of_sameRecord (h : t.InOrder) (hsame : t.SameRecord t') : t'.InOrder := by
  refine ⟨?_, ?_, hsame.numbered h.numbered, ?_⟩
  · rw [hsame.blocks, hsame.text]
    exact h.arranged
  · rw [hsame.blocks]
    exact h.closed
  · rw [Document.length, hsame.text]
    exact h.fits

theorem inOrder_new : InOrder {} :=
  ⟨.gap (by simp [OnlyFeeds]), by simp [AllClosed], ⟨by simp, by simp⟩, Nat.zero_le _⟩

-- Changes of a block that leave it in its place, and closed if it was.
structure Stays (f : Block → Block) : Prop where
  id : ∀ b, (f b).id = b.id
  range : ∀ b, ((f b).start, (f b).stop) = (b.start, b.stop)
  covers : ∀ {b : Block} {before prompt command output : Text},
    b.Covers before prompt command output → (f b).Covers before prompt command output
  closed : ∀ b, b.isOpen = false → (f b).isOpen = false

-- What a successful operation keeps: the order, and the space between blocks if it is tidy.
structure Keeps (t : Transcript) (o : Operation) (t' : Transcript) : Prop where
  inOrder : t'.InOrder
  spaced : o.Tidy t → t.Spaced → t'.Spaced

theorem Rewrites.keeps {b' : Block} {text whole : Text} (h : t.Rewrites b' text whole t')
    (hfits : t'.document.length ≤ maxOffset) (o : Operation) : t.Keeps o t' :=
  ⟨(h.exact_of_fits hfits).1, fun _ => h.spaced_of_fits hfits⟩

theorem Spaced.of_ranges (h : t.Spaced)
    (hranges : t'.blocks.map (fun b => (b.start, b.stop)) = t.blocks.map fun b => (b.start, b.stop))
    (hpending : t'.separatorPending = true → t.separatorPending = true)
    (hlength : t.document.length ≤ t'.document.length) : t'.Spaced := by
  refine ⟨?_, ?_⟩
  · have hpairs : (t.blocks.map fun b => (b.start, b.stop)).Pairwise fun a b => a.2 < b.1 :=
      List.pairwise_map.mpr h.blocks
    rw [← hranges] at hpairs
    exact List.pairwise_map.mp hpairs
  · intro hpending' b hb
    have hrange : (b.start, b.stop) ∈ t.blocks.map fun b => (b.start, b.stop) :=
      hranges ▸ List.mem_map_of_mem hb
    obtain ⟨c, hc, hrange⟩ := List.mem_map.mp hrange
    have hlt := h.pending (hpending hpending') c hc
    have hstop := congrArg Prod.snd hrange
    omega

theorem Spaced.modifyAt (h : t.Spaced) {f : Block → Block} (hf : Stays f) (index : Nat) :
    (t.modifyAt index f).Spaced := by
  refine h.of_ranges ?_ (fun hpending => hpending) (Nat.le_refl _)
  exact map_modify hf.range t.blocks index

theorem InOrder.modifyAt (h : t.InOrder) {f : Block → Block} (hf : Stays f) (index : Nat) :
    (t.modifyAt index f).InOrder := by
  by_cases hindex : index < t.blocks.length
  · have hplace : t.blocks = t.blocks.take index ++ t.blocks[index] :: t.blocks.drop (index + 1) := by
      simp
    have hlength : (t.blocks.take index).length = index := List.length_take_of_le (by omega)
    have harranged := h.arranged
    rw [hplace] at harranged
    obtain ⟨lead, prompt, command, output, rest, htext, hfront, hcovers, hback⟩ := harranged.split_at
    rw [List.nil_append] at hcovers hback
    have hhold : Surroundings.Hold ⟨t.blocks.take index, lead, rest, t.blocks.drop (index + 1)⟩ t
        t.blocks[index] prompt command output := ⟨htext, hplace, hfront, hcovers, hback⟩
    have hmodified : (t.modifyAt index f).blocks =
        t.blocks.take index ++ f t.blocks[index] :: t.blocks.drop (index + 1) := by
      have hmodify :=
        modify_append_cons (t.blocks.take index) (t.blocks.drop (index + 1)) t.blocks[index] f
      rwa [← hplace, hlength] at hmodify
    have hhold' : Surroundings.Hold ⟨t.blocks.take index, lead, rest, t.blocks.drop (index + 1)⟩
        (t.modifyAt index f) (f t.blocks[index]) prompt command output :=
      ⟨htext, hmodified, hfront, hf.covers hcovers, hback⟩
    exact hhold.inOrder hhold' rfl rfl (hf.id _) (hf.closed _) rfl h.fits h
  · have hsame : t.modifyAt index f = t := by
      rw [Transcript.modifyAt, List.modify_eq_self (by omega)]
    rwa [hsame]

theorem InOrder.keeps_modifyAt (h : t.InOrder) {f : Block → Block} (hf : Stays f) (index : Nat)
    (o : Operation) : t.Keeps o (t.modifyAt index f) :=
  ⟨h.modifyAt hf index, fun _ hspaced => hspaced.modifyAt hf index⟩

theorem InOrder.keeps_modifyBlock (h : t.InOrder) {f : Block → Block} (hf : Stays f) {id : Nat}
    (hrun : t.modifyBlock id f = .ok t') (o : Operation) : t.Keeps o t' := by
  cases hindex : t.indexOf id with
  | error refusal => simp [Transcript.modifyBlock, hindex, bind, Except.bind] at hrun
  | ok index =>
    simp only [Transcript.modifyBlock, hindex, bind, Except.bind, pure, Except.pure,
      Except.ok.injEq] at hrun
    subst hrun
    exact h.keeps_modifyAt hf index o

theorem InOrder.appendLineBreak (h : t.InOrder) (hfits : t.appendLineBreak.document.length ≤ maxOffset) :
    t.appendLineBreak.InOrder := by
  refine ⟨?_, h.closed, ⟨h.numbered.ascending, h.numbered.below⟩, hfits⟩
  have hfeed : Arranged ([] ++ t.document.text) [] ['\n'] := .gap (by simp [OnlyFeeds])
  have hjoined := h.arranged.append hfeed
  rw [List.append_nil] at hjoined
  simpa [Transcript.appendLineBreak, Document.append, Document.tell] using hjoined

-- The line feed behind all blocks makes room for the next one.
theorem InOrder.spaced_appendLineBreak (h : t.InOrder) (hspaced : t.Spaced) :
    t.appendLineBreak.Spaced := by
  refine ⟨hspaced.blocks, ?_⟩
  intro _ b hb
  have hle := (h.orderly.sections b hb).2.2.2
  have hlength : t.appendLineBreak.document.length = t.document.length + 1 := by
    have hfeed : byteLength ['\n'] = 1 := by decide
    simp [Transcript.appendLineBreak, Document.append, Document.tell, Document.length, hfeed]
  omega

theorem inOrder_clear (t : Transcript) : t.clear.InOrder := by
  have hrests := t.clear_rests
  have hblocks : t.clear.blocks = [] := rfl
  refine ⟨?_, ?_, hrests.numbered, ?_⟩
  · rw [clear_text, hblocks]
    exact .gap (by simp [OnlyFeeds])
  · simp [hblocks, AllClosed]
  · rw [Document.length, clear_text]
    exact Nat.zero_le _

-- A block that is created tidily has something between it and the blocks before it.
theorem InOrder.stop_lt_opening (h : t.InOrder) {command prompt : Option Text}
    (htidy : (Operation.create command prompt).Tidy t) (hspaced : t.Spaced) {b : Block}
    (hb : b ∈ t.blocks) : b.stop < byteLength t.opening := by
  have hle := (h.orderly.sections b hb).2.2.2
  have hsome : t.document.text ≠ [] := by
    intro hempty
    rw [htidy command prompt rfl hempty] at hb
    cases hb
  by_cases hpending : t.separatorPending = true
  · have hlt := hspaced.pending hpending b hb
    simpa [opening, hpending, Document.length] using hlt
  · have hfeed : byteLength ['\n'] = 1 := by decide
    rw [Document.length] at hle
    simp only [opening, hpending, Bool.or_false, List.isEmpty_iff, hsome, if_false,
      byteLength_append, hfeed]
    omega

theorem InOrder.keeps_createBlock (h : t.InOrder) {command prompt : Option Text} {id : Nat}
    (hrun : t.createBlock command prompt = .ok (id, t')) (hfits : t'.document.length ≤ maxOffset) :
    t.Keeps (.create command prompt) t' := by
  cases hactive : t.activeBlock? with
  | some b => simp [Transcript.createBlock, hactive] at hrun
  | none =>
    obtain ⟨t'', hcreate, htext, hblocks, hpending, hnext⟩ := createBlock_eq hactive command prompt
    rw [hrun] at hcreate
    obtain ⟨-, rfl⟩ : id = t.nextId ∧ t' = t'' := by simpa using hcreate
    refine ⟨⟨?_, ?_, h.numbered.concat hblocks rfl hnext, hfits⟩, ?_⟩
    · obtain ⟨gap, hgap, hopening⟩ : ∃ gap, OnlyFeeds gap ∧ t.opening = t.document.text ++ gap := by
        rw [opening]
        split
        · exact ⟨[], by simp [OnlyFeeds], (List.append_nil _).symm⟩
        · exact ⟨['\n'], by simp [OnlyFeeds], rfl⟩
      have hcovers : (Block.opened t.nextId (byteLength t.opening) command prompt).Covers
          ([] ++ t.opening) [] [] [] := by
        refine ⟨rfl, ?_, ?_, ?_⟩ <;> simp [Block.opened]
      have hfront := h.arranged.append (.gap hgap)
      rw [List.append_nil, ← hopening] at hfront
      have hbehind : Arranged ([] ++ t.opening ++ ([] ++ [] ++ [])) [] [] := .gap (by simp [OnlyFeeds])
      have hjoined := hfront.append_block hcovers hbehind
      rw [htext, hblocks]
      simpa only [List.append_nil] using hjoined
    · rw [hblocks, List.dropLast_concat]
      exact allClosed_of_dropLast h.closed hactive
    · intro htidy hspaced
      refine ⟨?_, by simp [hpending]⟩
      rw [hblocks, List.pairwise_append]
      refine ⟨hspaced.blocks, by simp, ?_⟩
      intro a ha b hb
      obtain rfl := List.mem_singleton.mp hb
      exact h.stop_lt_opening htidy hspaced ha

theorem stays_close : Stays Block.close :=
  ⟨fun _ => rfl, fun _ => rfl, fun h => ⟨h.start, h.commandStart, h.outputStart, h.stop⟩, fun _ _ => rfl⟩

theorem stays_finish (exitCode : Int) : Stays (Block.finish exitCode) :=
  ⟨fun _ => rfl, fun _ => rfl, fun h => ⟨h.start, h.commandStart, h.outputStart, h.stop⟩, fun _ _ => rfl⟩

-- Spans and frames are no part of a block's place.
theorem stays_look (spans : Block → Option (List Span)) (frame : Block → Option Frame) :
    Stays fun b => { b with spans := spans b, frame := frame b } :=
  ⟨fun _ => rfl, fun _ => rfl, fun h => ⟨h.start, h.commandStart, h.outputStart, h.stop⟩, fun _ h => h⟩

-- Taking a block out is another matter.
theorem InOrder.run (h : t.InOrder) {o : Operation} (hremoval : o.isRemoval = false)
    (hrun : o.run t = .ok t') (hfits : t'.document.length ≤ maxOffset) : t.Keeps o t' := by
  cases o with
  | create command prompt =>
    cases hcreate : t.createBlock command prompt with
    | error refusal => simp [Operation.run, hcreate, Except.map] at hrun
    | ok created =>
      obtain rfl : created.2 = t' := by simpa [Operation.run, hcreate, Except.map] using hrun
      exact h.keeps_createBlock hcreate hfits
  | append id text part =>
    obtain ⟨b, s, prompt, command, output, rfl, hhold⟩ := h.hold_of_run rfl hrun
    obtain ⟨t'', happend, hrewrites⟩ := hhold.append h text part
    obtain rfl : t'' = t' := by simpa [Operation.run, happend, Except.map] using hrun
    exact hrewrites.keeps hfits _
  | replaceOutput id text =>
    obtain ⟨b, s, prompt, command, output, rfl, hhold⟩ := h.hold_of_run rfl hrun
    obtain ⟨t'', hreplace, hrewrites⟩ := hhold.replaceOutput h text
    obtain rfl : t'' = t' := by simpa [Operation.run, hreplace] using hrun
    exact hrewrites.keeps hfits _
  | truncate id stop =>
    obtain ⟨b, s, prompt, command, output, rfl, hhold⟩ := h.hold_of_run rfl hrun
    obtain ⟨t'', kept, removed, htruncate, -, -, hrewrites⟩ :=
      hhold.truncate h (hhold.isCut_of_truncate h hrun)
    obtain rfl : t'' = t' := by simpa [Operation.run, htruncate] using hrun
    exact hrewrites.keeps hfits _
  | finish id exitCode => exact h.keeps_modifyBlock (stays_finish exitCode) hrun _
  | closeLast =>
    obtain rfl := Except.ok.inj hrun
    exact h.keeps_modifyAt stays_close _ _
  | lineBreak =>
    obtain rfl := Except.ok.inj hrun
    exact ⟨h.appendLineBreak hfits, fun _ => h.spaced_appendLineBreak⟩
  | remove id => cases hremoval
  | clear =>
    obtain rfl := Except.ok.inj hrun
    exact ⟨inOrder_clear t, fun _ _ => ⟨.nil, fun _ _ hb => by cases hb⟩⟩
  | putSpans id spans => exact h.keeps_modifyBlock (stays_look (fun _ => some spans) Block.frame) hrun _
  | putFrame id firstBlock =>
    exact h.keeps_modifyBlock
      (stays_look Block.spans fun b => some (b.frame.getD { firstBlock })) hrun _
  | setFrameState id state =>
    cases hindex : t.indexOf id with
    | error refusal =>
      simp [Operation.run, Transcript.setFrameState, hindex, bind, Except.bind] at hrun
    | ok index =>
      simp only [Operation.run, Transcript.setFrameState, hindex, bind, Except.bind, pure,
        Except.pure, Except.ok.injEq] at hrun
      subst hrun
      exact h.keeps_modifyAt (stays_look Block.spans fun b =>
        some { b.frame.getD { firstBlock := index == 0 } with state }) index _

theorem Reached.inOrder {allowed : Transcript → Operation → Prop} (h : Reached allowed t)
    (hremove : ∀ {t t' : Transcript} {id : Nat}, t.InOrder → allowed t (.remove id) →
      t.remove id = .ok t' → t'.document.length ≤ maxOffset → t'.InOrder) : t.InOrder := by
  induction h with
  | new => exact inOrder_new
  | @step t t' o _ hallowed hrun hfits ih =>
    cases o with
    | remove id => exact hremove ih hallowed hrun hfits
    | _ => exact (ih.run rfl hrun hfits).inOrder
  | listeners _ hsame ih => exact ih.of_sameRecord hsame

-- The edits of a block with this text: each of them succeeds, is exact, and leaves all others alone.
-- An end that is asked for outside the block is drawn to the block's start or end.
structure EditsAlone (t : Transcript) (b : Block) (head output : Text) : Prop where
  text : t.blockText? b.id = some (some (head ++ output))
  outputStart : b.start + byteLength head = b.outputStart
  append : ∀ new part, t.document.length + byteLength new ≤ maxOffset →
    ∃ t', t.append b.id new part = .ok ((b.stop, b.stop + byteLength new), t') ∧
      t.Rewritten b.id (head ++ output ++ new) t'
  replaceOutput : ∀ new, t.document.length + byteLength new ≤ maxOffset + byteLength output →
    ∃ t', t.replaceOutput b.id new = .ok t' ∧ t.Rewritten b.id (head ++ new) t'
  truncate : ∀ stop cut, cut = min (max stop b.start) b.stop → IsCut t.document.text cut →
    ∃ t' kept removed, t.truncate b.id stop = .ok t' ∧ head ++ output = kept ++ removed ∧
      b.start + byteLength kept = cut ∧ t.Rewritten b.id kept t' ∧
      ∃ b', t'.block? b.id = some b' ∧
        b'.spans = b.spans.map fun spans => spans.filter fun span => span.stop ≤ cut

theorem InOrder.editsAlone (h : t.InOrder) {s : Surroundings} {b : Block}
    {prompt command output : Text} (hhold : s.Hold t b prompt command output) :
    t.EditsAlone b (prompt ++ command) output := by
  have hlength : t.document.length =
      byteLength s.lead + byteLength (prompt ++ command ++ output) + byteLength s.rest := by
    rw [Document.length, hhold.text, byteLength_append, byteLength_append]
  have hfits := h.fits
  refine ⟨hhold.blockText? h.numbered, ?_, ?_, ?_, ?_⟩
  · rw [hhold.covers.start, hhold.covers.outputStart]
    simp only [byteLength_append]
    omega
  · intro new part hroom
    obtain ⟨t', happend, hrewrites⟩ := hhold.append h new part
    have hroom' : t'.document.length ≤ maxOffset := by
      rw [Document.length, hrewrites.whole_eq]
      simp only [byteLength_append] at hlength ⊢
      omega
    have hrewritten := (hrewrites.exact_of_fits hroom').2.1
    rw [Block.endPart_id] at hrewritten
    exact ⟨t', happend, hrewritten⟩
  · intro new hroom
    obtain ⟨t', hreplace, hrewrites⟩ := hhold.replaceOutput h new
    have hroom' : t'.document.length ≤ maxOffset := by
      rw [Document.length, hrewrites.whole_eq]
      simp only [byteLength_append] at hlength ⊢
      omega
    exact ⟨t', hreplace, (hrewrites.exact_of_fits hroom').2.1⟩
  · intro stop cut hcut hiscut
    subst hcut
    obtain ⟨t', kept, removed, htruncate, hparts, hstop, hrewrites⟩ := hhold.truncate h hiscut
    have hroom : t'.document.length ≤ maxOffset := by
      rw [hparts] at hlength
      rw [Document.length, hrewrites.whole_eq]
      simp only [byteLength_append] at hlength ⊢
      omega
    obtain ⟨-, hrewritten, hblock⟩ := hrewrites.exact_of_fits hroom
    exact ⟨t', kept, removed, htruncate, hparts, hstop, hrewritten, _, hblock, rfl⟩

-- Without removals, blocks stay in order whatever is done to them, and every edit is local.
theorem Reached.edits_local (h : Reached (fun _ o => o.isRemoval = false) t) :
    t.Orderly ∧ ∀ b ∈ t.blocks, ∃ head output, t.EditsAlone b head output := by
  have horder : t.InOrder := h.inOrder fun _ hallowed => by cases hallowed
  refine ⟨horder.orderly, ?_⟩
  intro b hb
  obtain ⟨s, prompt, command, output, hhold⟩ := horder.exists_hold hb
  exact ⟨prompt ++ command, output, horder.editsAlone hhold⟩

-- Two blocks with a line feed between them.
def oneTwo : Transcript where
  document := { text := "one\ntwo".toList }
  blocks := [{ Block.opened 0 0 none none with stop := 3, isOpen := false },
    { Block.opened 1 4 none none with stop := 7 }]
  nextId := 2

theorem reached_oneTwo {allowed : Transcript → Operation → Prop}
    (hallowed : ∀ t o, o.isRemoval = false → o.Tidy t → allowed t o) : Reached allowed oneTwo := by
  have hfirst := Reached.new.step (hallowed {} (.create none none) rfl fun _ _ _ _ => rfl) rfl (by decide)
  have hone := hfirst.step (hallowed _ (.replaceOutput 0 "one".toList) rfl nofun) rfl (by decide)
  have hclosed := hone.step (hallowed _ .closeLast rfl nofun) rfl (by decide)
  have hsecond := hclosed.step (hallowed _ (.create none none) rfl fun _ _ _ h => by cases h) rfl
    (by decide)
  exact hsecond.step (hallowed _ (.replaceOutput 1 "two".toList) rfl nofun) rfl (by decide)

theorem oneTwo_edits_local : Reached (fun _ o => o.isRemoval = false) oneTwo ∧
    ∃ t', oneTwo.append 0 "!".toList .command = .ok ((3, 4), t') ∧
      oneTwo.Rewritten 0 "one!".toList t' := by
  have hreached : Reached (fun _ o => o.isRemoval = false) oneTwo :=
    reached_oneTwo fun _ _ hremoval _ => hremoval
  obtain ⟨-, hedits⟩ := hreached.edits_local
  obtain ⟨head, output, hfirst⟩ := hedits _ List.mem_cons_self
  have hone : head ++ output = "one".toList := by
    have htext : oneTwo.blockText? 0 = some (some "one".toList) := rfl
    simpa using hfirst.text.symm.trans htext
  obtain ⟨t', hrun, hrewritten⟩ := hfirst.append "!".toList .command (by decide)
  rw [hone] at hrewritten
  exact ⟨hreached, t', hrun, hrewritten⟩

end Transcript

end ShellTranscript
