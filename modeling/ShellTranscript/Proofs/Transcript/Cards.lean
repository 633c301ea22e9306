import Mathlib.Tactic.Common
import ShellTranscript.Proofs.Transcript.Conclusion

-- The cards of a transcript: its blocks without their offsets and spans. Writing a text keeps them,
-- whatever the offsets are. So all that a start does to them is a card put behind the others, all
-- that output does is a frame, and all that a conclusion does is done to one card. When the block is
-- there, offsets are the one reason to refuse any of this.
namespace ShellTranscript

open Text

-- An operation that ends like this, unless it meets a bad offset.
def Yields {α : Type} (P : α → Prop) : Except Refusal α → Prop
  | .ok a => P a
  | .error reason => reason = .badOffset

namespace Yields

variable {α β : Type} {P : α → Prop} {Q : β → Prop} {x : Except Refusal α}

theorem mono {P' : α → Prop} (h : Yields P x) (himp : ∀ a, P a → P' a) : Yields P' x := by
  cases x with
  | ok a => exact himp a h
  | error reason => exact h

theorem bind {f : α → Except Refusal β} (h : Yields P x) (hf : ∀ a, P a → Yields Q (f a)) :
    Yields Q (x >>= f) := by
  cases x with
  | ok a => exact hf a h
  | error reason => exact h

theorem of_ok {a : α} (h : Yields P x) (hx : x = .ok a) : P a := by
  subst hx
  exact h

theorem of_error {reason : Refusal} (h : Yields P x) (hx : x = .error reason) :
    reason = .badOffset := by
  subst hx
  exact h

theorem eq_ok (h : Yields P x) : Yields (fun a => x = .ok a) x := by
  cases x with
  | ok a => rfl
  | error reason => exact h

theorem of_orBadOffset (o : Option α) : Yields (fun _ => True) (Transcript.orBadOffset o) := by
  cases o with
  | none => rfl
  | some a => trivial

end Yields

namespace Block

-- What is left of a block without its place in the document.
def card (b : Block) : Block :=
  { b with start := 0, commandStart := 0, outputStart := 0, stop := 0, spans := none }

def framed (firstBlock : Bool) (b : Block) : Block :=
  { b with frame := some (b.frame.getD { firstBlock }) }

def failed (firstBlock : Bool) (b : Block) : Block :=
  { b with frame := some { b.frame.getD { firstBlock } with state := .error } }

-- The card of a block that was started.
def begun (id : Nat) (firstBlock : Bool) (command prompt : Option Text) : Block :=
  if prompt.isSome || command.isSome then (opened id 0 command prompt).framed firstBlock
  else opened id 0 command prompt

-- A block that was concluded and is still there.
def concluded (firstBlock : Bool) (exitCode : Int) (b : Block) : Block :=
  if exitCode ≠ 0 then (b.finish exitCode).failed firstBlock else b.finish exitCode

end Block

namespace Transcript

def cards (t : Transcript) : List Block := t.blocks.map Block.card

structure SameCards (t t' : Transcript) : Prop where
  cards : t'.cards = t.cards
  nextId : t'.nextId = t.nextId

def Lists (t : Transcript) (id : Nat) : Prop := ∃ b ∈ t.blocks, b.id = id

variable {t t' t'' : Transcript} {id : Nat}

theorem SameCards.refl (t : Transcript) : t.SameCards t := ⟨rfl, rfl⟩

theorem SameCards.trans (h : t.SameCards t') (h' : t'.SameCards t'') : t.SameCards t'' :=
  ⟨h'.cards.trans h.cards, h'.nextId.trans h.nextId⟩

theorem ids_eq_cards (t : Transcript) : t.blocks.map Block.id = t.cards.map Block.id := by
  rw [cards, List.map_map]
  rfl

theorem lists_iff (t : Transcript) (id : Nat) : t.Lists id ↔ id ∈ t.blocks.map Block.id :=
  List.mem_map.symm

theorem SameCards.lists (h : t.SameCards t') (hid : t.Lists id) : t'.Lists id := by
  rw [lists_iff, ids_eq_cards] at hid ⊢
  rwa [h.cards]

theorem lists_modifyAt {f : Block → Block} (hf : ∀ b, (f b).id = b.id) (index : Nat)
    (hid : t.Lists id) : (t.modifyAt index f).Lists id := by
  rw [lists_iff] at hid ⊢
  rwa [modifyAt, map_modify hf]

theorem sameCards_modifyAt {f : Block → Block} (hf : ∀ b, (f b).card = b.card) (t : Transcript)
    (index : Nat) : t.SameCards (t.modifyAt index f) :=
  ⟨map_modify hf t.blocks index, rfl⟩

theorem map_card_shiftFrom (first : Nat) (delta : Int) (blocks : List Block) :
    (shiftFrom first delta blocks).map Block.card = blocks.map Block.card := by
  have hshift : Block.card ∘ Block.shift delta = Block.card := rfl
  rw [shiftFrom, List.map_append, List.map_map, hshift, ← List.map_append, List.take_append_drop]

theorem yields_edit (t : Transcript) (index start stop : Nat) (inserted : Text) :
    Yields t.SameCards (t.edit index start stop inserted) := by
  refine (Yields.of_orBadOffset _).bind fun document _ => ⟨?_, rfl⟩
  exact (map_card_shiftFrom _ _ _).trans (map_modify (fun _ => by rfl) t.blocks index)

theorem Lists.yields_indexOf (h : t.Lists id) : Yields (fun _ => True) (t.indexOf id) := by
  obtain ⟨b, hb, hid⟩ := h
  cases hindex : t.blocks.findIdx? fun b => b.id == id with
  | some index =>
    simp only [Transcript.indexOf, hindex]
    trivial
  | none =>
    rw [List.findIdx?_eq_none_iff] at hindex
    have hne := hindex b hb
    rw [hid, beq_self_eq_true] at hne
    cases hne

theorem Lists.yields_locate (h : t.Lists id) : Yields (fun _ => True) (t.locate id) := by
  obtain ⟨b, hb, hid⟩ := h
  cases hindex : t.blocks.findIdx? fun b => b.id == id with
  | some index =>
    have hlt := (List.findIdx?_eq_some_iff_findIdx_eq.mp hindex).1
    simp only [Transcript.locate, Transcript.indexOf, hindex, bind, Except.bind,
      List.getElem?_eq_getElem hlt]
    trivial
  | none =>
    have hindexOf := Lists.yields_indexOf ⟨b, hb, hid⟩
    simp only [Transcript.indexOf, hindex] at hindexOf
    cases hindexOf

theorem Lists.yields_modifyBlock (h : t.Lists id) (f : Block → Block) :
    Yields (fun t' => ∃ index, t' = t.modifyAt index f) (t.modifyBlock id f) :=
  h.yields_indexOf.bind fun index _ => ⟨index, rfl⟩

theorem Lists.yields_append (h : t.Lists id) (inserted : Text) (part : BlockPart) :
    Yields (fun result => t.SameCards result.2) (t.append id inserted part) := by
  refine h.yields_locate.bind fun ⟨index, b⟩ _ => ?_
  refine (yields_edit t index b.stop b.stop inserted).bind fun t' hedit => ?_
  exact hedit.trans (sameCards_modifyAt (fun b => by cases part <;> rfl) t' index)

theorem Lists.yields_writeHeader (h : t.Lists id) (command prompt : Option Text) :
    Yields t.SameCards (t.writeHeader id command prompt) := by
  unfold Transcript.writeHeader
  split
  · rename_i prompt command
    refine (h.yields_append prompt .prompt).bind fun ⟨_, t'⟩ hprompt => ?_
    refine ((hprompt.lists h).yields_append _ .command).bind fun ⟨_, t''⟩ hcommand => ?_
    exact hprompt.trans hcommand
  · exact (h.yields_append _ .prompt).bind fun _ hprompt => hprompt
  · exact (h.yields_append _ .command).bind fun _ hcommand => hcommand
  · exact .refl t

theorem Lists.yields_putSpans (h : t.Lists id) (spans : List Span) :
    Yields t.SameCards (t.putSpans id spans) :=
  (h.yields_modifyBlock _).mono fun _ ⟨index, ht'⟩ =>
    ht' ▸ sameCards_modifyAt (fun _ => by rfl) t index

theorem Lists.yields_replaceOutput (h : t.Lists id) (output : Text) :
    Yields t.SameCards (t.replaceOutput id output) :=
  h.yields_locate.bind fun ⟨index, b⟩ _ => yields_edit t index b.outputStart b.stop output

theorem Lists.yields_truncate (h : t.Lists id) (stop : Nat) :
    Yields t.SameCards (t.truncate id stop) := by
  refine h.yields_locate.bind fun ⟨index, b⟩ _ => ?_
  dsimp only
  split
  · rfl
  · refine (yields_edit t index _ _ []).bind fun t' hedit => ?_
    exact hedit.trans (sameCards_modifyAt (fun _ => by rfl) t' index)

theorem Lists.yields_trimLastLine (h : t.Lists id) : Yields t.SameCards (t.trimLastLine id) := by
  refine h.yields_locate.bind fun ⟨_, b⟩ _ => ?_
  refine (Yields.of_orBadOffset _).bind fun lineStart _ => ?_
  refine (Yields.of_orBadOffset _).bind fun line _ => ?_
  split
  · exact h.yields_truncate _
  · exact .refl t

-- What output does: the cards stay, and a frame may be put around the block.
def Retouches (id : Nat) (t t' : Transcript) : Prop :=
  ∃ written, t.SameCards written ∧ (t' = written ∨ written.frame id = .ok t')

-- What a start does: a block is put behind the others, and framed if it has a header.
def Opens (command prompt : Option Text) (t : Transcript) (id : Nat) (t' : Transcript) : Prop :=
  ∃ created written, t.createBlock (notEmpty command) (notEmpty prompt) = .ok (id, created) ∧
    created.SameCards written ∧
      if (notEmpty prompt).isSome || (notEmpty command).isSome then written.frame id = .ok t'
      else t' = written

-- What a conclusion does: a block is finished, and then taken out, marked as failed or left so.
def Concludes (id : Nat) (exitCode : Int) (t t' : Transcript) : Prop :=
  ∃ finished trimmed, t.finish id exitCode = .ok finished ∧ finished.SameCards trimmed ∧
    (trimmed.remove id = .ok t' ∨
      exitCode ≠ 0 ∧ trimmed.setFrameState id .error = .ok t' ∨ exitCode = 0 ∧ t' = trimmed)

theorem Lists.yields_frame (h : t.Lists id) : Yields (fun t' => t.frame id = .ok t') (t.frame id) :=
  (h.yields_modifyBlock _).eq_ok

theorem Lists.retouches_writeOutput (h : t.Lists id) (output : Snapshot) :
    Yields (t.Retouches id) (t.writeOutput id output) := by
  refine (h.yields_replaceOutput output.text).bind fun t₁ hreplaced => ?_
  refine (hreplaced.lists h).yields_locate.bind fun ⟨_, b⟩ _ => ?_
  have hspans : Yields (fun _ => True) (output.ranges.mapM (outputSpan b.outputStart)) := by
    rcases mapM_outputSpan_ok_or b.outputStart output.ranges with ⟨spans, hspans⟩ | hspans
    · rw [hspans]
      trivial
    · rw [hspans]
      rfl
  refine hspans.bind fun spans _ => ?_
  refine ((hreplaced.lists h).yields_putSpans _).bind fun t₂ hput => ?_
  have hwritten := hreplaced.trans hput
  split
  · exact (hwritten.lists h).yields_frame.mono fun _ hframed => ⟨t₂, hwritten, .inr hframed⟩
  · exact ⟨t₂, hwritten, .inl rfl⟩

theorem opens_start (hactive : t.activeBlock? = none) (command prompt : Option Text) :
    Yields (fun result => t.Opens command prompt result.1 result.2) (t.start command prompt) := by
  obtain ⟨t₁, hcreate, -, hblocks, -⟩ := createBlock_eq hactive (notEmpty command) (notEmpty prompt)
  have hlists : t₁.Lists t.nextId := ⟨_, by rw [hblocks]; exact List.mem_concat_self, rfl⟩
  unfold Transcript.start
  dsimp only
  rw [hcreate]
  refine (hlists.yields_writeHeader _ _).bind fun t₂ hheader => ?_
  have hlists₂ := hheader.lists hlists
  refine hlists₂.yields_locate.bind fun ⟨_, b⟩ _ => ?_
  refine (hlists₂.yields_putSpans _).bind fun t₃ hput => ?_
  have hwritten := hheader.trans hput
  split
  · rename_i hheaded
    refine (hwritten.lists hlists).yields_frame.bind fun t₄ hframed => ?_
    exact ⟨t₁, t₃, hcreate, hwritten, by rwa [if_pos hheaded]⟩
  · rename_i hbare
    exact ⟨t₁, t₃, hcreate, hwritten, by rw [if_neg hbare]⟩

theorem start_of_active {b : Block} (hactive : t.activeBlock? = some b)
    (command prompt : Option Text) : t.start command prompt = .error (.blockStillOpen b.id) := by
  simp only [Transcript.start, createBlock, hactive, bind, Except.bind]

theorem Lists.yields_remove (h : t.Lists id) : Yields (fun t' => t.remove id = .ok t') (t.remove id) := by
  refine Yields.eq_ok (P := fun _ => True) ?_
  refine h.yields_locate.bind fun ⟨index, b⟩ _ => ?_
  exact (Yields.of_orBadOffset _).bind fun document _ => trivial

theorem Lists.yields_setFrameState (h : t.Lists id) (state : FrameState) :
    Yields (fun t' => t.setFrameState id state = .ok t') (t.setFrameState id state) := by
  refine Yields.eq_ok (P := fun _ => True) ?_
  exact h.yields_indexOf.bind fun index _ => trivial

theorem Lists.concludes (h : t.Lists id) (exitCode : Int) :
    Yields (t.Concludes id exitCode) (t.conclude id exitCode) := by
  have hfinish : Yields (fun t₁ => t.finish id exitCode = .ok t₁ ∧ t₁.Lists id)
      (t.finish id exitCode) := by
    have hmodified := h.yields_modifyBlock (Block.finish exitCode)
    refine hmodified.eq_ok.mono fun t₁ ht₁ => ⟨ht₁, ?_⟩
    obtain ⟨index, rfl⟩ := hmodified.of_ok ht₁
    exact lists_modifyAt (fun _ => by rfl) index h
  refine hfinish.bind fun t₁ ⟨hfinished, hlists⟩ => ?_
  refine hlists.yields_trimLastLine.bind fun t₂ htrimmed => ?_
  have hlists₂ := htrimmed.lists hlists
  refine hlists₂.yields_locate.bind fun located _ => ?_
  refine (Yields.of_orBadOffset _).bind fun written _ => ?_
  split
  · exact hlists₂.yields_remove.mono fun t₃ hremoved => ⟨t₁, t₂, hfinished, htrimmed, .inl hremoved⟩
  · split
    · rename_i hfailed
      exact (hlists₂.yields_setFrameState .error).mono fun t₃ hmarked =>
        ⟨t₁, t₂, hfinished, htrimmed, .inr (.inl ⟨hfailed, hmarked⟩)⟩
    · rename_i hzero
      exact ⟨t₁, t₂, hfinished, htrimmed, .inr (.inr ⟨not_not.mp hzero, rfl⟩)⟩

section Last

variable {front : List Block} {c : Block}

theorem SameCards.numbered (h : t.SameCards t') (ht : t.Numbered) : t'.Numbered := by
  refine ht.of_ids ?_ h.nextId
  rw [ids_eq_cards, ids_eq_cards, h.cards]

theorem exists_concat_of_cards (h : t.cards = front ++ [c]) :
    ∃ closed b, t.blocks = closed ++ [b] ∧ closed.map Block.card = front ∧ b.card = c := by
  obtain ⟨closed, last, hblocks, hfront, hlast⟩ := List.map_eq_append_iff.mp h
  obtain ⟨b, rfl, hb⟩ := List.map_eq_singleton_iff.mp hlast
  exact ⟨closed, b, hblocks, hfront, hb⟩

theorem cards_modifyAt (h : t.cards = front ++ [c]) {f : Block → Block}
    (hf : ∀ b, (f b).card = f b.card) : (t.modifyAt front.length f).cards = front ++ [f c] := by
  obtain ⟨closed, b, hblocks, rfl, rfl⟩ := exists_concat_of_cards h
  rw [cards, modifyAt, hblocks, List.length_map, modify_append_cons, List.map_append, List.map_singleton,
    hf]

theorem Numbered.indexOf_last (h : t.Numbered) (hcards : t.cards = front ++ [c]) :
    t.indexOf c.id = .ok front.length := by
  obtain ⟨closed, b, hblocks, rfl, rfl⟩ := exists_concat_of_cards hcards
  rw [List.length_map]
  have hindex : t.indexOf b.id = .ok closed.length := h.indexOf hblocks
  exact hindex

theorem Numbered.modifyBlock_last (h : t.Numbered) (hcards : t.cards = front ++ [c])
    (f : Block → Block) : t.modifyBlock c.id f = .ok (t.modifyAt front.length f) := by
  rw [modifyBlock, h.indexOf_last hcards]
  rfl

theorem Numbered.frame_last (h : t.Numbered) (hcards : t.cards = front ++ [c])
    (hframe : t.frame c.id = .ok t') :
    t'.cards = front ++ [c.framed front.isEmpty] ∧ t'.nextId = t.nextId := by
  have hfirst : (t.blocks.length == 1) = front.isEmpty := by
    have hlength := congrArg List.length hcards
    rw [cards, List.length_map] at hlength
    rw [hlength]
    cases front <;> simp
  have hmodify := h.modifyBlock_last hcards (Block.framed (t.blocks.length == 1))
  obtain rfl := Except.ok.inj (hframe.symm.trans hmodify)
  rw [hfirst]
  exact ⟨cards_modifyAt hcards fun _ => rfl, rfl⟩

theorem Retouches.last (h : t.Retouches c.id t') (ht : t.Numbered) (hcards : t.cards = front ++ [c]) :
    t'.nextId = t.nextId ∧ (t'.cards = front ++ [c] ∨ t'.cards = front ++ [c.framed front.isEmpty]) := by
  obtain ⟨written, hwritten, rfl | hframe⟩ := h
  · exact ⟨hwritten.nextId, .inl (hwritten.cards.trans hcards)⟩
  · obtain ⟨hframed, hnext⟩ := (hwritten.numbered ht).frame_last (hwritten.cards.trans hcards) hframe
    exact ⟨hnext.trans hwritten.nextId, .inr hframed⟩

theorem Opens.last {command prompt : Option Text} (h : t.Opens command prompt id t')
    (ht : t.Numbered) (hactive : t.activeBlock? = none) : id = t.nextId ∧ t'.nextId = t.nextId + 1 ∧
      t'.cards = t.cards ++ [.begun t.nextId t.cards.isEmpty (notEmpty command) (notEmpty prompt)] := by
  obtain ⟨created, written, hcreate, hsame, hheader⟩ := h
  obtain ⟨t₁, hcreate₁, -, hblocks, -, hnext⟩ :=
    createBlock_eq hactive (notEmpty command) (notEmpty prompt)
  obtain ⟨rfl, rfl⟩ : id = t.nextId ∧ created = t₁ := by simpa using hcreate.symm.trans hcreate₁
  have hnumbered := hsame.numbered (ht.concat hblocks rfl hnext)
  have hcards : written.cards =
      t.cards ++ [.opened t.nextId 0 (notEmpty command) (notEmpty prompt)] := by
    rw [hsame.cards, cards, hblocks, List.map_append]
    rfl
  have hnext' := hsame.nextId.trans hnext
  refine ⟨rfl, ?_⟩
  rw [Block.begun]
  split
  · rename_i hheaded
    rw [if_pos hheaded] at hheader
    obtain ⟨hframed, hnext''⟩ := hnumbered.frame_last hcards hheader
    exact ⟨hnext''.trans hnext', hframed⟩
  · rename_i hbare
    rw [if_neg hbare] at hheader
    subst hheader
    exact ⟨hnext', hcards⟩

theorem Numbered.remove_last (h : t.Numbered) (hcards : t.cards = front ++ [c])
    (hremove : t.remove c.id = .ok t') : t'.cards = front ∧ t'.nextId = t.nextId := by
  obtain ⟨closed, b, hblocks, rfl, rfl⟩ := exists_concat_of_cards hcards
  have herase : t.blocks.eraseIdx closed.length = closed := by
    simp [hblocks, List.eraseIdx_append_of_length_le]
  have hlocate : t.locate b.card.id = .ok (closed.length, b) := h.locate hblocks
  have hyields : Yields (fun t' => t'.cards = closed.map Block.card ∧ t'.nextId = t.nextId)
      (t.remove b.card.id) := by
    unfold Transcript.remove
    rw [hlocate]
    refine (Yields.of_orBadOffset _).bind fun document _ => ⟨?_, rfl⟩
    refine (map_card_shiftFrom _ _ _).trans ?_
    rw [herase]
  exact hyields.of_ok hremove

theorem Numbered.setFrameState_last (h : t.Numbered) (hcards : t.cards = front ++ [c])
    (hmark : t.setFrameState c.id .error = .ok t') :
    t'.cards = front ++ [c.failed front.isEmpty] ∧ t'.nextId = t.nextId := by
  have hfirst : (front.length == 0) = front.isEmpty := by cases front <;> rfl
  have hmodify : t.setFrameState c.id .error =
      .ok (t.modifyAt front.length (Block.failed (front.length == 0))) := by
    rw [Transcript.setFrameState, h.indexOf_last hcards]
    rfl
  obtain rfl := Except.ok.inj (hmark.symm.trans hmodify)
  rw [hfirst]
  exact ⟨cards_modifyAt hcards fun _ => rfl, rfl⟩

-- A block that is concluded is taken out, or it keeps its place behind the others.
theorem Concludes.last {exitCode : Int} (h : t.Concludes c.id exitCode t') (ht : t.Numbered)
    (hcards : t.cards = front ++ [c]) : t'.nextId = t.nextId ∧
      (t'.cards = front ∨ t'.cards = front ++ [c.concluded front.isEmpty exitCode]) := by
  obtain ⟨finished, trimmed, hfinish, hsame, hend⟩ := h
  obtain rfl := Except.ok.inj (hfinish.symm.trans (ht.modifyBlock_last hcards _))
  have hfinished : trimmed.cards = front ++ [c.finish exitCode] :=
    hsame.cards.trans (cards_modifyAt hcards fun _ => rfl)
  have hnumbered : trimmed.Numbered :=
    hsame.numbered (ht.of_ids (map_modify (fun _ => by rfl) t.blocks _) rfl)
  have hnext : trimmed.nextId = t.nextId := hsame.nextId
  rw [Block.concluded]
  obtain hremove | ⟨hfailed, hmark⟩ | ⟨hzero, rfl⟩ := hend
  · have hremoved := hnumbered.remove_last hfinished hremove
    exact ⟨hremoved.2.trans hnext, .inl hremoved.1⟩
  · have hmarked := hnumbered.setFrameState_last hfinished hmark
    rw [if_pos hfailed]
    exact ⟨hmarked.2.trans hnext, .inr hmarked.1⟩
  · rw [if_neg (not_not.mpr hzero)]
    exact ⟨hnext, .inr hfinished⟩

theorem cards_closeLast (hcards : t.cards = front ++ [c]) : t.closeLast.cards = front ++ [c.close] := by
  have hlast : t.blocks.length - 1 = front.length := by
    have hlength := congrArg List.length hcards
    rw [cards, List.length_map, List.length_append, List.length_singleton] at hlength
    omega
  rw [closeLast, hlast]
  exact cards_modifyAt hcards fun _ => rfl

end Last

end Transcript

end ShellTranscript
