import Mathlib.Data.List.InsertIdx
import Mathlib.Data.List.Nodup
import Mathlib.Tactic.Common
import ShellTranscript.Proofs.Transcript.Runs
import ShellTranscript.Transcript.Archive

-- An archive and the transcript that it stands for. Every operation does to the maps of the one what
-- it does to the blocks of the other, and never leaves an entry under an identity that is not listed.
namespace ShellTranscript

open Text Transcript

namespace Archive

-- The same operations as on a transcript.
def operate (a : Archive) : Operation → Except Refusal Archive
  | .create command prompt => (a.createBlock command prompt).map Prod.snd
  | .append id text part => (a.append id text part).map Prod.snd
  | .replaceOutput id text => a.replaceOutput id text
  | .truncate id stop => a.truncate id stop
  | .finish id exitCode => a.finish id exitCode
  | .closeLast => .ok a.closeLast
  | .lineBreak => .ok a.appendLineBreak
  | .remove id => a.remove id
  | .clear => .ok a.clear
  | .putSpans id spans => a.putSpans id spans
  | .putFrame id firstBlock => a.putFrame id firstBlock
  | .setFrameState id state => a.setFrameState id state

-- Where operations lead that are all carried out, while listeners come and go.
inductive Runs (a : Archive) : Archive → Prop where
  | here : Runs a a
  | operate {a' a'' : Archive} (o : Operation) : Runs a a' → a'.operate o = .ok a'' → Runs a a''
  | listeners {a' : Archive} {base : Transcript} : Runs a a' → a'.base.SameRecord base →
      Runs a { a' with base }

-- The archives that operations lead to from an empty one.
def Kept (a : Archive) : Prop := Runs {} a

-- These are the identities that are listed, and nothing is filed under any other.
structure Filed (ids : List Nat) (a : Archive) : Prop where
  listed : a.base.blocks.map Block.id = ids
  numbered : a.base.Numbered
  spans : ∀ id ∈ a.spans, id ∈ ids
  frames : ∀ id ∈ a.frames, id ∈ ids

-- What is done to an archive ends as what is done to the transcript, and leaves the archive in order.
structure Tallies (ids : List Nat) (x : Except Refusal Archive) (y : Except Refusal Transcript) :
    Prop where
  same : x.map transcript = y
  filed : WhenOk (Filed ids) x

variable {a a' : Archive} {ids ids' : List Nat} {id index : Nat}

namespace Tallies

variable {α β : Type} {f : α → Except Refusal Archive} {g : β → Except Refusal Transcript}

theorem ok {t : Transcript} (h : a.Filed ids) (hsame : a.transcript = t) :
    Tallies ids (.ok a) (.ok t) :=
  ⟨congrArg Except.ok hsame, .ok h⟩

theorem error (reason : Refusal) : Tallies ids (.error reason) (.error reason) :=
  ⟨rfl, .error reason⟩

theorem bind {x : Except Refusal α} {y : Except Refusal β} (v : α → β) (hy : y = x.map v)
    (h : ∀ r, x = .ok r → Tallies ids (f r) (g (v r))) : Tallies ids (x >>= f) (y >>= g) := by
  subst hy
  cases x with
  | ok r => exact h r rfl
  | error reason => exact error reason

theorem andThen {f : Archive → Except Refusal Archive} {g : Transcript → Except Refusal Transcript}
    {x : Except Refusal Archive} {y : Except Refusal Transcript} (h : Tallies ids x y)
    (hf : ∀ a, a.Filed ids → Tallies ids' (f a) (g a.transcript)) :
    Tallies ids' (x >>= f) (y >>= g) := by
  obtain ⟨rfl, hfiled⟩ := h
  cases x with
  | ok a => exact hf a (hfiled a rfl)
  | error reason => exact error reason

theorem ite {c c' : Prop} [Decidable c] [Decidable c'] {x x' : Except Refusal Archive}
    {y y' : Except Refusal Transcript} (hc : c ↔ c') (hthen : Tallies ids x y)
    (helse : Tallies ids x' y') : Tallies ids (if c then x else x') (if c' then y else y') := by
  by_cases h : c
  · rwa [if_pos h, if_pos (hc.mp h)]
  · rwa [if_neg h, if_neg fun h' => h (hc.mpr h')]

end Tallies

theorem map_bind {α β γ : Type} (x : Except Refusal α) (f : α → Except Refusal β) (g : β → γ) :
    (x >>= f).map g = x >>= fun a => (f a).map g := by
  cases x <;> rfl

section Lookups

@[simp] theorem fill_id (a : Archive) (b : Block) : (a.fill b).id = b.id := rfl

theorem fill_congr {b : Block} (hspans : a'.spans[b.id]? = a.spans[b.id]?)
    (hframes : a'.frames[b.id]? = a.frames[b.id]?) : a'.fill b = a.fill b := by
  rw [fill, fill, hspans, hframes]

theorem indexOf_transcript (a : Archive) (id : Nat) : a.transcript.indexOf id = a.base.indexOf id := by
  simp [Transcript.indexOf, transcript, List.findIdx?_map, Function.comp_def]

theorem locate_transcript (a : Archive) (id : Nat) :
    a.transcript.locate id = (a.base.locate id).map fun located => (located.1, a.fill located.2) := by
  rw [Transcript.locate, indexOf_transcript, Transcript.locate]
  cases a.base.indexOf id with
  | error reason => rfl
  | ok index =>
    simp only [bind, Except.bind, transcript, List.getElem?_map]
    cases a.base.blocks[index]? <;> rfl

theorem activeBlock?_transcript (a : Archive) :
    a.transcript.activeBlock? = a.base.activeBlock?.map a.fill := by
  simp only [Transcript.activeBlock?, Transcript.lastBlock?, transcript, List.getLast?_map]
  cases a.base.blocks.getLast? with
  | none => rfl
  | some b =>
    cases hopen : b.isOpen <;> simp [Option.filter, fill, hopen]

theorem ids_of_indexOf {t : Transcript} (h : t.indexOf id = .ok index) :
    (t.blocks.map Block.id)[index]? = some id := by
  rw [Transcript.indexOf] at h
  split at h
  · rename_i place hfind
    obtain rfl := Except.ok.inj h
    obtain ⟨hlt, hid, -⟩ := List.findIdx?_eq_some_iff_getElem.mp hfind
    simpa [List.getElem?_eq_getElem hlt] using hid
  · cases h

theorem ids_of_locate {t : Transcript} {b : Block} (h : t.locate id = .ok (index, b)) :
    (t.blocks.map Block.id)[index]? = some id := by
  rw [Transcript.locate] at h
  cases hindex : t.indexOf id with
  | error reason =>
    rw [hindex] at h
    cases h
  | ok place =>
    rw [hindex] at h
    simp only [bind, Except.bind] at h
    split at h
    · obtain ⟨rfl, rfl⟩ := Prod.mk.inj (Except.ok.inj h)
      exact ids_of_indexOf hindex
    · cases h

theorem getElem?_moveSpans_of_notMem {delta : Int} {blocks : List Block}
    {spans : Std.HashMap Nat (List Span)} (h : id ∉ blocks.map Block.id) :
    (moveSpans delta blocks spans)[id]? = spans[id]? := by
  induction blocks generalizing spans with
  | nil => rfl
  | cons b blocks ih =>
    rw [List.map_cons, List.mem_cons, not_or] at h
    rw [moveSpans, List.foldl_cons]
    refine (ih h.2).trans ?_
    rw [Std.HashMap.getElem?_modify, if_neg (by simpa using Ne.symm h.1)]

-- What is filed under one block is moved once.
theorem getElem?_moveSpans (delta : Int) {blocks : List Block}
    (spans : Std.HashMap Nat (List Span)) (hids : (blocks.map Block.id).Nodup)
    (h : id ∈ blocks.map Block.id) :
    (moveSpans delta blocks spans)[id]? = spans[id]?.map (List.map (Span.shift delta)) := by
  induction blocks generalizing spans with
  | nil => cases h
  | cons b blocks ih =>
    rw [List.map_cons, List.nodup_cons] at hids
    rw [moveSpans, List.foldl_cons]
    rcases List.mem_cons.mp h with rfl | hlater
    · refine (getElem?_moveSpans_of_notMem hids.1).trans ?_
      rw [Std.HashMap.getElem?_modify, if_pos (beq_self_eq_true b.id)]
    · have hne : b.id ≠ id := fun hsame => hids.1 (hsame ▸ hlater)
      refine (ih _ hids.2 hlater).trans ?_
      rw [Std.HashMap.getElem?_modify, if_neg (by simpa using hne)]

theorem mem_moveSpans {delta : Int} {blocks : List Block} {spans : Std.HashMap Nat (List Span)} :
    id ∈ moveSpans delta blocks spans ↔ id ∈ spans := by
  induction blocks generalizing spans with
  | nil => rfl
  | cons b blocks ih =>
    rw [moveSpans, List.foldl_cons]
    exact ih.trans Std.HashMap.mem_modify

end Lookups

section Changes

theorem Filed.nodup (h : a.Filed ids) : (a.base.blocks.map Block.id).Nodup :=
  h.numbered.ascending.imp Nat.ne_of_lt

-- A change at one place, where alone something else may be filed.
theorem transcript_modifyAt {f g : Block → Block}
    (hids : (a.base.blocks.map Block.id).Nodup)
    (hplace : (a.base.blocks.map Block.id)[index]? = some id)
    (hbase : a'.base = a.base.modifyAt index g)
    (hspans : ∀ other, other ≠ id → a'.spans[other]? = a.spans[other]?)
    (hframes : ∀ other, other ≠ id → a'.frames[other]? = a.frames[other]?)
    (hfill : ∀ b : Block, b.id = id → a'.fill (g b) = f (a.fill b)) :
    a'.transcript = a.transcript.modifyAt index f := by
  have hblocks : (a.base.blocks.modify index g).map a'.fill =
      (a.base.blocks.map a.fill).modify index f := by
    refine map_modify_place (fun b hb => hfill b ?_) fun place b hne hb => ?_
    · rw [List.getElem?_map, hb] at hplace
      exact Option.some.inj hplace
    · have hother : b.id ≠ id := by
        rintro rfl
        have hlt := (List.getElem?_eq_some_iff.mp hplace).1
        refine hne ((List.getElem?_inj hlt hids).mp (hplace.trans ?_))
        rw [List.getElem?_map, hb]
        rfl
      exact fill_congr (hspans b.id hother) (hframes b.id hother)
  rw [transcript, hbase]
  simp only [Transcript.modifyAt, transcript, hblocks]

-- A change of the blocks alone.
theorem modifyAt_transcript {f : Block → Block} (hf : ∀ b, a.fill (f b) = f (a.fill b)) :
    (a.modifyAt index f).transcript = a.transcript.modifyAt index f := by
  have hblocks : (a.base.blocks.modify index f).map a.fill =
      (a.base.blocks.map a.fill).modify index f :=
    map_modify_place (fun b _ => hf b) fun _ _ _ _ => rfl
  simp only [Transcript.modifyAt, transcript, ← hblocks]
  rfl

theorem transcript_shiftFrom (hids : (a.base.blocks.map Block.id).Nodup) (first : Nat)
    (delta : Int) : (a.shiftFrom first delta).transcript =
      { a.transcript with blocks := Transcript.shiftFrom first delta a.transcript.blocks } := by
  have hsplit := hids
  rw [← List.take_append_drop first a.base.blocks, List.map_append, List.nodup_append] at hsplit
  have hfront : ∀ b ∈ a.base.blocks.take first, (a.shiftFrom first delta).fill b = a.fill b := by
    intro b hb
    refine fill_congr (getElem?_moveSpans_of_notMem fun hlater => ?_) rfl
    exact hsplit.2.2 b.id (List.mem_map_of_mem hb) b.id hlater rfl
  have hback : ∀ b ∈ a.base.blocks.drop first,
      (a.shiftFrom first delta).fill (b.shift delta) = (a.fill b).shift delta := by
    intro b hb
    have hmoved := getElem?_moveSpans delta a.spans hsplit.2.1 (List.mem_map_of_mem hb)
    simp only [fill, Block.shift, shiftFrom, hmoved]
  have hblocks : (a.shiftFrom first delta).base.blocks.map (a.shiftFrom first delta).fill =
      Transcript.shiftFrom first delta (a.base.blocks.map a.fill) := by
    generalize (a.shiftFrom first delta).fill = refill at hfront hback
    rw [shiftFrom, Transcript.shiftFrom, Transcript.shiftFrom, List.map_append, List.map_map,
      ← List.map_take, ← List.map_drop, List.map_map, List.map_congr_left hfront]
    exact congrArg _ (List.map_congr_left hback)
  rw [transcript, hblocks]
  rfl

theorem Filed.modifyAt (h : a.Filed ids) {f : Block → Block} (hf : ∀ b, (f b).id = b.id)
    (index : Nat) : (a.modifyAt index f).Filed ids := by
  have hsame : (a.modifyAt index f).base.blocks.map Block.id = a.base.blocks.map Block.id :=
    map_modify hf a.base.blocks index
  exact ⟨hsame.trans h.listed, h.numbered.of_ids hsame rfl, h.spans, h.frames⟩

theorem Filed.shiftFrom (h : a.Filed ids) (first : Nat) (delta : Int) :
    (a.shiftFrom first delta).Filed ids := by
  have hsame : (a.shiftFrom first delta).base.blocks.map Block.id = a.base.blocks.map Block.id := by
    have hshift : Block.id ∘ Block.shift delta = Block.id := rfl
    simp only [Archive.shiftFrom, Transcript.shiftFrom, List.map_append, List.map_map, hshift]
    rw [← List.map_append, List.take_append_drop]
  exact ⟨hsame.trans h.listed, h.numbered.of_ids hsame rfl,
    fun id hid => h.spans id (mem_moveSpans.mp hid), h.frames⟩

theorem Filed.tallies_edit (h : a.Filed ids) (index start stop : Nat) (inserted : Text) :
    Tallies ids (a.edit index start stop inserted) (a.transcript.edit index start stop inserted) := by
  refine .bind (y := orBadOffset (a.base.document.replace? start stop inserted)) (fun d => d)
    (by cases a.base.document.replace? start stop inserted <;> rfl) fun document _ => ?_
  have hplaced : Filed ids { a with base := { a.base with document } } :=
    ⟨h.listed, ⟨h.numbered.ascending, h.numbered.below⟩, h.spans, h.frames⟩
  have hmoved := hplaced.modifyAt (f := Block.moveStop
    ((byteLength inserted : Int) - ((stop - start : Nat) : Int))) (fun _ => by rfl) index
  refine .ok (hmoved.shiftFrom (index + 1) _) ?_
  rw [transcript_shiftFrom hmoved.nodup, modifyAt_transcript (f := Block.moveStop _) fun _ => by rfl]
  rfl

theorem Filed.tallies_append (h : a.Filed ids) (id : Nat) (text : Text) (part : BlockPart) :
    Tallies ids ((a.append id text part).map Prod.snd)
      ((a.transcript.append id text part).map Prod.snd) := by
  rw [append, Transcript.append, map_bind, map_bind]
  refine .bind _ (locate_transcript a id) fun located _ => ?_
  obtain ⟨index, b⟩ := located
  dsimp only
  rw [map_bind, map_bind]
  refine (h.tallies_edit index b.stop b.stop text).andThen fun a ha => ?_
  refine .ok (ha.modifyAt (fun _ => by cases part <;> rfl) index) (modifyAt_transcript fun b => ?_)
  cases part <;> rfl

theorem Filed.tallies_replaceOutput (h : a.Filed ids) (id : Nat) (output : Text) :
    Tallies ids (a.replaceOutput id output) (a.transcript.replaceOutput id output) :=
  .bind _ (locate_transcript a id) fun ⟨index, b⟩ _ =>
    h.tallies_edit index b.outputStart b.stop output

theorem Filed.tallies_truncate (h : a.Filed ids) (id : Nat) (stop : Nat) :
    Tallies ids (a.truncate id stop) (a.transcript.truncate id stop) := by
  refine .bind _ (locate_transcript a id) fun ⟨index, b⟩ hlocate => ?_
  have hplace := ids_of_locate hlocate
  rw [h.listed] at hplace
  refine .ite Iff.rfl (.error _) ?_
  refine (h.tallies_edit index (min (max stop b.start) b.stop) b.stop []).andThen fun a₁ h₁ => ?_
  have hcut := h₁.modifyAt (f := Block.clampToStop) (fun _ => by rfl) index
  refine .ok ⟨hcut.listed, hcut.numbered, fun other hother => ?_, hcut.frames⟩ ?_
  · exact hcut.spans other (Std.HashMap.mem_modify.mp hother)
  · refine transcript_modifyAt h₁.nodup (h₁.listed ▸ hplace) rfl (fun other hne => ?_)
      (fun _ _ => rfl) fun c hc => ?_
    · exact Std.HashMap.getElem?_modify.trans (if_neg (by simpa using hne.symm))
    · subst hc
      simp only [fill, Archive.modifyAt, Block.clampToStop, Std.HashMap.getElem?_modify_self]
      rfl

section Removal

variable (h : a.Filed ids) (hplace : (a.base.blocks.map Block.id)[index]? = some id)
include h hplace

theorem Filed.ids_without (document : Document) :
    (a.without document index id).base.blocks.map Block.id = ids.erase id := by
  obtain ⟨hlt, hid⟩ := List.getElem?_eq_some_iff.mp hplace
  rw [without, ← List.eraseIdx_map, ← h.listed, ← hid, h.nodup.erase_getElem index hlt]

theorem Filed.without (document : Document) :
    (a.without document index id).Filed (ids.erase id) := by
  have hids := h.ids_without hplace document
  refine ⟨hids, ⟨?_, ?_⟩, fun other hother => ?_, fun other hother => ?_⟩
  · rw [hids, ← h.listed]
    exact h.numbered.ascending.sublist List.erase_sublist
  · intro c hc
    exact h.numbered.below c (List.mem_of_mem_eraseIdx hc)
  · obtain ⟨hne, hother⟩ := Std.HashMap.mem_erase.mp hother
    exact (List.mem_erase_of_ne (ne_of_beq_false hne).symm).mpr (h.spans other hother)
  · obtain ⟨hne, hother⟩ := Std.HashMap.mem_erase.mp hother
    exact (List.mem_erase_of_ne (ne_of_beq_false hne).symm).mpr (h.frames other hother)

theorem Filed.transcript_without (document : Document) :
    (a.without document index id).transcript =
      { a.transcript with document, blocks := a.transcript.blocks.eraseIdx index } := by
  have hgone : id ∉ ids.erase id := (h.listed ▸ h.nodup).not_mem_erase
  have hblocks : (a.base.blocks.eraseIdx index).map (a.without document index id).fill =
      a.transcript.blocks.eraseIdx index := by
    rw [transcript, List.eraseIdx_map]
    refine List.map_congr_left fun c hc => ?_
    have hne : id ≠ c.id := fun hsame =>
      hgone (h.ids_without hplace document ▸ hsame ▸ List.mem_map_of_mem hc)
    simp [fill, Archive.without, Std.HashMap.getElem?_erase, hne]
  rw [← hblocks]
  rfl

end Removal

theorem Filed.tallies_remove (h : a.Filed ids) (id : Nat) :
    Tallies (ids.erase id) (a.remove id) (a.transcript.remove id) := by
  refine .bind _ (locate_transcript a id) fun ⟨index, b⟩ hlocate => ?_
  have hplace := ids_of_locate hlocate
  have hlength : a.transcript.blocks.length = a.base.blocks.length := List.length_map _
  dsimp only [fill]
  rw [hlength]
  generalize (if b.start > 0 then (b.start - 1, b.stop)
    else if index + 1 < a.base.blocks.length then (b.start, b.stop + 1)
    else (b.start, b.stop)) = range
  obtain ⟨start, stop⟩ := range
  dsimp only
  refine .bind (y := orBadOffset (a.base.document.delete? start stop)) (fun d => d)
    (by cases a.base.document.delete? start stop <;> rfl) fun document _ => ?_
  have herased := h.without hplace document
  refine .ok (herased.shiftFrom index _) ?_
  rw [transcript_shiftFrom herased.nodup, h.transcript_without hplace]

theorem Filed.tallies_createBlock (h : a.Filed ids) (command prompt : Option Text) :
    Tallies (ids ++ [a.base.nextId]) ((a.createBlock command prompt).map Prod.snd)
      ((a.transcript.createBlock command prompt).map Prod.snd) := by
  rw [createBlock, Transcript.createBlock, Transcript.createBlock, activeBlock?_transcript]
  cases a.base.activeBlock? with
  | some b => exact .error _
  | none =>
    have hunlisted : a.base.nextId ∉ ids := by
      intro hid
      rw [← h.listed] at hid
      obtain ⟨b, hb, hid⟩ := List.mem_map.mp hid
      exact Nat.ne_of_lt (h.numbered.below b hb) hid
    have hspans : a.spans[a.base.nextId]? = none :=
      Std.HashMap.getElem?_eq_none fun hid => hunlisted (h.spans _ hid)
    have hframes : a.frames[a.base.nextId]? = none :=
      Std.HashMap.getElem?_eq_none fun hid => hunlisted (h.frames _ hid)
    refine .ok ⟨?_, ?_, ?_, ?_⟩ ?_
    · rw [List.map_append, h.listed]
      rfl
    · exact h.numbered.concat rfl rfl rfl
    · exact fun id hid => List.mem_append_left _ (h.spans id hid)
    · exact fun id hid => List.mem_append_left _ (h.frames id hid)
    · simp [transcript, fill, Block.opened, hspans, hframes]

-- A change of one block alone.
theorem Filed.tallies_modifyBlock (h : a.Filed ids) {f : Block → Block} (hid : ∀ b, (f b).id = b.id)
    (hf : ∀ b, a.fill (f b) = f (a.fill b)) (id : Nat) :
    Tallies ids (a.base.modifyBlock id f >>= fun base => .ok { a with base })
      (a.transcript.modifyBlock id f) := by
  rw [Transcript.modifyBlock, Transcript.modifyBlock, indexOf_transcript]
  cases a.base.indexOf id with
  | error reason => exact .error reason
  | ok index => exact .ok (h.modifyAt hid index) (modifyAt_transcript hf)

theorem mem_ids_of_refiled {α : Type} {entries entries' : Std.HashMap Nat α} (hid : id ∈ ids)
    (h : ∀ other ∈ entries, other ∈ ids)
    (hsame : ∀ other, other ≠ id → entries'[other]? = entries[other]?) :
    ∀ other ∈ entries', other ∈ ids := by
  intro other hother
  by_cases hhere : other = id
  · exact hhere ▸ hid
  · rw [Std.HashMap.mem_iff_isSome_getElem?, hsame other hhere] at hother
    exact h other (Std.HashMap.mem_iff_isSome_getElem?.mpr hother)

-- A change of what is filed under one listed block.
theorem Filed.tallies_refile (h : a.Filed ids) {spans : Std.HashMap Nat (List Span)}
    {frames : Nat → Std.HashMap Nat Frame} {g : Nat → Block → Block}
    (hspans : ∀ other, other ≠ id → spans[other]? = a.spans[other]?)
    (hframes : ∀ index other, other ≠ id → (frames index)[other]? = a.frames[other]?)
    (hfill : ∀ index (b : Block), b.id = id →
      { b with spans := spans[id]?, frame := (frames index)[id]? } = g index (a.fill b)) :
    Tallies ids
      (a.base.indexOf id >>= fun index => .ok { a with spans, frames := frames index })
      (a.transcript.indexOf id >>= fun index => .ok (a.transcript.modifyAt index (g index))) := by
  refine .bind (fun index => index)
    (by rw [indexOf_transcript]; cases a.base.indexOf id <;> rfl) fun index hindex => ?_
  have hplace := ids_of_indexOf hindex
  have hid : id ∈ ids := h.listed ▸ List.mem_of_getElem? hplace
  refine .ok ⟨h.listed, h.numbered, mem_ids_of_refiled hid h.spans hspans,
    mem_ids_of_refiled hid h.frames (hframes index)⟩ ?_
  refine transcript_modifyAt (g := fun b => b) h.nodup hplace ?_ hspans (hframes index)
    fun b hb => ?_
  · exact congrArg (fun blocks => { a.base with blocks })
      (List.modify_id index a.base.blocks).symm
  · rw [← hfill index b hb, ← hb]
    rfl

-- The frame of a block that may already have one.
theorem getElem?_insertIfNew_self (frames : Std.HashMap Nat Frame) (id : Nat) (frame : Frame) :
    (frames.insertIfNew id frame)[id]? = some (frames[id]?.getD frame) := by
  rw [Std.HashMap.getElem?_insertIfNew]
  by_cases hid : id ∈ frames
  · simp [hid]
  · simp [hid]

theorem getElem?_insertIfNew_of_ne (frames : Std.HashMap Nat Frame) {id other : Nat} (frame : Frame)
    (hne : other ≠ id) : (frames.insertIfNew id frame)[other]? = frames[other]? := by
  rw [Std.HashMap.getElem?_insertIfNew, if_neg fun h => hne (beq_iff_eq.mp h.1).symm]

theorem Filed.tallies_putSpans (h : a.Filed ids) (id : Nat) (spans : List Span) :
    Tallies ids (a.putSpans id spans) (a.transcript.putSpans id spans) := by
  refine h.tallies_refile (g := fun _ b => { b with spans := some spans })
    (fun other hne => ?_) (fun _ _ _ => rfl) fun _ b hb => ?_
  · rw [Std.HashMap.getElem?_insert, if_neg (by simpa using hne.symm)]
  · subst hb
    simp [fill]

theorem Filed.tallies_putFrame (h : a.Filed ids) (id : Nat) (firstBlock : Bool) :
    Tallies ids (a.putFrame id firstBlock) (a.transcript.putFrame id firstBlock) := by
  refine h.tallies_refile (g := fun _ b => { b with frame := some (b.frame.getD { firstBlock }) })
    (fun _ _ => rfl) (fun _ other hne => getElem?_insertIfNew_of_ne _ _ hne) fun _ b hb => ?_
  subst hb
  simp only [fill, getElem?_insertIfNew_self]

theorem Filed.tallies_setFrameState (h : a.Filed ids) (id : Nat) (state : FrameState) :
    Tallies ids (a.setFrameState id state) (a.transcript.setFrameState id state) := by
  refine h.tallies_refile (g := fun index b =>
      { b with frame := some { b.frame.getD { firstBlock := index == 0 } with state } })
    (fun _ _ => rfl) (fun _ other hne => ?_) fun _ b hb => ?_
  · rw [Std.HashMap.getElem?_modify, if_neg (by simpa using hne.symm)]
    exact getElem?_insertIfNew_of_ne _ _ hne
  · subst hb
    simp only [fill, Std.HashMap.getElem?_modify_self, getElem?_insertIfNew_self, Option.map_some]

theorem Filed.tallies_closeLast (h : a.Filed ids) :
    Tallies ids (.ok a.closeLast) (.ok a.transcript.closeLast) := by
  have hlength : a.transcript.blocks.length = a.base.blocks.length := List.length_map _
  refine .ok (h.modifyAt (f := Block.close) (fun _ => rfl) (a.base.blocks.length - 1)) ?_
  rw [Transcript.closeLast, hlength]
  exact modifyAt_transcript fun _ => rfl

-- What an operation does to an archive is what it does to the transcript.
theorem Filed.tallies_operate (h : a.Filed ids) (o : Operation) :
    ∃ ids', Tallies ids' (a.operate o) (o.run a.transcript) := by
  cases o with
  | create command prompt => exact ⟨_, h.tallies_createBlock command prompt⟩
  | append id text part => exact ⟨_, h.tallies_append id text part⟩
  | replaceOutput id text => exact ⟨_, h.tallies_replaceOutput id text⟩
  | truncate id stop => exact ⟨_, h.tallies_truncate id stop⟩
  | finish id exitCode =>
    exact ⟨_, h.tallies_modifyBlock (fun _ => by rfl) (fun _ => by rfl) id⟩
  | closeLast => exact ⟨_, h.tallies_closeLast⟩
  | lineBreak =>
    exact ⟨_, .ok ⟨h.listed, ⟨h.numbered.ascending, h.numbered.below⟩, h.spans, h.frames⟩ rfl⟩
  | remove id => exact ⟨_, h.tallies_remove id⟩
  | clear => exact ⟨[], .ok ⟨rfl, ⟨.nil, nofun⟩, by simp [clear], by simp [clear]⟩ rfl⟩
  | putSpans id spans => exact ⟨_, h.tallies_putSpans id spans⟩
  | putFrame id firstBlock => exact ⟨_, h.tallies_putFrame id firstBlock⟩
  | setFrameState id state => exact ⟨_, h.tallies_setFrameState id state⟩

end Changes

section Runs

variable {a'' : Archive}

theorem Runs.trans (h : a.Runs a') (h' : a'.Runs a'') : a.Runs a'' := by
  induction h' with
  | here => exact h
  | operate o _ hoperate ih => exact .operate o ih hoperate
  | listeners _ hsame ih => exact .listeners ih hsame

theorem kept_new : Kept {} := .here

theorem Kept.of_runs (h : a.Kept) (hruns : a.Runs a') : a'.Kept := Runs.trans h hruns

theorem Filed.of_sameRecord {base : Transcript} (h : a.Filed ids) (hsame : a.base.SameRecord base) :
    Filed ids { a with base } :=
  ⟨(congrArg (List.map Block.id) hsame.blocks).trans h.listed, hsame.numbered h.numbered, h.spans,
    h.frames⟩

theorem Kept.filed (h : a.Kept) : ∃ ids, a.Filed ids := by
  induction h with
  | here => exact ⟨[], rfl, ⟨.nil, nofun⟩, by simp, by simp⟩
  | operate o _ hoperate ih =>
    obtain ⟨ids, hfiled⟩ := ih
    obtain ⟨ids', htallies⟩ := hfiled.tallies_operate o
    exact ⟨ids', htallies.filed _ hoperate⟩
  | listeners _ hsame ih =>
    obtain ⟨ids, hfiled⟩ := ih
    exact ⟨ids, hfiled.of_sameRecord hsame⟩

-- An operation on an archive is the operation on its transcript, also when it is refused.
theorem Kept.map_operate (h : a.Kept) (o : Operation) :
    (a.operate o).map transcript = o.run a.transcript := by
  obtain ⟨ids, hfiled⟩ := h.filed
  obtain ⟨ids', htallies⟩ := hfiled.tallies_operate o
  exact htallies.same

-- No block that is not listed has spans or a frame.
theorem Kept.unlisted (h : a.Kept) (hid : ∀ b ∈ a.base.blocks, b.id ≠ id) :
    a.spans[id]? = none ∧ a.frames[id]? = none := by
  obtain ⟨ids, hfiled⟩ := h.filed
  have hnone : id ∉ ids := by
    rw [← hfiled.listed, List.mem_map]
    exact fun ⟨b, hb, hsame⟩ => hid b hb hsame
  exact ⟨Std.HashMap.getElem?_eq_none fun hmem => hnone (hfiled.spans id hmem),
    Std.HashMap.getElem?_eq_none fun hmem => hnone (hfiled.frames id hmem)⟩

theorem allSpans_transcript (a : Archive) : a.transcript.allSpans = a.allSpans := by
  rw [Transcript.allSpans, transcript, List.flatMap_map]
  rfl

-- Whatever is done to the transcript can be done to the archive.
theorem Kept.exists_runs (h : a.Kept) {t : Transcript} (hruns : a.transcript.Runs t) :
    ∃ a' : Archive, a.Runs a' ∧ a'.transcript = t := by
  induction hruns with
  | here => exact ⟨a, .here, rfl⟩
  | run o _ hrun ih =>
    obtain ⟨a', hleads, rfl⟩ := ih
    rw [← (h.of_runs hleads).map_operate o] at hrun
    cases hoperate : a'.operate o with
    | error reason =>
      rw [hoperate] at hrun
      cases hrun
    | ok a'' =>
      rw [hoperate] at hrun
      exact ⟨a'', .operate o hleads hoperate, Except.ok.inj hrun⟩

theorem exists_runs_of_sameRecord {t : Transcript} (hsame : a.transcript.SameRecord t) :
    ∃ a' : Archive, a.Runs a' ∧ a'.transcript = t := by
  refine ⟨{ a with base := { t with blocks := a.base.blocks } },
    .listeners .here ⟨hsame.text, rfl, hsame.separatorPending, hsame.nextId⟩, ?_⟩
  exact congrArg (fun blocks => { t with blocks }) hsame.blocks.symm

end Runs

end Archive

end ShellTranscript
