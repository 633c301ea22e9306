import Mathlib.Tactic.Common
import ShellTranscript.Proofs.Transcript.Operations

-- Taking a block out of a transcript. It takes along a line feed that separates the block from a
-- neighbour, and is exact when that line feed is there: when no block touches another one. Blocks
-- touch when one is created behind another in a document that is still empty, and from then on a
-- removal can take a byte of a neighbour.
namespace ShellTranscript

open Text

namespace Arranged

variable {before t : Text} {blocks : List Block} {b : Block}

-- A text that goes on behind its last block ends in a line feed.
theorem dropLast_feed (h : Arranged before blocks t) (hne : t ≠ [])
    (hbehind : ∀ b ∈ blocks, b.stop < byteLength (before ++ t)) :
    ∃ t', t = t' ++ ['\n'] ∧ Arranged before blocks t' := by
  induction h with
  | @gap before gap hgap =>
    obtain ⟨gap', c, rfl⟩ := List.eq_nil_or_concat' gap |>.resolve_left hne
    obtain rfl : c = '\n' := hgap c (by simp)
    exact ⟨gap', rfl, .gap fun c hc => hgap c (by simp [hc])⟩
  | @block before gap prompt command output rest b blocks hgap hcovers _ ih =>
    have hstop := hbehind b List.mem_cons_self
    rw [hcovers.stop] at hstop
    have hrest : rest ≠ [] := by
      rintro rfl
      simp only [byteLength_append, byteLength_nil] at hstop
      omega
    obtain ⟨rest', rfl, hrest'⟩ := ih hrest fun c hc => by
      have hc' := hbehind c (List.mem_cons_of_mem _ hc)
      simpa only [List.append_assoc] using hc'
    refine ⟨gap ++ prompt ++ command ++ output ++ rest', ?_, .block hgap hcovers hrest'⟩
    simp only [List.append_assoc]

-- A text whose first block starts later starts with a line feed.
theorem tail_feed (h : Arranged before (b :: blocks) t) (hstart : byteLength before < b.start) :
    ∃ t', t = '\n' :: t' ∧ Arranged (before ++ ['\n']) (b :: blocks) t' := by
  cases h with
  | @block _ gap prompt command output rest _ _ hgap hcovers hrest =>
    rw [hcovers.start] at hstart
    cases gap with
    | nil =>
      rw [List.append_nil] at hstart
      omega
    | cons c gap =>
      obtain rfl : c = '\n' := hgap c List.mem_cons_self
      refine ⟨gap ++ prompt ++ command ++ output ++ rest, by simp, ?_⟩
      have hgap' : OnlyFeeds gap := fun c hc => hgap c (List.mem_cons_of_mem _ hc)
      refine .block hgap' ?_ ?_
      · simpa only [List.append_assoc, List.singleton_append] using hcovers
      · simpa only [List.append_assoc, List.singleton_append] using hrest

end Arranged

namespace Transcript

-- A byte of the document that no block holds.
def Spare (t : Transcript) (offset : Nat) : Prop :=
  offset < t.document.length ∧ ∀ b ∈ t.blocks, ¬(b.start ≤ offset ∧ offset < b.stop)

-- What is left of the texts around a part, without at most one line feed beside the part, which is no
-- block's.
inductive Leaves (t : Transcript) : Text → Text → Text → Text → Prop where
  | all (before part after : Text) : Leaves t before part after (before ++ after)
  | feedBefore (before part after : Text) : t.Spare (byteLength before) →
      Leaves t (before ++ ['\n']) part after (before ++ after)
  | feedBehind (before part after : Text) : t.Spare (byteLength (before ++ part)) →
      Leaves t before part ('\n' :: after) (before ++ after)

-- A transcript without one of its blocks, in which all others are what they were.
structure Without (t : Transcript) (b : Block) (t' : Transcript) : Prop where
  ids : t'.blocks.map Block.id = (t.blocks.map Block.id).erase b.id
  others : ∀ c ∈ t.blocks, c.id ≠ b.id →
    ∃ c' ∈ t'.blocks, c.KeptAs t.document.text c' t'.document.text
  text : ∃ before part after, t.document.text = before ++ part ++ after ∧
    b.start = byteLength before ∧ b.stop = byteLength (before ++ part) ∧
    t.Leaves before part after t'.document.text

def RemovesExactly (t : Transcript) (b : Block) : Prop :=
  ∃ t', t.remove b.id = .ok t' ∧ t.Without b t'

-- No other block touches this one where a removal expects a separator: before the block, or behind it
-- at the start of the document.
def StandsApart (t : Transcript) (b : Block) : Prop :=
  ∀ front back, t.blocks = front ++ b :: back →
    (0 < b.start → ∀ c ∈ front, c.stop < b.start) ∧ (b.start = 0 → ∀ c ∈ back, b.stop < c.start)

variable {t t' : Transcript} {front back : List Block} {b : Block}

-- The bytes that a removal deletes: a block's, and one beside them.
def removedRange (t : Transcript) (index : Nat) (b : Block) : Nat × Nat :=
  if b.start > 0 then (b.start - 1, b.stop)
  else if index + 1 < t.blocks.length then (b.start, b.stop + 1)
  else (b.start, b.stop)

-- A block, and the part of the text that a removal deletes with it.
structure Cutout (t : Transcript) (front : List Block) (b : Block) (back : List Block)
    (lead removed rest : Text) : Prop where
  blocks : t.blocks = front ++ b :: back
  text : t.document.text = lead ++ removed ++ rest
  before : Arranged [] front lead
  behind : Arranged (lead ++ removed) back rest
  range : t.removedRange front.length b = (byteLength lead, byteLength (lead ++ removed))
  leaves : ∃ before part after, t.document.text = before ++ part ++ after ∧
    b.start = byteLength before ∧ b.stop = byteLength (before ++ part) ∧
    t.Leaves before part after (lead ++ rest)

-- Without one of them, still only the last block can be open.
theorem AllClosed.erase {back' : List Block} (h : AllClosed (front ++ b :: back).dropLast)
    (hsame : back'.map Block.unplaced = back.map Block.unplaced) :
    AllClosed (front ++ back').dropLast := by
  rw [List.dropLast_append_cons] at h
  cases back with
  | nil =>
    obtain rfl : back' = [] := by simpa using hsame
    rw [List.append_nil]
    intro c hc
    exact h c (List.mem_append_left _ (List.dropLast_subset _ hc))
  | cons d back =>
    cases back' with
    | nil => simp at hsame
    | cons d' back' =>
      have hclosed : AllClosed (front ++ (d :: back).dropLast) := by
        intro c hc
        rw [List.dropLast_cons_cons] at h
        rcases List.mem_append.mp hc with hc | hc
        · exact h c (List.mem_append_left _ hc)
        · exact h c (List.mem_append_right _ (List.mem_cons_of_mem _ hc))
      rw [List.dropLast_append_cons]
      apply hclosed.of_unplaced
      rw [List.map_append, List.map_append, List.map_dropLast, List.map_dropLast, hsame]

namespace Cutout

variable {lead removed rest : Text}

theorem remove (h : t.Cutout front b back lead removed rest) (hids : t.Numbered) :
    ∃ t', t.remove b.id = .ok t' ∧ t'.document.text = lead ++ rest ∧
      t'.blocks = front ++
        back.map (Block.shift ((byteLength lead : Int) - byteLength (lead ++ removed))) ∧
      t'.separatorPending = t.separatorPending ∧ t'.nextId = t.nextId := by
  obtain ⟨document, hdocument, hnew⟩ := Document.replace?_part h.text []
  have herase : t.blocks.eraseIdx front.length = front ++ back := by
    rw [h.blocks, List.eraseIdx_append_of_length_le (Nat.le_refl _), Nat.sub_self,
      List.eraseIdx_cons_zero]
  have hdelta : -((byteLength (lead ++ removed) - byteLength lead : Nat) : Int) =
      (byteLength lead : Int) - byteLength (lead ++ removed) := by
    rw [byteLength_append]
    omega
  have hrange := h.range
  rw [removedRange] at hrange
  rw [List.append_nil] at hnew
  refine ⟨{ t with
    document
    blocks := front ++
      back.map (Block.shift ((byteLength lead : Int) - byteLength (lead ++ removed))) },
    ?_, hnew, rfl, rfl, rfl⟩
  simp only [Transcript.remove, hids.locate h.blocks, hrange, Document.delete?, hdocument,
    orBadOffset, herase, shiftFrom_append, hdelta, bind, Except.bind, pure, Except.pure]

theorem room (h : t.Cutout front b back lead removed rest) (horder : t.InOrder) :
    byteLength (lead ++ rest) ≤ maxOffset := by
  have hfits := horder.fits
  rw [Document.length, h.text] at hfits
  simp only [byteLength_append] at hfits ⊢
  omega

theorem ids (h : t.Cutout front b back lead removed rest) (hids : t.Numbered)
    (hblocks : t'.blocks = front ++
      back.map (Block.shift ((byteLength lead : Int) - byteLength (lead ++ removed)))) :
    t'.blocks.map Block.id = (t.blocks.map Block.id).erase b.id := by
  have hfirst : b.id ∉ front.map Block.id := by
    intro hmem
    obtain ⟨c, hc, hid⟩ := List.mem_map.mp hmem
    exact hids.id_ne h.blocks c (List.mem_append_left _ hc) hid
  rw [h.blocks, hblocks, List.map_append, List.map_append, List.map_cons,
    List.erase_append_right _ hfirst, List.erase_cons_head, List.map_map]
  rfl

theorem inOrder (h : t.Cutout front b back lead removed rest) (horder : t.InOrder)
    (htext : t'.document.text = lead ++ rest)
    (hblocks : t'.blocks = front ++
      back.map (Block.shift ((byteLength lead : Int) - byteLength (lead ++ removed))))
    (hnext : t'.nextId = t.nextId) : t'.InOrder := by
  have hsub : (t'.blocks.map Block.id).Sublist (t.blocks.map Block.id) := by
    rw [h.ids horder.numbered hblocks]
    exact List.erase_sublist
  refine ⟨?_, ?_, ⟨horder.numbered.ascending.sublist hsub, ?_⟩, ?_⟩
  · rw [hblocks, htext]
    exact h.before.append (h.behind.shift (h.room horder))
  · have hclosed := horder.closed
    rw [h.blocks] at hclosed
    rw [hblocks]
    apply AllClosed.erase hclosed
    rw [List.map_map]
    rfl
  · intro c hc
    obtain ⟨d, hd, hid⟩ := List.mem_map.mp (hsub.subset (List.mem_map_of_mem hc))
    rw [hnext, ← hid]
    exact horder.numbered.below d hd
  · rw [Document.length, htext]
    exact h.room horder

-- The other blocks, once the part is gone.
theorem without (h : t.Cutout front b back lead removed rest) (horder : t.InOrder)
    (htext : t'.document.text = lead ++ rest)
    (hblocks : t'.blocks = front ++
      back.map (Block.shift ((byteLength lead : Int) - byteLength (lead ++ removed)))) :
    t.Without b t' := by
  refine ⟨h.ids horder.numbered hblocks, ?_, ?_⟩
  · intro c hc hne
    rw [h.blocks] at hc
    rw [h.text, htext, hblocks]
    rcases List.mem_append.mp hc with hc | hc
    · refine ⟨c, List.mem_append_left _ hc, ?_⟩
      rw [List.append_assoc]
      exact h.before.kept_front hc (removed ++ rest) rest
    · cases List.mem_cons.mp hc with
      | inl hc => exact absurd (congrArg Block.id hc) hne
      | inr hc =>
        exact ⟨_, List.mem_append_right _ (List.mem_map_of_mem hc),
          h.behind.kept_back hc (h.room horder)⟩
  · rw [htext]
    exact h.leaves

-- Nor do they touch each other then, if they did not before.
theorem spaced (h : t.Cutout front b back lead removed rest) (horder : t.InOrder)
    (htext : t'.document.text = lead ++ rest)
    (hblocks : t'.blocks = front ++
      back.map (Block.shift ((byteLength lead : Int) - byteLength (lead ++ removed))))
    (hpending : t'.separatorPending = t.separatorPending) (hspaced : t.Spaced) : t'.Spaced := by
  have hroom := h.room horder
  obtain ⟨hfront, ⟨hbehind, hback⟩, hcross⟩ :
      front.Pairwise _ ∧ ((∀ c ∈ back, b.stop < c.start) ∧ back.Pairwise _) ∧
        ∀ a ∈ front, ∀ c ∈ b :: back, a.stop < c.start := by
    have hpairs := hspaced.blocks
    rwa [h.blocks, List.pairwise_append, List.pairwise_cons] at hpairs
  have hbefore : ∀ a ∈ front, a.stop ≤ byteLength lead := fun a ha => (h.before.ordered a ha).2.2.2.2
  -- With a block in front, the part that was deleted ended where its block did.
  have hend : ∀ a ∈ front, b.stop = byteLength (lead ++ removed) := by
    intro a ha
    have hlt := hcross a ha b List.mem_cons_self
    have hrange := h.range
    rw [removedRange, if_pos (by omega)] at hrange
    exact congrArg Prod.snd hrange
  refine ⟨?_, ?_⟩
  · rw [hblocks, List.pairwise_append]
    refine ⟨hfront, h.behind.spaced_shift hroom hback, ?_⟩
    intro a ha c hc
    rw [hend a ha] at hbehind
    exact (hbefore a ha).trans_lt (h.behind.above_shift hroom hbehind c hc)
  · intro hpending' c hc
    rw [hpending] at hpending'
    have hroomy := hspaced.pending hpending'
    rw [Document.length, h.text, h.blocks] at hroomy
    rw [hblocks] at hc
    rw [Document.length, htext]
    rcases List.mem_append.mp hc with hc | hc
    · have hlt := hroomy b (by simp)
      have hle := hbefore c hc
      rw [hend c hc, byteLength_append (lead ++ removed)] at hlt
      rw [byteLength_append]
      omega
    · exact h.behind.below_shift hroom (fun c hc => hroomy c (by simp [hc])) c hc

end Cutout

section Separator

variable {s : Surroundings} {prompt command output : Text}

theorem spare_of_hold (h : s.Hold t b prompt command output) {offset : Nat}
    (hinside : offset < t.document.length) (hfront : ∀ c ∈ s.front, c.stop ≤ offset)
    (hb : offset < b.start ∨ b.stop ≤ offset) (hback : ∀ c ∈ s.back, offset < c.start) :
    t.Spare offset := by
  refine ⟨hinside, ?_⟩
  intro c hc
  rw [h.blocks] at hc
  rcases List.mem_append.mp hc with hc | hc
  · have hle := hfront c hc
    omega
  · cases List.mem_cons.mp hc with
    | inl hc =>
      subst hc
      omega
    | inr hc =>
      have hlt := hback c hc
      omega

-- The line feed before a block goes with it.
theorem cutout_before (h : s.Hold t b prompt command output) (hstart : 0 < b.start)
    (hapart : ∀ c ∈ s.front, c.stop < b.start) :
    ∃ front back lead removed rest, t.Cutout front b back lead removed rest := by
  have hfeed : byteLength ['\n'] = 1 := by decide
  have hinner := h.covers.ordered
  have hstop := h.covers.stop
  have hcovers := h.covers.start
  have hne : s.lead ≠ [] := by
    intro hnil
    rw [hcovers, hnil] at hstart
    exact absurd hstart (Nat.lt_irrefl 0)
  obtain ⟨lead, hlead, hbefore⟩ := h.before.dropLast_feed hne (by rwa [hcovers] at hapart)
  have htext : t.document.text = lead ++ ('\n' :: (prompt ++ command ++ output)) ++ s.rest := by
    rw [h.text, hlead]
    simp
  have hbehind : Arranged (lead ++ ('\n' :: (prompt ++ command ++ output))) s.back s.rest := by
    have hbehind' := h.behind
    rw [hlead] at hbehind'
    simpa using hbehind'
  rw [hlead] at hcovers hstop
  simp only [byteLength_append, hfeed] at hcovers hstop
  have hspare : t.Spare (byteLength lead) := by
    apply spare_of_hold h
    · rw [Document.length, htext]
      simp only [byteLength_append, byteLength_cons]
      have hpos := Char.utf8Size_pos '\n'
      omega
    · intro c hc
      have hlt := hapart c hc
      omega
    · omega
    · intro c hc
      have hle := (h.behind.ordered c hc).1
      rw [hlead] at hle
      simp only [byteLength_append, hfeed] at hle
      omega
  refine ⟨s.front, s.back, lead, '\n' :: (prompt ++ command ++ output), s.rest, h.blocks, htext,
    hbefore, hbehind, ?_, lead ++ ['\n'], prompt ++ command ++ output, s.rest, ?_, ?_, ?_, ?_⟩
  · have hpos : b.start > 0 := hstart
    have hsize : byteLength ('\n' :: (prompt ++ command ++ output)) =
        1 + byteLength (prompt ++ command ++ output) := rfl
    rw [removedRange, if_pos hpos, byteLength_append, hsize]
    simp only [byteLength_append, Prod.mk.injEq]
    omega
  · rw [htext]
    simp
  · rw [byteLength_append, hfeed]
    exact hcovers
  · simp only [byteLength_append, hfeed]
    omega
  · exact .feedBefore lead (prompt ++ command ++ output) s.rest hspare

-- Nothing is in front of a block at the start of the document.
theorem text_of_start (h : s.Hold t b prompt command output) (hstart : b.start = 0) :
    Arranged [] s.front [] ∧ t.document.text = prompt ++ command ++ output ++ s.rest ∧
      Arranged (prompt ++ command ++ output) s.back s.rest ∧
      b.stop = byteLength (prompt ++ command ++ output) := by
  have hlead : s.lead = [] := by
    have hcovers := h.covers.start
    exact byteLength_eq_zero_iff.mp (by omega)
  have hbefore := h.before
  have htext := h.text
  have hbehind := h.behind
  have hstop : b.stop = byteLength (s.lead ++ (prompt ++ command ++ output)) := by
    simpa only [List.append_assoc] using h.covers.stop
  rw [hlead] at hbefore htext hbehind hstop
  exact ⟨hbefore, htext, hbehind, hstop⟩

-- There the line feed behind the block goes with it.
theorem cutout_behind (h : s.Hold t b prompt command output) (hstart : b.start = 0) {d : Block}
    {back : List Block} (hback : s.back = d :: back) (hapart : ∀ c ∈ s.back, b.stop < c.start) :
    ∃ front back lead removed rest, t.Cutout front b back lead removed rest := by
  have hfeed : byteLength ['\n'] = 1 := by decide
  obtain ⟨hbefore, htext, hbehind, hstop⟩ := text_of_start h hstart
  have hblocks := h.blocks
  rw [hstop] at hapart
  rw [hback] at hblocks hbehind hapart
  have hmore : s.front.length + 1 < t.blocks.length := by simp [hblocks]
  obtain ⟨rest, hrest, hbehind'⟩ := hbehind.tail_feed (hapart d List.mem_cons_self)
  have hspare : t.Spare (byteLength (prompt ++ command ++ output)) := by
    apply spare_of_hold h
    · have hpos := Char.utf8Size_pos '\n'
      rw [Document.length, htext, hrest]
      simp only [byteLength_append, byteLength_cons]
      omega
    · intro c hc
      have hle := (hbefore.ordered c hc).2.2.2.2
      rw [List.append_nil, byteLength_nil] at hle
      omega
    · exact Or.inr (Nat.le_of_eq hstop)
    · rwa [hback]
  refine ⟨s.front, d :: back, [], prompt ++ command ++ output ++ ['\n'], rest, hblocks, ?_, hbefore,
    hbehind', ?_, [], prompt ++ command ++ output, '\n' :: rest, ?_, hstart, hstop, ?_⟩
  · rw [htext, hrest]
    simp
  · simp only [removedRange, hstart, Nat.lt_irrefl, gt_iff_lt, if_false, hmore, if_true, hstop,
      List.nil_append, byteLength_append, byteLength_nil, hfeed]
  · rw [htext, hrest, List.nil_append]
  · exact .feedBehind [] (prompt ++ command ++ output) rest hspare

-- Where there is no block behind it either, none goes.
theorem cutout_alone (h : s.Hold t b prompt command output) (hstart : b.start = 0)
    (hback : s.back = []) :
    ∃ front back lead removed rest, t.Cutout front b back lead removed rest := by
  obtain ⟨hbefore, htext, hbehind, hstop⟩ := text_of_start h hstart
  have hblocks := h.blocks
  rw [hback] at hblocks hbehind
  have hlast : ¬s.front.length + 1 < t.blocks.length := by simp [hblocks]
  refine ⟨s.front, [], [], prompt ++ command ++ output, s.rest, hblocks, htext, hbefore, hbehind, ?_,
    [], prompt ++ command ++ output, s.rest, htext, hstart, hstop, ?_⟩
  · simp [removedRange, hstart, hlast, hstop]
  · exact .all [] (prompt ++ command ++ output) s.rest

end Separator

-- The part that is deleted with a block that stands apart.
theorem InOrder.exists_cutout (h : t.InOrder) (hb : b ∈ t.blocks) (hapart : t.StandsApart b) :
    ∃ front back lead removed rest, t.Cutout front b back lead removed rest := by
  obtain ⟨s, prompt, command, output, hhold⟩ := h.exists_hold hb
  obtain ⟨hfront, hback⟩ := hapart s.front s.back hhold.blocks
  by_cases hstart : b.start = 0
  · cases hmore : s.back with
    | nil => exact cutout_alone hhold hstart hmore
    | cons d back => exact cutout_behind hhold hstart hmore (hback hstart)
  · exact cutout_before hhold (by omega) (hfront (by omega))

theorem InOrder.removesExactly (h : t.InOrder) (hb : b ∈ t.blocks) (hapart : t.StandsApart b) :
    t.RemovesExactly b := by
  obtain ⟨front, back, lead, removed, rest, hcut⟩ := h.exists_cutout hb hapart
  obtain ⟨t', hremove, htext, hblocks, -, -⟩ := hcut.remove h.numbered
  exact ⟨t', hremove, hcut.without h htext hblocks⟩

theorem Spaced.standsApart (h : t.Spaced) (b : Block) : t.StandsApart b := by
  intro front back hblocks
  have hpairs := h.blocks
  rw [hblocks, List.pairwise_append, List.pairwise_cons] at hpairs
  refine ⟨?_, ?_⟩
  · intro _ c hc
    exact hpairs.2.2 c hc b List.mem_cons_self
  · intro _ c hc
    exact hpairs.2.1.1 c hc

theorem InOrder.keeps_remove (h : t.InOrder) {id : Nat}
    (hapart : ∀ b ∈ t.blocks, b.id = id → t.StandsApart b) (hrun : t.remove id = .ok t') :
    t.Keeps (.remove id) t' := by
  obtain ⟨b, hb, rfl⟩ := Operation.listed_of_run (o := .remove id) rfl hrun
  obtain ⟨front, back, lead, removed, rest, hcut⟩ := h.exists_cutout hb (hapart b hb rfl)
  obtain ⟨t'', hremove, htext, hblocks, hpending, hnext⟩ := hcut.remove h.numbered
  obtain rfl : t'' = t' := by simpa [hremove] using hrun
  exact ⟨hcut.inOrder h htext hblocks hnext, fun _ => hcut.spaced h htext hblocks hpending⟩

-- Created tidily, no two blocks ever touch.
theorem Reached.spaced (h : Reached (fun t o => o.Tidy t) t) : t.InOrder ∧ t.Spaced := by
  induction h with
  | new => exact ⟨inOrder_new, ⟨.nil, fun _ _ hb => by cases hb⟩⟩
  | @step t t' o _ htidy hrun hfits ih =>
    obtain ⟨horder, hspaced⟩ := ih
    have hkeeps : t.Keeps o t' := by
      cases o with
      | remove id => exact horder.keeps_remove (fun b _ _ => hspaced.standsApart b) hrun
      | _ => exact horder.run rfl hrun hfits
    exact ⟨hkeeps.inOrder, hkeeps.spaced htidy hspaced⟩
  | listeners _ hsame ih =>
    refine ⟨ih.1.of_sameRecord hsame, ih.2.of_ranges (by rw [hsame.blocks]) ?_ ?_⟩
    · rw [hsame.separatorPending]
      exact id
    · rw [Document.length, Document.length, hsame.text]

-- Where every block was created tidily, any block is removed exactly. In other runs a block that stands
-- apart is, as long as all that were removed before it did.
theorem Reached.removes_exactly {b : Block} (hb : b ∈ t.blocks) :
    (Reached (fun t o => o.Tidy t) t → t.RemovesExactly b) ∧
      (Reached (fun t o => ∀ c ∈ t.blocks, o = .remove c.id → t.StandsApart c) t →
        t.StandsApart b → t.RemovesExactly b) := by
  refine ⟨?_, ?_⟩
  · intro h
    obtain ⟨horder, hspaced⟩ := h.spaced
    exact horder.removesExactly hb (hspaced.standsApart b)
  · intro h hapart
    have horder : t.InOrder := h.inOrder fun horder hallowed hrun _ =>
      (horder.keeps_remove (fun c hc hid => hallowed c hc (by rw [hid])) hrun).inOrder
    exact horder.removesExactly hb hapart

theorem oneTwo_removes_exactly :
    (Reached (fun t o => o.Tidy t) oneTwo ∧ ∀ b ∈ oneTwo.blocks, oneTwo.RemovesExactly b) ∧
      Reached (fun t o => ∀ c ∈ t.blocks, o = .remove c.id → t.StandsApart c) oneTwo ∧
      ∃ b ∈ oneTwo.blocks, oneTwo.StandsApart b ∧ oneTwo.RemovesExactly b := by
  have htidy : Reached (fun t o => o.Tidy t) oneTwo := reached_oneTwo fun _ _ _ h => h
  have hcareful : Reached (fun t o => ∀ c ∈ t.blocks, o = .remove c.id → t.StandsApart c) oneTwo := by
    apply reached_oneTwo
    intro t o hremoval _ c _ ho
    subst ho
    cases hremoval
  refine ⟨⟨htidy, fun b hb => (Reached.removes_exactly hb).1 htidy⟩, hcareful, _, List.mem_cons_self, ?_⟩
  have hapart := htidy.spaced.2.standsApart { Block.opened 0 0 none none with stop := 3, isOpen := false }
  exact ⟨hapart, (Reached.removes_exactly List.mem_cons_self).2 hcareful hapart⟩

-- Two blocks created in an empty document touch each other, and the second one takes the text of the
-- first along.
def touching : Transcript where
  document := { text := ['x'] }
  blocks := [{ Block.opened 0 0 none none with stop := 1, isOpen := false }, Block.opened 1 1 none none]
  nextId := 2

theorem reached_touching : Reached (fun _ _ => True) touching := by
  have hnew : Reached (fun _ _ => True) {} := .new
  have hfirst := hnew.step (o := .create none none) trivial rfl (by decide)
  have hclosed := hfirst.step (o := .closeLast) trivial rfl (by decide)
  have hsecond := hclosed.step (o := .create none none) trivial rfl (by decide)
  exact hsecond.step (o := .replaceOutput 0 ['x']) trivial rfl (by decide)

theorem removes_text_of_neighbour : ¬∀ (t : Transcript) (b : Block),
    Reached (fun _ _ => True) t → b ∈ t.blocks → t.RemovesExactly b := by
  intro hexact
  obtain ⟨t', hremove, hwithout⟩ := hexact touching (Block.opened 1 1 none none) reached_touching
    (List.mem_cons_of_mem _ List.mem_cons_self)
  have hrun : touching.remove 1 = .ok { touching with
      document := {}, blocks := [{ Block.opened 0 0 none none with stop := 1, isOpen := false }] } := rfl
  obtain rfl := Except.ok.inj (hremove.symm.trans hrun)
  obtain ⟨c, hc, hkept⟩ := hwithout.others _ List.mem_cons_self (by decide)
  obtain rfl := List.mem_singleton.mp hc
  obtain ⟨part, -, hpart⟩ := hkept.text
  cases hpart

end Transcript

end ShellTranscript
