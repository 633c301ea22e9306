import Mathlib.Data.Option.Basic
import Mathlib.Tactic.Common
import ShellTranscript.Proofs.Transcript.Layout

-- Blocks that stand one behind the other in a text, with nothing but line feeds around them. Unlike
-- in a document that only grows at its end, two blocks may also touch each other. What stands behind
-- a block can be moved, and keeps its texts and those of its spans.
namespace ShellTranscript

open Text

def OnlyFeeds (t : Text) : Prop := ∀ c ∈ t, c = '\n'

-- The text behind `before`, from the first of these blocks to its end.
inductive Arranged : Text → List Block → Text → Prop where
  | gap {before gap : Text} : OnlyFeeds gap → Arranged before [] gap
  | block {before gap prompt command output rest : Text} {b : Block} {blocks : List Block} :
      OnlyFeeds gap → b.Covers (before ++ gap) prompt command output →
      Arranged (before ++ gap ++ prompt ++ command ++ output) blocks rest →
      Arranged before (b :: blocks) (gap ++ prompt ++ command ++ output ++ rest)

theorem OnlyFeeds.append {gap gap' : Text} (h : OnlyFeeds gap) (h' : OnlyFeeds gap') :
    OnlyFeeds (gap ++ gap') := by
  intro c hc
  cases List.mem_append.mp hc with
  | inl hc => exact h c hc
  | inr hc => exact h' c hc

-- What a block is, wherever it stands.
def Block.unplaced (b : Block) : Block :=
  { b with start := 0, commandStart := 0, outputStart := 0, stop := 0, spans := none }

def Span.Inside (s : Span) (b : Block) : Prop :=
  b.start ≤ s.start ∧ s.start ≤ s.stop ∧ s.stop ≤ b.stop

-- A block of one text that is the same block in another one: all its offsets have moved alike, and the
-- texts of the block and of the spans inside it are those they were.
structure Block.KeptAs (b : Block) (whole : Text) (b' : Block) (whole' : Text) : Prop where
  same : b'.unplaced = b.unplaced
  moved : ∃ delta : Int, (b'.start : Int) = b.start + delta ∧
    (b'.commandStart : Int) = b.commandStart + delta ∧
    (b'.outputStart : Int) = b.outputStart + delta ∧ (b'.stop : Int) = b.stop + delta
  text : ∃ part, slice? whole b.start b.stop = some part ∧ slice? whole' b'.start b'.stop = some part
  spans : Option.Rel (List.Forall₂ fun s s' => s'.kind = s.kind ∧ (s.Inside b → s'.Inside b' ∧
    slice? whole' s'.start s'.stop = slice? whole s.start s.stop)) b.spans b'.spans

theorem Block.KeptAs.id_eq {b b' : Block} {whole whole' : Text} (h : b.KeptAs whole b' whole') :
    b'.id = b.id := by
  have hsame : b'.unplaced.id = b.unplaced.id := by rw [h.same]
  exact hsame

-- An offset behind a text that is replaced moves by the difference of the lengths.
theorem moveOffset_behind {before before' : Text} {n : Nat}
    (hfits : byteLength before' + n ≤ maxOffset) :
    moveOffset (byteLength before + n) ((byteLength before' : Int) - byteLength before) =
      byteLength before' + n := by
  simp only [moveOffset]
  omega

theorem Block.Covers.shift {b : Block} {before before' prompt command output : Text}
    (h : b.Covers before prompt command output)
    (hfits : byteLength (before' ++ prompt ++ command ++ output) ≤ maxOffset) :
    (b.shift ((byteLength before' : Int) - byteLength before)).Covers before' prompt command output := by
  obtain ⟨hstart, hcommand, houtput, hstop⟩ := h
  simp only [byteLength_append] at hcommand houtput hstop hfits
  refine ⟨?_, ?_, ?_, ?_⟩ <;>
    simp only [Block.shift, moveOffset, byteLength_append] <;> omega

-- The part of a text that a block covers.
theorem Block.Covers.slice? {b : Block} {before prompt command output : Text}
    (h : b.Covers before prompt command output) (rest : Text) :
    slice? (before ++ (prompt ++ command ++ output) ++ rest) b.start b.stop =
      some (prompt ++ command ++ output) := by
  have hslice := slice?_append before (prompt ++ command ++ output) rest
  rw [h.start, h.stop]
  simpa only [List.append_assoc] using hslice

namespace Arranged

variable {before before' t lead rest : Text} {blocks front back : List Block} {b : Block}

-- Line feeds in front of the first block are a gap.
theorem cons_gap {gap : Text} (hgap : OnlyFeeds gap) (h : Arranged (before ++ gap) blocks t) :
    Arranged before blocks (gap ++ t) := by
  cases h with
  | gap hmore => exact .gap (hgap.append hmore)
  | @block _ more _ _ _ _ _ _ hmore hcovers hrest =>
    rw [List.append_assoc before] at hcovers
    rw [List.append_assoc before] at hrest
    have hblock := Arranged.block (hgap.append hmore) hcovers hrest
    simpa only [List.append_assoc] using hblock

theorem append (h : Arranged before front lead) (h' : Arranged (before ++ lead) back rest) :
    Arranged before (front ++ back) (lead ++ rest) := by
  induction h with
  | gap hgap => exact h'.cons_gap hgap
  | @block _ gap prompt command output more _ _ hgap hcovers _ ih =>
    have hmore := ih (by simpa only [List.append_assoc] using h')
    have hblock := Arranged.block hgap hcovers hmore
    simpa only [List.cons_append, List.append_assoc] using hblock

theorem split (h : Arranged before (front ++ back) t) :
    ∃ lead rest, t = lead ++ rest ∧ Arranged before front lead ∧
      Arranged (before ++ lead) back rest := by
  induction front generalizing before t with
  | nil => exact ⟨[], t, rfl, .gap (by simp [OnlyFeeds]), by simpa using h⟩
  | cons c front ih =>
    rw [List.cons_append] at h
    cases h with
    | @block _ gap prompt command output more _ _ hgap hcovers hmore =>
      obtain ⟨lead, rest, rfl, hlead, hrest⟩ := ih hmore
      refine ⟨gap ++ prompt ++ command ++ output ++ lead, rest, ?_, .block hgap hcovers hlead, ?_⟩
      · simp only [List.append_assoc]
      · simpa only [List.append_assoc] using hrest

-- A block with what stands before it and behind it.
theorem split_at (h : Arranged before (front ++ b :: back) t) :
    ∃ lead prompt command output rest, t = lead ++ (prompt ++ command ++ output) ++ rest ∧
      Arranged before front lead ∧ b.Covers (before ++ lead) prompt command output ∧
      Arranged (before ++ lead ++ (prompt ++ command ++ output)) back rest := by
  obtain ⟨lead, rest, rfl, hlead, hrest⟩ := h.split
  cases hrest with
  | @block _ gap prompt command output more _ _ hgap hcovers hmore =>
    have hlead' : Arranged before front (lead ++ gap) := by
      have hjoined := hlead.append (.gap hgap)
      rwa [List.append_nil] at hjoined
    refine ⟨lead ++ gap, prompt, command, output, more, ?_, hlead', ?_, ?_⟩
    · simp only [List.append_assoc]
    · rwa [List.append_assoc] at hcovers
    · simpa only [List.append_assoc] using hmore

theorem append_block (h : Arranged before front lead) {prompt command output : Text}
    (hcovers : b.Covers (before ++ lead) prompt command output)
    (hrest : Arranged (before ++ lead ++ (prompt ++ command ++ output)) back rest) :
    Arranged before (front ++ b :: back) (lead ++ (prompt ++ command ++ output) ++ rest) := by
  have hcovers' : b.Covers (before ++ lead ++ []) prompt command output := by
    rwa [List.append_nil]
  have hrest' : Arranged (before ++ lead ++ [] ++ prompt ++ command ++ output) back rest := by
    simpa only [List.append_assoc, List.append_nil] using hrest
  have hblock := Arranged.block (by simp [OnlyFeeds]) hcovers' hrest'
  have hjoined := h.append hblock
  simpa only [List.append_assoc, List.nil_append] using hjoined

theorem ordered (h : Arranged before blocks t) : ∀ b ∈ blocks,
    byteLength before ≤ b.start ∧ b.start ≤ b.commandStart ∧ b.commandStart ≤ b.outputStart ∧
      b.outputStart ≤ b.stop ∧ b.stop ≤ byteLength (before ++ t) := by
  induction h with
  | gap => simp
  | block _ hcovers _ ih =>
    intro b hb
    have hinner := hcovers.ordered
    have hstart := hcovers.start
    have hstop := hcovers.stop
    simp only [byteLength_append] at hstart hstop ih ⊢
    cases List.mem_cons.mp hb with
    | inl hb =>
      subst hb
      omega
    | inr hb =>
      have hlater := ih b hb
      omega

theorem isCut (h : Arranged before blocks t) : ∀ b ∈ blocks,
    IsCut (before ++ t) b.start ∧ IsCut (before ++ t) b.commandStart ∧
      IsCut (before ++ t) b.outputStart ∧ IsCut (before ++ t) b.stop := by
  induction h with
  | gap => simp
  | @block _ _ _ _ _ rest _ _ _ hcovers _ ih =>
    intro b hb
    simp only [List.append_assoc] at ih ⊢
    cases List.mem_cons.mp hb with
    | inl hb =>
      subst hb
      obtain ⟨h1, h2, h3, h4⟩ := hcovers.isCut
      simp only [List.append_assoc] at h1 h2 h3 h4
      refine ⟨?_, ?_, ?_, ?_⟩
      · simpa only [List.append_assoc] using h1.append rest
      · simpa only [List.append_assoc] using h2.append rest
      · simpa only [List.append_assoc] using h3.append rest
      · simpa only [List.append_assoc] using h4.append rest
    | inr hb => exact ih b hb

theorem pairwise (h : Arranged before blocks t) : blocks.Pairwise fun a b => a.stop ≤ b.start := by
  induction h with
  | gap => simp
  | block _ hcovers hrest ih =>
    rw [List.pairwise_cons]
    refine ⟨?_, ih⟩
    intro b hb
    rw [hcovers.stop]
    exact (hrest.ordered b hb).1

-- Blocks behind a text that is replaced move by the difference of the lengths.
theorem shift (h : Arranged before blocks t) (hfits : byteLength (before' ++ t) ≤ maxOffset) :
    Arranged before' (blocks.map (Block.shift ((byteLength before' : Int) - byteLength before))) t := by
  induction h generalizing before' with
  | gap hgap => exact .gap hgap
  | @block before gap prompt command output rest b blocks hgap hcovers _ ih =>
    have hdelta : ∀ more : Text, (byteLength (before' ++ more) : Int) - byteLength (before ++ more) =
        (byteLength before' : Int) - byteLength before := by
      intro more
      rw [byteLength_append, byteLength_append]
      omega
    have hroom : byteLength (before' ++ gap ++ prompt ++ command ++ output) ≤ maxOffset := by
      simp only [byteLength_append] at hfits ⊢
      omega
    have hmoved := hcovers.shift hroom
    have hroom' : byteLength (before' ++ gap ++ prompt ++ command ++ output ++ rest) ≤ maxOffset := by
      simpa only [List.append_assoc] using hfits
    have hrest := ih hroom'
    rw [hdelta] at hmoved
    simp only [List.append_assoc, hdelta] at hrest
    rw [List.map_cons]
    exact .block hgap hmoved (by simpa only [List.append_assoc] using hrest)

-- What is in front of a text that is replaced stays.
theorem kept_front (h : Arranged [] blocks lead) (hb : b ∈ blocks) (rest rest' : Text) :
    b.KeptAs (lead ++ rest) b (lead ++ rest') := by
  obtain ⟨front, back, rfl⟩ := List.append_of_mem hb
  have hstop := (h.ordered b hb).2.2.2.2
  obtain ⟨lead', prompt, command, output, more, rfl, -, hcovers, -⟩ := h.split_at
  have hpart := hcovers.slice? more
  rw [List.nil_append] at hpart hstop
  refine ⟨rfl, ⟨0, by omega, by omega, by omega, by omega⟩,
    ⟨prompt ++ command ++ output, ?_, ?_⟩, ?_⟩
  · rw [slice?_append_of_le hstop, hpart]
  · rw [slice?_append_of_le hstop, hpart]
  · cases b.spans with
    | none => exact .none
    | some spans =>
      refine .some (List.forall₂_same.mpr ?_)
      intro s _
      refine ⟨rfl, fun hinside => ⟨hinside, ?_⟩⟩
      have hs : s.stop ≤ byteLength (lead' ++ (prompt ++ command ++ output) ++ more) :=
        hinside.2.2.trans hstop
      rw [slice?_append_of_le hs, slice?_append_of_le hs]

-- What is behind it moves exactly.
theorem moved (h : Arranged before blocks t) (hb : b ∈ blocks)
    (hfits : byteLength (before' ++ t) ≤ maxOffset) (n : Nat) (hn : byteLength before ≤ n)
    (hle : n ≤ b.stop) : ∃ m, n = byteLength before + m ∧
      moveOffset n ((byteLength before' : Int) - byteLength before) = byteLength before' + m := by
  obtain ⟨m, rfl⟩ := Nat.exists_eq_add_of_le hn
  refine ⟨m, rfl, moveOffset_behind ?_⟩
  have hstop := (h.ordered b hb).2.2.2.2
  simp only [byteLength_append] at hstop hfits
  omega

theorem moved_eq (h : Arranged before blocks t) (hb : b ∈ blocks)
    (hfits : byteLength (before' ++ t) ≤ maxOffset) {n : Nat} (hn : byteLength before ≤ n)
    (hle : n ≤ b.stop) : (moveOffset n ((byteLength before' : Int) - byteLength before) : Int) =
      n + ((byteLength before' : Int) - byteLength before) := by
  obtain ⟨m, rfl, hmoved⟩ := h.moved hb hfits n hn hle
  rw [hmoved]
  omega

-- A part of the text keeps what it covers.
theorem slice?_moved (h : Arranged before blocks t) (hb : b ∈ blocks)
    (hfits : byteLength (before' ++ t) ≤ maxOffset) {n m : Nat} (hn : byteLength before ≤ n)
    (hn' : n ≤ b.stop) (hm : byteLength before ≤ m) (hm' : m ≤ b.stop) :
    slice? (before' ++ t) (moveOffset n ((byteLength before' : Int) - byteLength before))
        (moveOffset m ((byteLength before' : Int) - byteLength before)) =
      slice? (before ++ t) n m := by
  obtain ⟨n', rfl, hmoved⟩ := h.moved hb hfits n hn hn'
  obtain ⟨m', rfl, hmoved'⟩ := h.moved hb hfits m hm hm'
  rw [hmoved, hmoved', slice?_append_add, slice?_append_add]

theorem moved_range (h : Arranged before blocks t) (hb : b ∈ blocks)
    (hfits : byteLength (before' ++ t) ≤ maxOffset) :
    ((b.shift ((byteLength before' : Int) - byteLength before)).start : Int) + byteLength before =
        b.start + byteLength before' ∧
      ((b.shift ((byteLength before' : Int) - byteLength before)).stop : Int) + byteLength before =
        b.stop + byteLength before' := by
  have hinside := h.ordered b hb
  have hstart := h.moved_eq hb hfits hinside.1 (by omega)
  have hstop := h.moved_eq hb hfits (by omega) (Nat.le_refl b.stop)
  simp only [Block.shift, hstart, hstop]
  omega

-- A span inside a block stays inside it, and covers what it covered.
theorem span_kept (h : Arranged before blocks t) (hb : b ∈ blocks)
    (hfits : byteLength (before' ++ t) ≤ maxOffset) {s : Span} (hinside : s.Inside b) :
    (s.shift ((byteLength before' : Int) - byteLength before)).Inside
        (b.shift ((byteLength before' : Int) - byteLength before)) ∧
      slice? (before' ++ t) (s.shift ((byteLength before' : Int) - byteLength before)).start
          (s.shift ((byteLength before' : Int) - byteLength before)).stop =
        slice? (before ++ t) s.start s.stop := by
  have hordered := h.ordered b hb
  obtain ⟨hs1, hs2, hs3⟩ := hinside
  have hrange := h.moved_range hb hfits
  have hstart := h.moved_eq hb hfits (hordered.1.trans hs1) (by omega)
  have hstop := h.moved_eq hb hfits (by omega) hs3
  refine ⟨⟨?_, ?_, ?_⟩, h.slice?_moved hb hfits (by omega) (by omega) (by omega) hs3⟩
  · simp only [Span.shift]
    omega
  · simp only [Span.shift]
    omega
  · simp only [Span.shift]
    omega

-- What is behind it keeps its text.
theorem kept_back (h : Arranged before blocks t) (hb : b ∈ blocks)
    (hfits : byteLength (before' ++ t) ≤ maxOffset) :
    b.KeptAs (before ++ t) (b.shift ((byteLength before' : Int) - byteLength before))
      (before' ++ t) := by
  obtain ⟨hstart, h1, h2, h3, -⟩ := h.ordered b hb
  refine ⟨rfl, ⟨(byteLength before' : Int) - byteLength before, ?_, ?_, ?_, ?_⟩, ?_, ?_⟩
  · exact h.moved_eq hb hfits hstart (by omega)
  · exact h.moved_eq hb hfits (by omega) (by omega)
  · exact h.moved_eq hb hfits (by omega) h3
  · exact h.moved_eq hb hfits (by omega) (Nat.le_refl _)
  · have hmoved := h.slice?_moved hb hfits hstart (by omega) (by omega) (Nat.le_refl _)
    obtain ⟨front, back, rfl⟩ := List.append_of_mem hb
    obtain ⟨lead, prompt, command, output, rest, rfl, -, hcovers, -⟩ := h.split_at
    have hpart := hcovers.slice? rest
    simp only [List.append_assoc] at hpart hmoved ⊢
    exact ⟨_, hpart, hmoved.trans hpart⟩
  · simp only [Block.shift]
    cases b.spans with
    | none => exact .none
    | some spans =>
      refine .some (List.forall₂_map_right_iff.mpr (List.forall₂_same.mpr ?_))
      intro s _
      exact ⟨rfl, fun hinside => h.span_kept hb hfits hinside⟩

theorem spaced_shift (h : Arranged before blocks t) (hfits : byteLength (before' ++ t) ≤ maxOffset)
    (hspaced : blocks.Pairwise fun a b => a.stop < b.start) :
    (blocks.map (Block.shift ((byteLength before' : Int) - byteLength before))).Pairwise
      fun a b => a.stop < b.start := by
  rw [List.pairwise_map]
  refine hspaced.imp_of_mem ?_
  intro a b ha hb hlt
  have hmoved := h.moved_range ha hfits
  have hmoved' := h.moved_range hb hfits
  omega

theorem above_shift (h : Arranged before blocks t) (hfits : byteLength (before' ++ t) ≤ maxOffset)
    (habove : ∀ c ∈ blocks, byteLength before < c.start) :
    ∀ c ∈ blocks.map (Block.shift ((byteLength before' : Int) - byteLength before)),
      byteLength before' < c.start := by
  intro c' hc'
  obtain ⟨c, hc, rfl⟩ := List.mem_map.mp hc'
  have hmoved := h.moved_range hc hfits
  have hlt := habove c hc
  omega

theorem below_shift (h : Arranged before blocks t) (hfits : byteLength (before' ++ t) ≤ maxOffset)
    (hbelow : ∀ c ∈ blocks, c.stop < byteLength (before ++ t)) :
    ∀ c ∈ blocks.map (Block.shift ((byteLength before' : Int) - byteLength before)),
      c.stop < byteLength (before' ++ t) := by
  intro c' hc'
  obtain ⟨c, hc, rfl⟩ := List.mem_map.mp hc'
  have hmoved := h.moved_range hc hfits
  have hlt := hbelow c hc
  rw [byteLength_append] at hlt ⊢
  omega

end Arranged

end ShellTranscript
