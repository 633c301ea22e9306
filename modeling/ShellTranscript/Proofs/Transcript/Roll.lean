import Mathlib.Tactic.Common
import ShellTranscript.Proofs.Transcript.Cards

-- The roll of a transcript: which blocks there are, and which of them are open. Whatever the offsets
-- are, writing keeps the roll, a start puts an open block behind the others, and a conclusion closes
-- the last block or strikes it out. When the block is there, offsets are the one reason to refuse any
-- of this.
namespace ShellTranscript

open Text

namespace Transcript

def roll (t : Transcript) : List (Nat × Bool) := t.blocks.map fun b => (b.id, b.isOpen)

structure SameRoll (t t' : Transcript) : Prop where
  roll : t'.roll = t.roll
  nextId : t'.nextId = t.nextId

-- Identities ascend, and only the last block may be open.
structure Rolled (t : Transcript) : Prop where
  numbered : t.Numbered
  closed : AllClosed t.blocks.dropLast

variable {t t' t'' : Transcript} {id : Nat}

theorem roll_eq_cards (t : Transcript) : t.roll = t.cards.map fun c => (c.id, c.isOpen) := by
  rw [cards, List.map_map]
  rfl

theorem SameRoll.refl (t : Transcript) : t.SameRoll t := ⟨rfl, rfl⟩

theorem SameRoll.trans (h : t.SameRoll t') (h' : t'.SameRoll t'') : t.SameRoll t'' :=
  ⟨h'.roll.trans h.roll, h'.nextId.trans h.nextId⟩

theorem SameCards.sameRoll (h : t.SameCards t') : t.SameRoll t' := by
  refine ⟨?_, h.nextId⟩
  rw [roll_eq_cards, roll_eq_cards, h.cards]

theorem SameRoll.ids (h : t.SameRoll t') : t'.blocks.map Block.id = t.blocks.map Block.id := by
  have hids := congrArg (List.map Prod.fst) h.roll
  simpa only [Transcript.roll, List.map_map, Function.comp_def] using hids

theorem allClosed_iff (t : Transcript) :
    AllClosed t.blocks.dropLast ↔ ∀ entry ∈ t.roll.dropLast, entry.2 = false := by
  rw [roll, ← List.map_dropLast, List.forall_mem_map]
  rfl

theorem SameRoll.rolled (h : t.SameRoll t') (ht : t.Rolled) : t'.Rolled := by
  refine ⟨ht.numbered.of_ids h.ids h.nextId, ?_⟩
  rw [allClosed_iff, h.roll, ← allClosed_iff]
  exact ht.closed

theorem rolled_iff (t : Transcript) : t.Rolled ↔ (t.roll.map Prod.fst).Pairwise (· < ·) ∧
    (∀ entry ∈ t.roll, entry.1 < t.nextId) ∧ ∀ entry ∈ t.roll.dropLast, entry.2 = false := by
  have hids : t.roll.map Prod.fst = t.blocks.map Block.id := by
    rw [roll, List.map_map]
    rfl
  have hbelow : (∀ entry ∈ t.roll, entry.1 < t.nextId) ↔ ∀ b ∈ t.blocks, b.id < t.nextId := by
    rw [roll, List.forall_mem_map]
  rw [hids, hbelow, ← allClosed_iff]
  exact ⟨fun h => ⟨h.numbered.ascending, h.numbered.below, h.closed⟩,
    fun h => ⟨⟨h.1, h.2.1⟩, h.2.2⟩⟩

-- The open block can be read off the roll.
theorem activeId?_eq_roll (t : Transcript) : t.activeBlock?.map Block.id =
    (t.roll.getLast?.filter fun entry => entry.2).map Prod.fst := by
  rw [activeBlock?, lastBlock?, roll, List.getLast?_map]
  cases t.blocks.getLast? with
  | none => rfl
  | some b => by_cases hopen : b.isOpen <;> simp [Option.filter, hopen]

theorem SameRoll.activeId? (h : t.SameRoll t') :
    t'.activeBlock?.map Block.id = t.activeBlock?.map Block.id := by
  rw [activeId?_eq_roll, activeId?_eq_roll, h.roll]

theorem activeId?_concat {entries : List (Nat × Bool)} {isOpen : Bool}
    (h : t.roll = entries ++ [(id, isOpen)]) :
    t.activeBlock?.map Block.id = if isOpen then some id else none := by
  rw [activeId?_eq_roll, h, List.getLast?_concat]
  cases isOpen <;> rfl

theorem exists_roll_of_active (h : t.activeBlock?.map Block.id = some id) :
    ∃ entries, t.roll = entries ++ [(id, true)] := by
  rw [activeId?_eq_roll, Option.map_eq_some_iff] at h
  obtain ⟨⟨_, isOpen⟩, hlast, rfl⟩ := h
  obtain ⟨hlast, hopen⟩ := Option.filter_eq_some_iff.mp hlast
  obtain ⟨entries, hroll⟩ := List.getLast?_eq_some_iff.mp hlast
  exact ⟨entries, by rw [hroll, show isOpen = true from hopen]⟩

theorem sameRoll_modifyAt {f : Block → Block} (hf : ∀ b, ((f b).id, (f b).isOpen) = (b.id, b.isOpen))
    (t : Transcript) (index : Nat) : t.SameRoll (t.modifyAt index f) :=
  ⟨map_modify hf t.blocks index, rfl⟩

theorem sameRoll_frame (h : t.frame id = .ok t') : t.SameRoll t' := by
  unfold Transcript.frame putFrame modifyBlock at h
  cases hindex : t.indexOf id with
  | error reason =>
    rw [hindex] at h
    cases h
  | ok index =>
    rw [hindex] at h
    obtain rfl := Except.ok.inj h
    exact sameRoll_modifyAt (fun _ => by rfl) t index

theorem Lists.yields_writeOutput (h : t.Lists id) (output : Snapshot) :
    Yields t.SameRoll (t.writeOutput id output) := by
  refine (h.retouches_writeOutput output).mono fun t' ⟨written, hwritten, hframed⟩ => ?_
  rcases hframed with rfl | hframed
  · exact hwritten.sameRoll
  · exact hwritten.sameRoll.trans (sameRoll_frame hframed)

theorem yields_start (hactive : t.activeBlock? = none) (command prompt : Option Text) :
    Yields (fun result => result.1 = t.nextId ∧ result.2.roll = t.roll ++ [(t.nextId, true)] ∧
      result.2.nextId = t.nextId + 1) (t.start command prompt) := by
  refine (opens_start hactive command prompt).mono fun ⟨id, t'⟩ hopens => ?_
  obtain ⟨created, written, hcreate, hsame, hheader⟩ := hopens
  obtain ⟨t₁, hcreate₁, -, hblocks, -, hnext⟩ :=
    createBlock_eq hactive (notEmpty command) (notEmpty prompt)
  obtain ⟨rfl, rfl⟩ : id = t.nextId ∧ created = t₁ := by simpa using hcreate.symm.trans hcreate₁
  have hroll : created.roll = t.roll ++ [(t.nextId, true)] := by
    rw [roll, hblocks, List.map_append]
    rfl
  have hended : written.SameRoll t' := by
    split at hheader
    · exact sameRoll_frame hheader
    · exact hheader ▸ .refl written
  have hall := hsame.sameRoll.trans hended
  exact ⟨rfl, hall.roll.trans hroll, hall.nextId.trans hnext⟩

theorem exists_cards_of_roll {entries : List (Nat × Bool)} {isOpen : Bool}
    (h : t.roll = entries ++ [(id, isOpen)]) : ∃ front c, t.cards = front ++ [c] ∧
      front.map (fun c => (c.id, c.isOpen)) = entries ∧ c.id = id ∧ c.isOpen = isOpen := by
  rw [roll_eq_cards] at h
  obtain ⟨front, last, hcards, hfront, hlast⟩ := List.map_eq_append_iff.mp h
  obtain ⟨c, rfl, hc⟩ := List.map_eq_singleton_iff.mp hlast
  exact ⟨front, c, hcards, hfront, congrArg Prod.fst hc, congrArg Prod.snd hc⟩

theorem exists_cards_of_active (h : t.activeBlock?.map Block.id = some id) :
    ∃ front c, t.cards = front ++ [c] ∧ c.id = id ∧ c.isOpen = true := by
  obtain ⟨entries, hroll⟩ := exists_roll_of_active h
  obtain ⟨front, c, hcards, -, hc⟩ := exists_cards_of_roll hroll
  exact ⟨front, c, hcards, hc⟩

theorem lists_of_active (h : t.activeBlock?.map Block.id = some id) : t.Lists id := by
  obtain ⟨front, c, hcards, rfl, -⟩ := exists_cards_of_active h
  rw [lists_iff, ids_eq_cards, hcards]
  exact List.mem_map_of_mem List.mem_concat_self

-- A block that is concluded is closed or gone.
theorem Rolled.conclude (h : t.Rolled) {entries : List (Nat × Bool)} {isOpen : Bool}
    (hroll : t.roll = entries ++ [(id, isOpen)]) (exitCode : Int) :
    Yields (fun t' => t'.nextId = t.nextId ∧
      (t'.roll = entries ++ [(id, false)] ∨ t'.roll = entries)) (t.conclude id exitCode) := by
  obtain ⟨front, c, hcards, rfl, rfl, -⟩ := exists_cards_of_roll hroll
  have hlists : t.Lists c.id := by
    rw [lists_iff, ids_eq_cards, hcards]
    exact List.mem_map_of_mem List.mem_concat_self
  refine (hlists.concludes exitCode).mono fun t' hconcludes => ?_
  obtain ⟨hnext, hgone | hkept⟩ := hconcludes.last h.numbered hcards
  · exact ⟨hnext, .inr (by rw [roll_eq_cards, hgone])⟩
  · refine ⟨hnext, .inl ?_⟩
    rw [roll_eq_cards, hkept, List.map_append, Block.concluded]
    split <;> rfl

theorem Rolled.concat (h : t.Rolled) (hactive : t.activeBlock? = none)
    (hroll : t'.roll = t.roll ++ [(t.nextId, true)]) (hnext : t'.nextId = t.nextId + 1) :
    t'.Rolled := by
  obtain ⟨hids, hbelow, -⟩ := (rolled_iff t).mp h
  have hclosed := allClosed_of_dropLast h.closed hactive
  rw [rolled_iff, hroll, hnext, List.map_append, List.pairwise_append, List.dropLast_concat]
  refine ⟨⟨hids, List.pairwise_singleton _ _, ?_⟩, ?_, ?_⟩
  · intro m hm n hn
    obtain ⟨entry, hentry, rfl⟩ := List.mem_map.mp hm
    obtain rfl := List.mem_singleton.mp hn
    exact hbelow entry hentry
  · intro entry hentry
    rcases List.mem_append.mp hentry with hentry | hentry
    · exact Nat.lt_succ_of_lt (hbelow entry hentry)
    · obtain rfl := List.mem_singleton.mp hentry
      exact Nat.lt_succ_self _
  · exact List.forall_mem_map.mpr hclosed

-- Without its last entry, or with that entry closed, a roll is in order.
theorem Rolled.of_front (h : t.Rolled) {entries : List (Nat × Bool)} {isOpen : Bool}
    (hroll : t.roll = entries ++ [(id, isOpen)]) (hnext : t'.nextId = t.nextId)
    (hroll' : t'.roll = entries ++ [(id, false)] ∨ t'.roll = entries) :
    t'.Rolled ∧ t'.activeBlock?.map Block.id = none := by
  obtain ⟨hids, hbelow, hclosed⟩ := (rolled_iff t).mp h
  rw [hroll, List.map_append, List.pairwise_append] at hids
  rw [hroll] at hbelow
  rw [hroll, List.dropLast_concat] at hclosed
  rcases hroll' with hroll' | hroll'
  · refine ⟨(rolled_iff t').mpr ?_, activeId?_concat hroll'⟩
    rw [hroll', hnext, List.map_append, List.pairwise_append, List.dropLast_concat]
    refine ⟨hids, fun entry hentry => ?_, hclosed⟩
    rcases List.mem_append.mp hentry with hentry | hentry
    · exact hbelow entry (List.mem_append_left _ hentry)
    · obtain rfl := List.mem_singleton.mp hentry
      exact hbelow (id, isOpen) List.mem_concat_self
  · refine ⟨(rolled_iff t').mpr ?_, ?_⟩
    · rw [hroll', hnext]
      exact ⟨hids.1, fun entry hentry => hbelow entry (List.mem_append_left _ hentry),
        fun entry hentry => hclosed entry (List.dropLast_subset _ hentry)⟩
    · rw [activeId?_eq_roll, hroll', Option.map_eq_none_iff, Option.filter_eq_none_iff]
      intro entry hentry
      rw [hclosed entry (List.mem_of_getLast? hentry)]
      exact Bool.false_ne_true

theorem Rolled.closeLast (h : t.Rolled) :
    t.closeLast.Rolled ∧ t.closeLast.activeBlock?.map Block.id = none := by
  cases hactive : t.activeBlock? with
  | none =>
    rw [closeLast_of_closed (allClosed_of_dropLast h.closed hactive), hactive]
    exact ⟨h, rfl⟩
  | some b =>
    obtain ⟨entries, hroll⟩ := exists_roll_of_active (congrArg (Option.map Block.id) hactive)
    obtain ⟨front, c, hcards, rfl, hid, -⟩ := exists_cards_of_roll hroll
    refine h.of_front hroll rfl (.inl ?_)
    rw [roll_eq_cards, cards_closeLast hcards, List.map_append, ← hid]
    rfl

theorem rolled_clear (t : Transcript) :
    t.clear.Rolled ∧ t.clear.activeBlock?.map Block.id = none := by
  refine ⟨⟨t.clear_rests.numbered, ?_⟩, rfl⟩
  simp [clear, AllClosed]

end Transcript

end ShellTranscript
