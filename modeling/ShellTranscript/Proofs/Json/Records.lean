import Mathlib.Data.List.Forall2
import Mathlib.Data.List.Nodup
import Mathlib.Tactic.Common
import ShellTranscript.Proofs.Json.Reading
import ShellTranscript.Proofs.Json.Writing

-- Records with all their fields. Fields change different parts of a record, so they may come in any
-- order; what is written has them in one of these orders.
namespace ShellTranscript

open Text Spelling JsonReader

-- A field of a given record: its name, how its value may be written, and what reading it changes.
structure Entry (α : Type) where
  name : String
  value : Spelling
  change : α → α

namespace Entry

variable {α : Type} {start : α} {fields : List (JsonField α)} {entry : Entry α}
  {entries : List (Entry α)} {there there' : Text → Bool}

def Commute (entry entry' : Entry α) : Prop :=
  ∀ a, entry.change (entry'.change a) = entry'.change (entry.change a)

structure ReadBy (field : JsonField α) (entry : Entry α) : Prop where
  name : field.name = entry.name.toList
  change : Reads field.read entry.value entry.change

theorem ReadBy.of {β : Type} {name : String} {read : JsonReader β} {put : β → α → α}
    {need : FieldNeed} {value : Spelling} {b : β} (h : Reads read value b) :
    ReadBy (.of name read put need) ⟨name, value, put b⟩ := ⟨rfl, h.map put⟩

structure WrittenAs (entry : Entry α) (field : String × JsonValue) : Prop where
  name : entry.name = field.1
  value : entry.value field.2.write

theorem WrittenAs.of {name : String} {value : Spelling} {change : α → α} {v : JsonValue}
    (h : value v.write) : WrittenAs ⟨name, value, change⟩ (name, v) := ⟨rfl, h⟩

def known (entries : List (Entry α)) : List (String × Spelling) :=
  entries.map fun entry => (entry.name, entry.value)

theorem told_eq (hnodup : (entries.map Entry.name).Nodup) (hentry : entry ∈ entries) :
    told (known entries) entry.name.toList = entry.value := by
  induction entries with
  | nil => cases hentry
  | cons first entries ih =>
    rw [List.map_cons, List.nodup_cons] at hnodup
    rw [known, List.map_cons, told_cons]
    rcases List.mem_cons.mp hentry with rfl | hmem
    · exact if_pos rfl
    · have hne : first.name ≠ entry.name := fun heq => hnodup.1 (heq ▸ List.mem_map_of_mem hmem)
      rw [if_neg hne]
      exact ih hnodup.2 hmem

-- What the start becomes when the fields that are there are read.
def build (there : Text → Bool) (start : α) : List (Entry α) → α
  | [] => start
  | entry :: entries =>
    if there entry.name.toList then entry.change (build there start entries)
    else build there start entries

theorem build_congr (h : ∀ entry ∈ entries, there entry.name.toList = there' entry.name.toList) :
    build there start entries = build there' start entries := by
  induction entries with
  | nil => rfl
  | cons entry entries ih =>
    rw [List.forall_mem_cons] at h
    rw [build, build, h.1, ih h.2]

theorem build_none (start : α) (entries : List (Entry α)) :
    build (fun _ => false) start entries = start := by
  induction entries with
  | nil => rfl
  | cons entry entries ih => exact ih

-- One more field finds its place among those that have been read.
theorem change_build (hentry : entry ∈ entries) (hnodup : (entries.map Entry.name).Nodup)
    (hcommute : entries.Pairwise Commute) (hnew : there entry.name.toList = false) :
    entry.change (build there start entries) =
      build (fun name => name == entry.name.toList || there name) start entries := by
  induction entries with
  | nil => cases hentry
  | cons first entries ih =>
    rw [List.map_cons, List.nodup_cons] at hnodup
    rw [List.pairwise_cons] at hcommute
    rcases List.mem_cons.mp hentry with rfl | hmem
    · have hothers : build there start entries =
          build (fun name => name == entry.name.toList || there name) start entries := by
        refine build_congr fun other hother => ?_
        have hne : other.name ≠ entry.name := fun heq => hnodup.1 (heq ▸ List.mem_map_of_mem hother)
        rw [toList_beq, decide_eq_false hne, Bool.false_or]
      rw [build, build, hnew, beq_self_eq_true, Bool.true_or, if_pos rfl, if_neg Bool.false_ne_true,
        hothers]
    · have hne : first.name ≠ entry.name := fun heq => hnodup.1 (heq ▸ List.mem_map_of_mem hmem)
      have hswap : entry.change (first.change (build there start entries)) =
          first.change (entry.change (build there start entries)) := (hcommute.1 entry hmem _).symm
      rw [build, build, toList_beq, decide_eq_false hne, Bool.false_or, ← ih hmem hnodup.2 hcommute.2]
      split
      · exact hswap
      · rfl

end Entry

-- The fields of a given record have different names, and none undoes what another one does.
structure Entries (α : Type) where
  list : List (Entry α)
  nodup : (list.map Entry.name).Nodup := by simp
  commute : list.Pairwise Entry.Commute := by simp [Entry.Commute]

namespace Entries

variable {α : Type} {start a : α} {fields : List (JsonField α)} {entries : Entries α}

def spelling (entries : Entries α) : Spelling := .record (Entry.known entries.list)

theorem opens (entries : Entries α) : Opens entries.spelling := opens_record _

theorem builds (h : List.Forall₂ Entry.ReadBy fields entries.list) (start : α) :
    Builds fields (Entry.known entries.list) start fun there =>
      Entry.build there start entries.list where
  start := Entry.build_none start entries.list
  fields := by
    have hmem : List.Forall₂ (fun entry field => entry ∈ entries.list ∧ Entry.ReadBy field entry)
        entries.list fields := (List.forall₂_and_left _ _).mpr ⟨fun _ hentry => hentry, h.flip⟩
    refine List.forall₂_map_right_iff.mpr (hmem.imp ?_).flip
    rintro entry field ⟨hentry, hname, hchange⟩
    refine ⟨hname, entry.change, hchange, fun there hnew => ?_⟩
    rw [hname] at hnew ⊢
    exact Entry.change_build hentry entries.nodup entries.commute hnew
  congr := fun there there' hsame => Entry.build_congr fun entry hentry =>
    hsame _ (List.mem_map_of_mem hentry)

theorem exists_of_forall₂ {β γ : Type} {r : β → γ → Prop} {bs : List β} {cs : List γ}
    (h : List.Forall₂ r bs cs) {c : γ} (hc : c ∈ cs) : ∃ b ∈ bs, r b c := by
  induction h with
  | nil => cases hc
  | @cons b first bs cs hfirst hmore ih =>
    rcases List.mem_cons.mp hc with rfl | hmem
    · exact ⟨b, List.mem_cons_self, hfirst⟩
    · obtain ⟨b', hb', hr⟩ := ih hmem
      exact ⟨b', List.mem_cons_of_mem b hb', hr⟩

-- All spellings of a record with all its fields are read as this record.
theorem reads (h : List.Forall₂ Entry.ReadBy fields entries.list)
    (hall : Entry.build (fun _ => true) start entries.list = a) :
    Reads (record start fields) entries.spelling a := by
  rintro w v rest hw ⟨names, honce, hthere, hv⟩ hrest
  have hnames : ∀ entry ∈ entries.list, entry.name.toList ∈ names := fun entry hentry =>
    hthere _ (List.mem_map_of_mem hentry)
  have hneed : ∀ f ∈ fields, f.need.optionalInObject = true ∨ f.name ∈ names := by
    intro f hf
    obtain ⟨entry, hentry, hread⟩ := exists_of_forall₂ h.flip hf
    exact .inr (hread.name ▸ hnames entry hentry)
  have hbuilt : Entry.build names.contains start entries.list = a := by
    rw [← hall]
    exact Entry.build_congr fun entry hentry => List.contains_iff_mem.mpr (hnames entry hentry)
  have hread := reads_record (builds h start) honce hneed w v rest hw hv hrest
  rwa [hbuilt] at hread

-- The fields that are written are all there, each of them once.
theorem spelling_write {values : List (String × JsonValue)}
    (h : List.Forall₂ Entry.WrittenAs entries.list values) :
    entries.spelling (JsonValue.record values).write := by
  have hwritten : ∀ field ∈ values, told (Entry.known entries.list) field.1.toList field.2.write := by
    intro field hfield
    obtain ⟨entry, hentry, hname, hvalue⟩ := exists_of_forall₂ h hfield
    rw [← hname, Entry.told_eq entries.nodup hentry]
    exact hvalue
  have hnames : entries.list.map Entry.name = values.map Prod.fst := by
    rw [← List.forall₂_eq_eq_eq, List.forall₂_map_left_iff, List.forall₂_map_right_iff]
    exact h.imp fun _ _ hwritten => hwritten.name
  have hnodup : (values.map fun field => field.1.toList).Nodup := by
    have hmap : ((entries.list.map Entry.name).map String.toList).Nodup :=
      List.Nodup.map (fun _ _ hsame => String.toList_inj.mp hsame) entries.nodup
    rwa [hnames, List.map_map] at hmap
  refine ⟨_, once_of_nodup hnodup _, ?_, JsonValue.record_write hwritten⟩
  intro named hnamed
  obtain ⟨entry, hentry, rfl⟩ := List.mem_map.mp hnamed
  obtain ⟨field, hfield, hwritten⟩ := exists_of_forall₂ h.flip hentry
  exact List.mem_map.mpr ⟨field, hfield, congrArg String.toList hwritten.name.symm⟩

end Entries

end ShellTranscript
