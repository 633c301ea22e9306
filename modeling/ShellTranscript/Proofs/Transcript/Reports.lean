import Mathlib.Tactic.Common
import ShellTranscript.Proofs.Transcript.Runs

-- What listeners of a document are told. Every operation on a transcript changes the text by edits
-- that it reports to all who are registered, so that a copy of the text follows when they are made in
-- it, and is what it was when they are taken back.
namespace ShellTranscript

open Text

namespace Edit

-- A copy of the text with an edit made in it. What is removed has to stand at the offset.
def appliedTo? (e : Edit) (copy : Text) : Option Text := do
  let (before, rest) ← splitAt? copy e.offset
  let after ← dropBeginning? e.removed rest
  some (before ++ e.inserted ++ after)

-- The edit that takes another one back.
def inverse (e : Edit) : Edit := ⟨e.offset, e.inserted, e.removed⟩

-- A copy with edits made in it one after the other.
def replay? (copy : Text) (edits : List Edit) : Option Text :=
  edits.foldlM (fun copy e => e.appliedTo? copy) copy

-- A copy with edits taken back, the newest first.
def undo? (copy : Text) (edits : List Edit) : Option Text :=
  replay? copy (edits.reverse.map inverse)

theorem appliedTo?_eq_some_iff {e : Edit} {copy copy' : Text} : e.appliedTo? copy = some copy' ↔
    ∃ before after, byteLength before = e.offset ∧ copy = before ++ e.removed ++ after ∧
      copy' = before ++ e.inserted ++ after := by
  constructor
  · intro h
    simp only [appliedTo?, Option.bind_eq_bind, Option.bind_eq_some_iff, Option.some.injEq] at h
    obtain ⟨⟨before, rest⟩, hsplit, after, hrest, rfl⟩ := h
    obtain ⟨rfl, hoffset⟩ := eq_append_of_splitAt? hsplit
    obtain rfl := dropBeginning?_eq_some_iff.mp hrest
    exact ⟨before, after, hoffset, (List.append_assoc ..).symm, rfl⟩
  · rintro ⟨before, after, hoffset, rfl, rfl⟩
    have hsplit := splitAt?_append before (e.removed ++ after)
    have hrest : dropBeginning? e.removed (e.removed ++ after) = some after :=
      dropBeginning?_eq_some_iff.mpr rfl
    simp [appliedTo?, List.append_assoc, ← hoffset, hsplit, hrest]

theorem appliedTo?_inverse {e : Edit} {copy copy' : Text} (h : e.appliedTo? copy = some copy') :
    e.inverse.appliedTo? copy' = some copy := by
  obtain ⟨before, after, hoffset, hcopy, hcopy'⟩ := appliedTo?_eq_some_iff.mp h
  exact appliedTo?_eq_some_iff.mpr ⟨before, after, hoffset, hcopy', hcopy⟩

theorem replay?_append (copy : Text) (edits more : List Edit) :
    replay? copy (edits ++ more) = (replay? copy edits).bind (replay? · more) :=
  List.foldlM_append

theorem undo?_of_replay? {copy copy' : Text} {edits : List Edit}
    (h : replay? copy edits = some copy') : undo? copy' edits = some copy := by
  induction edits generalizing copy with
  | nil =>
    obtain rfl := Option.some.inj h
    rfl
  | cons e edits ih =>
    simp only [replay?, List.foldlM_cons, Option.bind_eq_bind, Option.bind_eq_some_iff] at h
    obtain ⟨middle, happly, hrest⟩ := h
    rw [undo?, List.reverse_cons, List.map_append, replay?_append,
      show replay? copy' (edits.reverse.map inverse) = some middle from ih hrest]
    simp [replay?, appliedTo?_inverse happly]

end Edit

namespace Document

-- What one listener heard among what was told.
def heardBy (name : Text) (notices : List (Text × Edit)) : List Edit :=
  notices.filterMap fun notice => if notice.1 = name then some notice.2 else none

-- What everyone is told of edits.
def noticesOf (names : List Text) (edits : List Edit) : List (Text × Edit) :=
  edits.flatMap fun e => names.map fun name => (name, e)

-- The text changed by edits, each of which was told to everyone.
structure Tells (d : Document) (edits : List Edit) (d' : Document) : Prop where
  listeners : d'.listeners = d.listeners
  notices : d'.notices = d.notices ++ noticesOf d.listeners.members edits
  text : Edit.replay? d.text edits = some d'.text

def Reports (d d' : Document) : Prop := ∃ edits, d.Tells edits d'

variable {d d' d'' : Document}

theorem Reports.refl (d : Document) : d.Reports d := ⟨[], rfl, by simp [noticesOf], rfl⟩

theorem Reports.trans (h : d.Reports d') (h' : d'.Reports d'') : d.Reports d'' := by
  obtain ⟨edits, hlisteners, hnotices, htext⟩ := h
  obtain ⟨more, hlisteners', hnotices', htext'⟩ := h'
  refine ⟨edits ++ more, hlisteners'.trans hlisteners, ?_, ?_⟩
  · rw [hnotices', hnotices, hlisteners, noticesOf, noticesOf, noticesOf, List.flatMap_append,
      List.append_assoc]
  · rw [Edit.replay?_append, htext]
    exact htext'

theorem reports_tell {e : Edit} {text : Text} (h : e.appliedTo? d.text = some text) :
    d.Reports ({ d with text }.tell e) :=
  ⟨[e], rfl, by simp [tell, noticesOf], by rw [Edit.replay?, List.foldlM_cons, h]; rfl⟩

theorem reports_replace? {start stop : Nat} {inserted : Text}
    (h : d.replace? start stop inserted = some d') : d.Reports d' := by
  unfold replace? at h
  split at h
  · obtain rfl := Option.some.inj h
    exact .refl d
  · obtain ⟨⟨removed, text⟩, hsplice, rfl⟩ := Option.map_eq_some_iff.mp h
    simp only [splice?, Option.bind_eq_bind, Option.bind_eq_some_iff, Option.some.injEq,
      Prod.mk.injEq] at hsplice
    obtain ⟨⟨front, back⟩, hstop, ⟨before, middle⟩, hstart, rfl, rfl⟩ := hsplice
    obtain ⟨htext, -⟩ := eq_append_of_splitAt? hstop
    obtain ⟨rfl, hoffset⟩ := eq_append_of_splitAt? hstart
    exact reports_tell (Edit.appliedTo?_eq_some_iff.mpr ⟨before, back, hoffset, htext, rfl⟩)

theorem reports_append (d : Document) (inserted : Text) : d.Reports (d.append inserted) := by
  unfold append
  split
  · exact .refl d
  · exact reports_tell (Edit.appliedTo?_eq_some_iff.mpr ⟨d.text, [], rfl, by simp, by simp⟩)

theorem reports_clear (d : Document) : d.Reports d.clear := by
  unfold clear
  split
  · exact .refl d
  · exact reports_tell (Edit.appliedTo?_eq_some_iff.mpr ⟨[], [], rfl, by simp, rfl⟩)

-- What one listener who began with the text of a document has heard since. Nobody else goes by its name.
structure Mirrors (d : Document) (name : Text) (id : Nat) (d' : Document) : Prop where
  registered : d'.listeners.entries.filter (fun entry => entry.2 = name) = [(id, name)]
  heard : ∃ news, d'.notices = d.notices ++ news ∧
    Edit.replay? d.text (heardBy name news) = some d'.text

theorem heardBy_map (name : Text) (names : List Text) (e : Edit) :
    heardBy name (names.map fun other => (other, e)) =
      (names.filter fun other => other = name).map fun _ => e := by
  induction names with
  | nil => rfl
  | cons other names ih =>
    by_cases hname : other = name
    · rw [List.map_cons, heardBy, List.filterMap_cons_some (b := e) (by simp [hname]),
        List.filter_cons_of_pos (by simpa using hname), List.map_cons]
      exact congrArg _ ih
    · rw [List.map_cons, heardBy, List.filterMap_cons_none (by simp [hname]),
        List.filter_cons_of_neg (by simpa using hname)]
      exact ih

theorem heardBy_append (name : Text) (notices news : List (Text × Edit)) :
    heardBy name (notices ++ news) = heardBy name notices ++ heardBy name news :=
  List.filterMap_append

-- A listener with a name of its own hears every edit once.
theorem heardBy_noticesOf {name : Text} {names : List Text}
    (hname : names.filter (fun other => other = name) = [name]) (edits : List Edit) :
    heardBy name (noticesOf names edits) = edits := by
  induction edits with
  | nil => rfl
  | cons e edits ih =>
    rw [noticesOf, List.flatMap_cons, heardBy_append, heardBy_map, hname]
    exact congrArg _ ih

namespace Mirrors

variable {name : Text} {id : Nat}

theorem members (h : d.Mirrors name id d') :
    d'.listeners.members.filter (fun other => other = name) = [name] := by
  rw [Registry.members, List.filter_map]
  exact congrArg (List.map Prod.snd) h.registered

theorem listen (h : name ∉ d.listeners.members) :
    d.Mirrors name (d.addListener name).2 (d.addListener name).1 := by
  have hnone : d.listeners.entries.filter (fun entry => entry.2 = name) = [] := by
    rw [List.filter_eq_nil_iff]
    intro entry hentry hname
    exact h (List.mem_map.mpr ⟨entry, hentry, of_decide_eq_true hname⟩)
  refine ⟨?_, [], (List.append_nil _).symm, rfl⟩
  simp [addListener, Registry.add, hnone]

theorem reports (h : d.Mirrors name id d') (hreports : d'.Reports d'') : d.Mirrors name id d'' := by
  obtain ⟨edits, hlisteners, hnotices, htext⟩ := hreports
  obtain ⟨news, hnews, hcopy⟩ := h.heard
  refine ⟨hlisteners ▸ h.registered, news ++ noticesOf d'.listeners.members edits, ?_, ?_⟩
  · rw [hnotices, hnews, List.append_assoc]
  · rw [heardBy_append, heardBy_noticesOf h.members, Edit.replay?_append, hcopy]
    exact htext

-- Someone else comes.
theorem addListener (h : d.Mirrors name id d') {other : Text} (hother : other ≠ name) :
    d.Mirrors name id (d'.addListener other).1 := by
  refine ⟨?_, h.heard⟩
  have hregistered := h.registered
  simp [Document.addListener, Registry.add, hregistered, hother]

-- Someone else goes.
theorem removeListener (h : d.Mirrors name id d') {other : Nat} (hother : other ≠ id) :
    d.Mirrors name id (d'.removeListener other).1 := by
  refine ⟨?_, h.heard⟩
  have hregistered := h.registered
  simp only [Document.removeListener, Registry.remove]
  rw [List.filter_comm, hregistered]
  simp [hother.symm]

end Mirrors

end Document

namespace Transcript

def Reports (t t' : Transcript) : Prop := t.document.Reports t'.document

variable {t t' t'' : Transcript}

theorem Reports.refl (t : Transcript) : t.Reports t := Document.Reports.refl t.document

theorem Reports.trans (h : t.Reports t') (h' : t'.Reports t'') : t.Reports t'' :=
  Document.Reports.trans h h'

section Operations

variable (t : Transcript) (id : Nat)

theorem reports_orBadOffset (start stop : Nat) (inserted : Text) :
    WhenOk t.document.Reports (orBadOffset (t.document.replace? start stop inserted)) := by
  cases hreplace : t.document.replace? start stop inserted with
  | none => exact .error _
  | some document => exact .ok (Document.reports_replace? hreplace)

theorem reports_edit (index start stop : Nat) (inserted : Text) :
    WhenOk t.Reports (t.edit index start stop inserted) :=
  (reports_orBadOffset t start stop inserted).bind fun _ h => .ok h

theorem reports_modifyBlock (f : Block → Block) : WhenOk t.Reports (t.modifyBlock id f) :=
  (WhenOk.any _).bind fun _ _ => .ok (.refl t)

theorem reports_createBlock (command prompt : Option Text) :
    WhenOk (fun created => t.Reports created.2) (t.createBlock command prompt) := by
  unfold Transcript.createBlock
  split
  · exact .error _
  · refine .ok ?_
    show t.document.Reports (ite _ _ _)
    split
    · exact .refl t.document
    · exact Document.reports_append _ _

theorem reports_append (inserted : Text) (part : BlockPart) :
    WhenOk (fun added => t.Reports added.2) (t.append id inserted part) :=
  (WhenOk.any _).bind fun _ _ => (reports_edit t _ _ _ inserted).bind fun _ h => .ok h

theorem reports_replaceOutput (output : Text) : WhenOk t.Reports (t.replaceOutput id output) :=
  (WhenOk.any _).bind fun _ _ => reports_edit t _ _ _ output

theorem reports_truncate (stop : Nat) : WhenOk t.Reports (t.truncate id stop) := by
  refine (WhenOk.any _).bind fun ⟨index, b⟩ _ => ?_
  dsimp only
  split
  · exact .error _
  · exact (reports_edit t _ _ _ []).bind fun _ h => .ok h

theorem reports_remove : WhenOk t.Reports (t.remove id) :=
  (WhenOk.any _).bind fun _ _ => (reports_orBadOffset t _ _ []).bind fun _ h => .ok h

theorem reports_setFrameState (state : FrameState) : WhenOk t.Reports (t.setFrameState id state) :=
  (WhenOk.any _).bind fun _ _ => .ok (.refl t)

theorem reports_appendLineBreak : t.Reports t.appendLineBreak :=
  Document.reports_append t.document ['\n']

theorem reports_clear : t.Reports t.clear := Document.reports_clear t.document

theorem reports_run (o : Operation) : WhenOk t.Reports (o.run t) := by
  cases o with
  | create command prompt => exact .map (reports_createBlock t command prompt)
  | append id text part => exact .map (reports_append t id text part)
  | replaceOutput id text => exact reports_replaceOutput t id text
  | truncate id stop => exact reports_truncate t id stop
  | closeLast => exact .ok (.refl t)
  | lineBreak => exact .ok (reports_appendLineBreak t)
  | remove id => exact reports_remove t id
  | clear => exact .ok (reports_clear t)
  | finish | putSpans | putFrame => exact reports_modifyBlock t _ _
  | setFrameState id state => exact reports_setFrameState t id state

end Operations

theorem Runs.reports (h : t.Runs t') : t.Reports t' := by
  induction h with
  | here => exact .refl t
  | run o _ hrun ih => exact ih.trans (reports_run _ o _ hrun)

end Transcript

end ShellTranscript
