import Mathlib.Tactic.Common
import ShellTranscript.Proofs.Transcript.Cards
import ShellTranscript.Proofs.Transcript.Operations

-- Operations on a transcript, statement by statement. What is changed before a refusal stays changed
-- here, while an operation that returns a result or a refusal has no transcript to leave behind. Both
-- end alike, and a procedure that is refused for another reason than an offset has changed nothing.
namespace ShellTranscript

-- Statements that change something one after the other, until one of them is refused.
abbrev Procedure (σ α : Type) := EStateM Refusal σ α

namespace Procedure

variable {σ α β γ δ : Type}

-- A question that may be refused, and changes nothing.
def ask (x : Except Refusal α) : Procedure σ α := fun s =>
  match x with
  | .ok a => .ok a s
  | .error reason => .error reason s

-- A procedure ends like a function: with this value and this state, or refused for the same reason.
def Ends (x : Except Refusal γ) (value : γ → α) (state : γ → σ) (r : EStateM.Result Refusal σ α) :
    Prop :=
  match x with
  | .ok c => r = .ok (value c) (state c)
  | .error reason => ∃ s, r = .error reason s

-- Only an offset can be the reason why something was left half done.
def Spotless (p : Procedure σ α) (s : σ) : Prop :=
  ∀ reason s', p s = .error reason s' → reason = .badOffset ∨ s' = s

section Ends

variable {x : Except Refusal γ} {value : γ → α} {state : γ → σ} {p : Procedure σ α} {s : σ}

theorem bind_ok {q : α → Procedure σ β} {a : α} {s' : σ} (h : p s = .ok a s') :
    (p >>= q) s = q a s' := by
  show EStateM.bind p q s = _
  rw [EStateM.bind, h]

theorem bind_error {q : α → Procedure σ β} {reason : Refusal} {s' : σ} (h : p s = .error reason s') :
    (p >>= q) s = .error reason s' := by
  show EStateM.bind p q s = _
  rw [EStateM.bind, h]

theorem Ends.bind {f : γ → Except Refusal δ} {q : α → Procedure σ β} {value' : δ → β}
    {state' : δ → σ} (h : Ends x value state (p s))
    (hf : ∀ c, x = .ok c → Ends (f c) value' state' (q (value c) (state c))) :
    Ends (x >>= f) value' state' ((p >>= q) s) := by
  cases x with
  | ok c =>
    rw [bind_ok h]
    exact hf c rfl
  | error reason =>
    obtain ⟨s', h⟩ := h
    exact ⟨s', bind_error h⟩

theorem Ends.ite {c : Prop} [Decidable c] {y : Except Refusal γ} {q : Procedure σ α}
    (hthen : c → Ends x value state (p s)) (helse : ¬c → Ends y value state (q s)) :
    Ends (if c then x else y) value state ((if c then p else q) s) := by
  by_cases h : c
  · rw [if_pos h, if_pos h]
    exact hthen h
  · rw [if_neg h, if_neg h]
    exact helse h

theorem ends_ask (x : Except Refusal γ) (s : σ) : Ends x (fun c => c) (fun _ => s) (ask x s) := by
  cases x with
  | ok c => rfl
  | error reason => exact ⟨s, rfl⟩

theorem Ends.of_error {reason : Refusal} {s' : σ} (h : Ends x value state (p s))
    (hp : p s = .error reason s') : x = .error reason := by
  cases x with
  | ok c => cases h.symm.trans hp
  | error reason' =>
    obtain ⟨s'', h⟩ := h
    cases h.symm.trans hp
    rfl

-- When offsets are the one reason to refuse, there is nothing else to be looked at.
theorem Ends.spotless {P : γ → Prop} (h : Ends x value state (p s)) (hx : Yields P x) :
    p.Spotless s :=
  fun _ _ hp => .inl (hx.of_error (h.of_error hp))

end Ends

open Transcript

def locate (id : Nat) : Procedure Transcript (Nat × Block) := do ask ((← get).locate id)

def indexOf (id : Nat) : Procedure Transcript Nat := do ask ((← get).indexOf id)

def modifyAt (index : Nat) (f : Block → Block) : Procedure Transcript Unit :=
  modify fun t => t.modifyAt index f

def modifyBlock (id : Nat) (f : Block → Block) : Procedure Transcript Unit := do
  let index ← indexOf id
  modifyAt index f

-- The text is replaced, then the block's end is moved, then the blocks behind it.
def edit (index start stop : Nat) (inserted : Text) : Procedure Transcript Unit := do
  let t ← get
  let document ← ask (orBadOffset (t.document.replace? start stop inserted))
  let delta : Int := (Text.byteLength inserted : Int) - ((stop - start : Nat) : Int)
  set { t with document }
  modifyAt index (Block.moveStop delta)
  modify fun t => { t with blocks := shiftFrom (index + 1) delta t.blocks }

def createBlock (command prompt : Option Text) : Procedure Transcript Nat := do
  let t ← get
  match t.activeBlock? with
  | some b => throw (.blockStillOpen b.id)
  | none =>
    unless t.document.text.isEmpty || t.separatorPending do
      set { t with document := t.document.append ['\n'] }
    modify fun t => { t with separatorPending := false }
    let t ← get
    set { t with
      blocks := t.blocks ++ [Block.opened t.nextId t.document.length command prompt]
      nextId := t.nextId + 1 }
    pure t.nextId

def append (id : Nat) (inserted : Text) (part : BlockPart) : Procedure Transcript (Nat × Nat) := do
  let (index, b) ← locate id
  edit index b.stop b.stop inserted
  modifyAt index (Block.endPart part)
  pure (b.stop, b.stop + Text.byteLength inserted)

def replaceOutput (id : Nat) (output : Text) : Procedure Transcript Unit := do
  let (index, b) ← locate id
  edit index b.outputStart b.stop output

-- What is behind the end is cut off before the spans are looked through.
def truncate (id stop : Nat) : Procedure Transcript Unit := do
  let (index, b) ← locate id
  if b.stop < b.start then throw .badOffset
  else
    let stop := min (max stop b.start) b.stop
    edit index stop b.stop []
    modifyAt index Block.clampToStop
    modifyAt index fun b =>
      { b with spans := b.spans.map fun spans => spans.filter fun s => s.stop ≤ stop }

def remove (id : Nat) : Procedure Transcript Unit := do
  let (index, b) ← locate id
  let t ← get
  let (start, stop) :=
    if b.start > 0 then (b.start - 1, b.stop)
    else if index + 1 < t.blocks.length then (b.start, b.stop + 1)
    else (b.start, b.stop)
  let document ← ask (orBadOffset (t.document.delete? start stop))
  set { t with document }
  modify fun t => { t with blocks := t.blocks.eraseIdx index }
  modify fun t => { t with blocks := shiftFrom index (-((stop - start : Nat) : Int)) t.blocks }

def finish (id : Nat) (exitCode : Int) : Procedure Transcript Unit :=
  modifyBlock id (Block.finish exitCode)

def putSpans (id : Nat) (spans : List Span) : Procedure Transcript Unit :=
  modifyBlock id fun b => { b with spans := some spans }

def putFrame (id : Nat) (firstBlock : Bool) : Procedure Transcript Unit :=
  modifyBlock id fun b => { b with frame := some (b.frame.getD { firstBlock }) }

def setFrameState (id : Nat) (state : FrameState) : Procedure Transcript Unit := do
  let index ← indexOf id
  modifyAt index fun b => { b with frame := some { b.frame.getD { firstBlock := index == 0 } with state } }

def operate : Operation → Procedure Transcript Unit
  | .create command prompt => do let _ ← createBlock command prompt
  | .append id text part => do let _ ← append id text part
  | .replaceOutput id text => replaceOutput id text
  | .truncate id stop => truncate id stop
  | .finish id exitCode => finish id exitCode
  | .closeLast => modify Transcript.closeLast
  | .lineBreak => modify Transcript.appendLineBreak
  | .remove id => remove id
  | .clear => modify Transcript.clear
  | .putSpans id spans => putSpans id spans
  | .putFrame id firstBlock => putFrame id firstBlock
  | .setFrameState id state => setFrameState id state

section Operations

variable {t : Transcript} {id : Nat} {α : Type}

theorem get_bind {σ α : Type} (f : σ → Procedure σ α) (s : σ) : (get >>= f) s = f s s := rfl

theorem ends_locate (t : Transcript) (id : Nat) :
    Ends (t.locate id) (fun located => located) (fun _ => t) (locate id t) := ends_ask _ _

theorem ends_indexOf (t : Transcript) (id : Nat) :
    Ends (t.indexOf id) (fun index => index) (fun _ => t) (indexOf id t) := ends_ask _ _

theorem ends_edit (t : Transcript) (index start stop : Nat) (inserted : Text) :
    Ends (t.edit index start stop inserted) (fun _ => ()) (fun t' => t')
      (edit index start stop inserted t) := by
  unfold edit Transcript.edit
  rw [get_bind]
  exact (ends_ask _ t).bind fun document _ => rfl

theorem ends_modifyBlock (t : Transcript) (id : Nat) (f : Block → Block) :
    Ends (t.modifyBlock id f) (fun _ => ()) (fun t' => t') (modifyBlock id f t) :=
  (ends_indexOf t id).bind fun _ _ => rfl

theorem ends_createBlock (t : Transcript) (command prompt : Option Text) :
    Ends (t.createBlock command prompt) Prod.fst Prod.snd (createBlock command prompt t) := by
  unfold createBlock Transcript.createBlock
  rw [get_bind]
  cases t.activeBlock? with
  | some b => exact ⟨t, rfl⟩
  | none =>
    dsimp only
    cases t.document.text.isEmpty || t.separatorPending <;> rfl

theorem ends_append (t : Transcript) (id : Nat) (inserted : Text) (part : BlockPart) :
    Ends (t.append id inserted part) Prod.fst Prod.snd (append id inserted part t) := by
  refine (ends_locate t id).bind fun ⟨index, b⟩ _ => ?_
  exact (ends_edit t index b.stop b.stop inserted).bind fun t' _ => rfl

theorem ends_replaceOutput (t : Transcript) (id : Nat) (output : Text) :
    Ends (t.replaceOutput id output) (fun _ => ()) (fun t' => t') (replaceOutput id output t) :=
  (ends_locate t id).bind fun ⟨index, b⟩ _ => ends_edit t index b.outputStart b.stop output

theorem modifyAt_modifyAt (t : Transcript) (index : Nat) (f g : Block → Block) :
    (t.modifyAt index f).modifyAt index g = t.modifyAt index (g ∘ f) := by
  simp only [Transcript.modifyAt, List.modify_modify_eq]

theorem ends_truncate (t : Transcript) (id stop : Nat) :
    Ends (t.truncate id stop) (fun _ => ()) (fun t' => t') (truncate id stop t) := by
  refine (ends_locate t id).bind fun ⟨index, b⟩ _ => ?_
  refine .ite (fun _ => ⟨t, rfl⟩) fun _ => ?_
  refine (ends_edit t index _ b.stop []).bind fun t' _ => ?_
  exact congrArg (EStateM.Result.ok ()) (modifyAt_modifyAt t' index _ _)

theorem ends_remove (t : Transcript) (id : Nat) :
    Ends (t.remove id) (fun _ => ()) (fun t' => t') (remove id t) := by
  refine (ends_locate t id).bind fun ⟨index, b⟩ _ => ?_
  dsimp only
  rw [get_bind]
  exact (ends_ask _ t).bind fun document _ => rfl

theorem ends_setFrameState (t : Transcript) (id : Nat) (state : FrameState) :
    Ends (t.setFrameState id state) (fun _ => ()) (fun t' => t') (setFrameState id state t) :=
  (ends_indexOf t id).bind fun _ _ => rfl

theorem ends_operate (t : Transcript) (o : Operation) :
    Ends (o.run t) (fun _ => ()) (fun t' => t') (operate o t) := by
  cases o with
  | create command prompt => exact ((ends_createBlock t command prompt).bind fun _ _ => rfl)
  | append id text part => exact ((ends_append t id text part).bind fun _ _ => rfl)
  | replaceOutput id text => exact ends_replaceOutput t id text
  | truncate id stop => exact ends_truncate t id stop
  | remove id => exact ends_remove t id
  | setFrameState id state => exact ends_setFrameState t id state
  | finish | putSpans | putFrame => exact ends_modifyBlock t _ _
  | closeLast | lineBreak | clear => rfl

theorem indexOf_of_unlisted (h : ¬t.Lists id) : t.indexOf id = .error (.unknownBlock id) := by
  have hnone : t.blocks.findIdx? (fun b => b.id == id) = none := by
    rw [List.findIdx?_eq_none_iff]
    intro b hb
    rw [beq_eq_false_iff_ne]
    exact fun hid => h ⟨b, hb, hid⟩
  rw [Transcript.indexOf, hnone]

theorem indexOf_bind_of_unlisted (h : ¬t.Lists id) (q : Nat → Procedure Transcript α) :
    (indexOf id >>= q) t = .error (.unknownBlock id) t := by
  refine bind_error ?_
  show ask (t.indexOf id) t = _
  rw [indexOf_of_unlisted h]
  rfl

theorem locate_bind_of_unlisted (h : ¬t.Lists id) (q : Nat × Block → Procedure Transcript α) :
    (locate id >>= q) t = .error (.unknownBlock id) t := by
  refine bind_error ?_
  show ask (t.locate id) t = _
  rw [Transcript.locate, indexOf_of_unlisted h]
  rfl

-- The block is looked for before anything is changed.
theorem spotless_of_listed {p : Procedure Transcript α} (hlisted : t.Lists id → p.Spotless t)
    (hunlisted : ¬t.Lists id → p t = .error (.unknownBlock id) t) : p.Spotless t := by
  by_cases h : t.Lists id
  · exact hlisted h
  · intro reason t' hp
    cases (hunlisted h).symm.trans hp
    exact .inr rfl

theorem spotless_modifyBlock (t : Transcript) (id : Nat) (f : Block → Block) :
    (modifyBlock id f).Spotless t :=
  spotless_of_listed (fun h => (ends_modifyBlock t id f).spotless (h.yields_modifyBlock f))
    fun h => indexOf_bind_of_unlisted h _

theorem createBlock_of_active {b : Block} (h : t.activeBlock? = some b)
    (command prompt : Option Text) :
    createBlock command prompt t = .error (.blockStillOpen b.id) t := by
  unfold createBlock
  rw [get_bind, h]
  rfl

theorem createBlock_of_inactive (h : t.activeBlock? = none) (command prompt : Option Text) :
    ∃ id t', createBlock command prompt t = .ok id t' := by
  obtain ⟨t', hcreate, -⟩ := createBlock_eq h command prompt
  have hends := ends_createBlock t command prompt
  rw [hcreate] at hends
  exact ⟨_, _, hends⟩

theorem spotless_operate (o : Operation) (t : Transcript) : (operate o).Spotless t := by
  cases o with
  | create command prompt =>
    intro reason t' hp
    cases hactive : t.activeBlock? with
    | some b =>
      cases (bind_error (createBlock_of_active hactive command prompt)).symm.trans hp
      exact .inr rfl
    | none =>
      obtain ⟨id, t₁, hcreate⟩ := createBlock_of_inactive hactive command prompt
      cases (bind_ok hcreate).symm.trans hp
  | append id text part =>
    exact spotless_of_listed
      (fun h => (ends_operate t (.append id text part)).spotless
        ((h.yields_append text part).bind (Q := fun _ => True) fun _ _ => trivial))
      fun h => bind_error (locate_bind_of_unlisted h _)
  | replaceOutput id text =>
    exact spotless_of_listed
      (fun h => (ends_replaceOutput t id text).spotless (h.yields_replaceOutput text))
      fun h => locate_bind_of_unlisted h _
  | truncate id stop =>
    exact spotless_of_listed
      (fun h => (ends_truncate t id stop).spotless (h.yields_truncate stop))
      fun h => locate_bind_of_unlisted h _
  | remove id =>
    exact spotless_of_listed (fun h => (ends_remove t id).spotless h.yields_remove)
      fun h => locate_bind_of_unlisted h _
  | setFrameState id state =>
    exact spotless_of_listed
      (fun h => (ends_setFrameState t id state).spotless (h.yields_setFrameState state))
      fun h => indexOf_bind_of_unlisted h _
  | finish | putSpans | putFrame => exact spotless_modifyBlock t _ _
  | closeLast | lineBreak | clear => exact fun _ _ hp => by cases hp

def writeHeader (id : Nat) (command prompt : Option Text) : Procedure Transcript Unit := do
  match prompt, command with
  | some prompt, some command =>
    let _ ← append id prompt .prompt
    let _ ← append id (command ++ ['\n']) .command
  | some prompt, none =>
    let _ ← append id (prompt ++ ['\n']) .prompt
  | none, some command =>
    let _ ← append id (command ++ ['\n']) .command
  | none, none => pure ()

def frame (id : Nat) : Procedure Transcript Unit := do putFrame id ((← get).blocks.length == 1)

def start (command prompt : Option Text) : Procedure Transcript Nat := do
  let command := notEmpty command
  let prompt := notEmpty prompt
  let id ← createBlock command prompt
  writeHeader id command prompt
  let (_, b) ← locate id
  putSpans id b.fixedSpans
  if prompt.isSome || command.isSome then
    frame id
    pure id
  else
    pure id

def writeOutput (id : Nat) (output : Snapshot) : Procedure Transcript Unit := do
  replaceOutput id output.text
  let (_, b) ← locate id
  let spans ← ask (output.ranges.mapM (outputSpan b.outputStart))
  putSpans id (b.fixedSpans ++ spans)
  if b.frame.isNone && showsOutput output.text then frame id else pure ()

def trimLastLine (id : Nat) : Procedure Transcript Unit := do
  let (_, b) ← locate id
  let t ← get
  let lineStart ← ask (orBadOffset (t.document.lineStart? b.stop))
  let lineStart := max lineStart b.start
  let line ← ask (orBadOffset (t.document.slice? lineStart b.stop))
  if (Text.trim line).isEmpty then
    truncate id (if lineStart > b.start then lineStart - 1 else lineStart)
  else
    pure ()

def conclude (id : Nat) (exitCode : Int) : Procedure Transcript Unit := do
  finish id exitCode
  trimLastLine id
  let (_, b) ← locate id
  let t ← get
  let written ← ask (orBadOffset (t.document.slice? b.start b.stop))
  if (Text.trim written).isEmpty then remove id
  else if exitCode ≠ 0 then setFrameState id .error
  else pure ()

theorem ends_writeHeader (t : Transcript) (id : Nat) (command prompt : Option Text) :
    Ends (t.writeHeader id command prompt) (fun _ => ()) (fun t' => t')
      (writeHeader id command prompt t) := by
  unfold writeHeader Transcript.writeHeader
  cases prompt <;> cases command
  · rfl
  · exact (ends_append t id _ .command).bind fun _ _ => rfl
  · exact (ends_append t id _ .prompt).bind fun _ _ => rfl
  · refine (ends_append t id _ .prompt).bind fun ⟨_, t'⟩ _ => ?_
    exact (ends_append t' id _ .command).bind fun _ _ => rfl

theorem ends_frame (t : Transcript) (id : Nat) :
    Ends (t.frame id) (fun _ => ()) (fun t' => t') (frame id t) := ends_modifyBlock t id _

theorem ends_start (t : Transcript) (command prompt : Option Text) :
    Ends (t.start command prompt) Prod.fst Prod.snd (start command prompt t) := by
  refine (ends_createBlock t _ _).bind fun ⟨id, t₁⟩ _ => ?_
  refine (ends_writeHeader t₁ id _ _).bind fun t₂ _ => ?_
  refine (ends_locate t₂ id).bind fun ⟨_, b⟩ _ => ?_
  refine (ends_modifyBlock t₂ id _).bind fun t₃ _ => ?_
  exact .ite (fun _ => (ends_frame t₃ id).bind fun _ _ => rfl) fun _ => rfl

theorem ends_writeOutput (t : Transcript) (id : Nat) (output : Snapshot) :
    Ends (t.writeOutput id output) (fun _ => ()) (fun t' => t') (writeOutput id output t) := by
  refine (ends_replaceOutput t id _).bind fun t₁ _ => ?_
  refine (ends_locate t₁ id).bind fun ⟨_, b⟩ _ => ?_
  refine (ends_ask _ t₁).bind fun spans _ => ?_
  refine (ends_modifyBlock t₁ id _).bind fun t₂ _ => ?_
  exact .ite (fun _ => ends_frame t₂ id) fun _ => rfl

theorem ends_trimLastLine (t : Transcript) (id : Nat) :
    Ends (t.trimLastLine id) (fun _ => ()) (fun t' => t') (trimLastLine id t) := by
  refine (ends_locate t id).bind fun ⟨_, b⟩ _ => ?_
  refine (ends_ask _ t).bind fun lineStart _ => ?_
  refine (ends_ask _ t).bind fun line _ => ?_
  exact .ite (fun _ => ends_truncate t id _) fun _ => rfl

theorem ends_conclude (t : Transcript) (id : Nat) (exitCode : Int) :
    Ends (t.conclude id exitCode) (fun _ => ()) (fun t' => t') (conclude id exitCode t) := by
  refine (ends_modifyBlock t id _).bind fun t₁ _ => ?_
  refine (ends_trimLastLine t₁ id).bind fun t₂ _ => ?_
  refine (ends_locate t₂ id).bind fun ⟨_, b⟩ _ => ?_
  refine (ends_ask _ t₂).bind fun written _ => ?_
  exact .ite (fun _ => ends_remove t₂ id) fun _ =>
    .ite (fun _ => ends_setFrameState t₂ id .error) fun _ => rfl

end Operations

end Procedure

end ShellTranscript
