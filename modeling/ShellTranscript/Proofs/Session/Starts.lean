import ShellTranscript.Proofs.Session.Requests

-- Starts among everything else that is done to a session. One start at a time is on its way or has
-- succeeded; it alone attaches a connector, and the latch opens with no other.
namespace ShellTranscript

namespace StartPhase

-- A start that nobody else can overtake.
def IsBusy : StartPhase → Prop
  | checking | marking | returned (.error _) => False
  | spawning | attaching | listing _ | opening _ | returned (.ok _) => True

def Placed (phase : StartPhase) (connector : Nat) : Prop :=
  phase = listing connector ∨ phase = opening connector

def Attached (phase : StartPhase) (connector : Nat) : Prop :=
  phase.Placed connector ∨ phase = returned (.ok ())

theorem Attached.isBusy {phase : StartPhase} {connector : Nat} (h : phase.Attached connector) :
    phase.IsBusy := by
  obtain (rfl | rfl) | rfl := h <;> trivial

end StartPhase

-- A session with the starts and disposals under way, and the start that attached each connector.
structure Traffic where
  session : Session
  starts : List StartCall := []
  disposals : List DisposePhase := []
  owners : List Nat := []

namespace Traffic

-- What anyone may do next. The reader passes the terminal's replies on and closes the connector at the
-- end of the output, and whatever else works on the session leaves all this aside.
inductive Move where
  | callStart (faults : ConnectorFaults)
  | stepStart (k : Nat)
  | callDispose
  | stepDispose (k : Nat)
  | sendCommand (command : Text)
  | typeKeys (typed : Text)
  | resize (size : ScreenSize)
  | stepRequest (index : Nat)
  | reply (connector : Nat) (payload : Text)
  | hangUp (connector : Nat)
  | work (f : Session → Session) (aside : ∀ s : Session, s.Aside (f s))

-- What a start attaches is its own.
def stepStart (x : Traffic) (k : Nat) : Traffic :=
  match x.starts[k]? with
  | none => x
  | some call =>
    let (session, call) := x.session.stepStart call
    { x with
      session
      starts := x.starts.set k call
      owners :=
        if x.session.connectors.length < session.connectors.length then x.owners ++ [k] else x.owners }

def stepDispose (x : Traffic) (k : Nat) : Traffic :=
  match x.disposals[k]? with
  | none => x
  | some phase =>
    let (session, phase) := x.session.stepDispose phase
    { x with session, disposals := x.disposals.set k phase }

def reply (x : Traffic) (connector : Nat) (payload : Text) : Traffic :=
  { x with session := (x.session.callConnector connector fun c => c.write none payload).1 }

def make (x : Traffic) : Move → Traffic
  | .callStart faults => { x with starts := x.starts ++ [{ faults }] }
  | .stepStart k => x.stepStart k
  | .callDispose => { x with disposals := x.disposals ++ [.marking] }
  | .stepDispose k => x.stepDispose k
  | .sendCommand command => { x with session := x.session.sendCommand command }
  | .typeKeys typed => { x with session := x.session.typeKeys typed }
  | .resize size => { x with session := x.session.resize size }
  | .stepRequest index => { x with session := x.session.stepRequest index }
  | .reply connector payload => x.reply connector payload
  | .hangUp connector => { x with session := x.session.modifyConnector connector Connector.close }
  | .work f _ => { x with session := f x.session }

-- A connector that a start has returned with.
def Started (x : Traffic) (connector : Nat) : Prop := ∃ k, ∃ call : StartCall,
  x.owners[connector]? = some k ∧ x.starts[k]? = some call ∧ call.phase = .returned (.ok ()) ∧
    x.session.faults[connector]? = some call.faults

def Holds (x : Traffic) (k : Nat) : Prop :=
  ∃ call : StartCall, x.starts[k]? = some call ∧ call.phase.IsBusy

-- One start at a time is on its way or has succeeded, and it alone attaches a connector, which the
-- latch opens with when it has returned.
structure Starting (x : Traffic) : Prop where
  unique : ∀ k k', x.Holds k → x.Holds k' → k = k'
  started : ∀ k, x.Holds k → x.session.isStarted = true
  owners : x.owners.length = x.session.faults.length
  single : x.owners.length ≤ 1
  owner : ∀ connector k, x.owners[connector]? = some k → ∃ call : StartCall,
    x.starts[k]? = some call ∧ call.phase.Attached connector ∧
      x.session.faults[connector]? = some call.faults
  placed : ∀ k (call : StartCall) connector, x.starts[k]? = some call →
    call.phase.Placed connector → x.owners[connector]? = some k
  ready : ∀ connector, x.session.latch = .ready connector → x.Started connector

-- What was attached stays, and so does what a start returned with.
structure Grows (x x' : Traffic) : Prop where
  owners : x.owners <+: x'.owners
  faults : x.session.faults <+: x'.session.faults
  returned : ∀ (k : Nat) (call : StartCall) result, x.starts[k]? = some call →
    call.phase = .returned result → x'.starts[k]? = some call

section Starts

variable {x x' x'' : Traffic} {k : Nat} {call after : StartCall} {session : Session}

theorem Grows.refl (x : Traffic) : x.Grows x :=
  ⟨List.prefix_refl _, List.prefix_refl _, fun _ _ _ h _ => h⟩

theorem Grows.started (h : x.Grows x') {connector : Nat} (hstarted : x.Started connector) :
    x'.Started connector := by
  obtain ⟨k, call, howner, hcall, hreturned, hfaults⟩ := hstarted
  exact ⟨k, call, getElem?_of_prefix h.owners howner, h.returned k call _ hcall hreturned, hreturned,
    getElem?_of_prefix h.faults hfaults⟩

theorem getElem?_set_of_some (hcall : x.starts[k]? = some call) (j : Nat) :
    (x.starts.set k after)[j]? = if j = k then some after else x.starts[j]? := by
  obtain ⟨hk, -⟩ := List.getElem?_eq_some_iff.mp hcall
  by_cases hj : j = k
  · subst hj
    simp [hk]
  · simp [hj, Ne.symm hj]

theorem Grows.advance (session : Session) (after : StartCall) (hcall : x.starts[k]? = some call)
    (hreturned : ∀ result, call.phase = .returned result → after = call)
    {owners : List Nat} (howners : x.owners <+: owners) (hfaults : x.session.faults <+: session.faults) :
    x.Grows { x with session, starts := x.starts.set k after, owners } := by
  refine ⟨howners, hfaults, fun j other result hother hdone => ?_⟩
  simp only [getElem?_set_of_some hcall]
  split
  · rename_i hj
    subst hj
    obtain rfl := Option.some.inj (hcall.symm.trans hother)
    rw [hreturned result hdone]
  · exact hother

-- A start goes on. It is overtaken by nobody, and no connector comes or goes.
theorem Starting.advance (h : x.Starting) (hcall : x.starts[k]? = some call)
    (hfaults : after.faults = call.faults) (hsame : session.faults = x.session.faults)
    (hunique : after.phase.IsBusy → ∀ j, x.Holds j → j = k)
    (hstarted : ∀ j, x.Holds j ∧ j ≠ k ∨ after.phase.IsBusy → session.isStarted = true)
    (hattached : ∀ connector, call.phase.Attached connector → after.phase.Attached connector)
    (hplaced : ∀ connector, after.phase.Placed connector → call.phase.Placed connector)
    (hready : ∀ connector, session.latch = .ready connector →
      Started { x with session, starts := x.starts.set k after } connector) :
    Starting { x with session, starts := x.starts.set k after } := by
  have hholds : ∀ j, Holds { x with session, starts := x.starts.set k after } j →
      x.Holds j ∧ j ≠ k ∨ j = k ∧ after.phase.IsBusy := by
    rintro j ⟨other, hother, hbusy⟩
    simp only [getElem?_set_of_some hcall] at hother
    split at hother
    · obtain rfl := Option.some.inj hother
      exact .inr ⟨‹_›, hbusy⟩
    · exact .inl ⟨⟨other, hother, hbusy⟩, ‹_›⟩
  refine ⟨fun j j' hj hj' => ?_, fun j hj => ?_, ?_, h.single, fun connector j howner => ?_,
    fun j other connector hother hother' => ?_, hready⟩
  · rcases hholds j hj with ⟨hfirst, -⟩ | ⟨heq, hbusy⟩
    · rcases hholds j' hj' with ⟨hsecond, -⟩ | ⟨rfl, hbusy⟩
      · exact h.unique j j' hfirst hsecond
      · exact hunique hbusy j hfirst
    · rcases hholds j' hj' with ⟨hsecond, -⟩ | ⟨heq', -⟩
      · exact heq.trans (hunique hbusy j' hsecond).symm
      · exact heq.trans heq'.symm
  · rcases hholds j hj with hother | ⟨-, hbusy⟩
    · exact hstarted j (.inl hother)
    · exact hstarted j (.inr hbusy)
  · rw [hsame]
    exact h.owners
  · obtain ⟨other, hother, hplace, hwire⟩ := h.owner connector j howner
    rw [← hsame] at hwire
    simp only [getElem?_set_of_some hcall]
    split
    · rename_i hj
      subst hj
      obtain rfl := Option.some.inj (hcall.symm.trans hother)
      exact ⟨after, rfl, hattached connector hplace, hfaults ▸ hwire⟩
    · exact ⟨other, hother, hplace, hwire⟩
  · simp only [getElem?_set_of_some hcall] at hother
    split at hother
    · rename_i hj
      subst hj
      obtain rfl := Option.some.inj hother
      exact h.placed j call connector hcall (hplaced connector hother')
    · exact h.placed j other connector hother hother'

-- A start goes on without a change of what starts go by.
theorem Starting.quiet (h : x.Starting) (hcall : x.starts[k]? = some call)
    (hfaults : after.faults = call.faults) (hsame : session.faults = x.session.faults)
    (hisStarted : session.isStarted = x.session.isStarted)
    (hlatch : session.latch = x.session.latch) (hbusy : after.phase.IsBusy → call.phase.IsBusy)
    (hattached : ∀ connector, call.phase.Attached connector → after.phase.Attached connector)
    (hplaced : ∀ connector, after.phase.Placed connector → call.phase.Placed connector)
    (hreturned : ∀ result, call.phase = .returned result → after = call) :
    Starting { x with session, starts := x.starts.set k after } := by
  refine h.advance hcall hfaults hsame ?_ ?_ hattached hplaced fun connector hready => ?_
  · exact fun hafter j hj => h.unique j k hj ⟨call, hcall, hbusy hafter⟩
  · rintro j (⟨hj, -⟩ | hafter)
    · exact hisStarted.trans (h.started j hj)
    · exact hisStarted.trans (h.started k ⟨call, hcall, hbusy hafter⟩)
  · have hgrows := Grows.advance session after hcall hreturned (List.prefix_refl x.owners)
      (hsame ▸ List.prefix_refl _)
    exact hgrows.started (h.ready connector (hlatch ▸ hready))

theorem stepStart_of_same (hcall : x.starts[k]? = some call)
    (hlength : (x.session.stepStart call).1.connectors.length = x.session.connectors.length) :
    x.stepStart k = { x with
      session := (x.session.stepStart call).1
      starts := x.starts.set k (x.session.stepStart call).2 } := by
  simp only [stepStart, hcall, hlength, Nat.lt_irrefl, if_false]

variable {faults : ConnectorFaults}

theorem Starting.mark (h : x.Starting) (hcall : x.starts[k]? = some ⟨faults, .marking⟩) :
    (x.stepStart k).Starting := by
  cases hisStarted : x.session.isStarted with
  | true =>
    have hstep : x.session.stepStart ⟨faults, .marking⟩ =
        (x.session, ⟨faults, .returned (.error .alreadyStarted)⟩) := by
      simp [Session.stepStart, hisStarted]
    rw [stepStart_of_same hcall (by rw [hstep]), hstep]
    exact h.quiet hcall rfl rfl rfl rfl (by simp [StartPhase.IsBusy])
      (by simp [StartPhase.Attached, StartPhase.Placed]) (by simp [StartPhase.Placed]) (by simp)
  | false =>
    have hstep : x.session.stepStart ⟨faults, .marking⟩ =
        ({ x.session with isStarted := true }, ⟨faults, .spawning⟩) := by
      simp [Session.stepStart, hisStarted]
    have hnone : ∀ j, ¬x.Holds j := by
      intro j hj
      have hstarted := h.started j hj
      rw [hisStarted] at hstarted
      cases hstarted
    rw [stepStart_of_same hcall (by rw [hstep]), hstep]
    refine h.advance hcall rfl rfl (fun _ j hj => absurd hj (hnone j)) (fun _ _ => rfl)
      (by simp [StartPhase.Attached, StartPhase.Placed]) (by simp [StartPhase.Placed])
      fun connector hready => ?_
    have hgrows := Grows.advance { x.session with isStarted := true } ⟨faults, .spawning⟩ hcall
      (by simp) (List.prefix_refl x.owners) (List.prefix_refl _)
    exact hgrows.started (h.ready connector hready)

theorem Starting.fail (h : x.Starting) (hcall : x.starts[k]? = some ⟨faults, .attaching⟩)
    (hfails : faults.takeReader = true) : (x.stepStart k).Starting := by
  have hstep : x.session.stepStart ⟨faults, .attaching⟩ =
      ({ x.session.abortTasks with isStarted := false },
        ⟨faults, .returned (.error (.transport (Session.failedCall "take_reader")))⟩) := by
    simp [Session.stepStart, hfails]
  rw [stepStart_of_same hcall (by rw [hstep]; rfl), hstep]
  refine h.advance hcall rfl rfl nofun ?_ (by simp [StartPhase.Attached, StartPhase.Placed])
    (by simp [StartPhase.Placed]) fun connector hready => ?_
  · rintro j (⟨hj, hne⟩ | hbusy)
    · exact absurd (h.unique j k hj ⟨_, hcall, trivial⟩) hne
    · exact hbusy.elim
  · have hgrows := Grows.advance { x.session.abortTasks with isStarted := false }
      ⟨faults, .returned (.error (.transport (Session.failedCall "take_reader")))⟩ hcall (by simp)
      (List.prefix_refl x.owners) (List.prefix_refl _)
    exact hgrows.started (h.ready connector hready)

-- While a start has not attached its connector, there is none.
theorem Starting.connectors_eq_nil (h : x.Starting)
    (hcall : x.starts[k]? = some ⟨faults, .attaching⟩) :
    x.owners = [] ∧ x.session.connectors = [] := by
  have hnone : x.owners = [] := by
    cases howners : x.owners with
    | nil => rfl
    | cons first rest =>
      obtain ⟨other, hother, hattached, -⟩ := h.owner 0 first (by rw [howners]; rfl)
      obtain rfl := h.unique first k ⟨other, hother, hattached.isBusy⟩ ⟨_, hcall, trivial⟩
      obtain rfl := Option.some.inj (hcall.symm.trans hother)
      simp [StartPhase.Attached, StartPhase.Placed] at hattached
  have hlength := h.owners
  rw [hnone, Session.faults, List.length_map] at hlength
  exact ⟨hnone, List.length_eq_zero_iff.mp hlength.symm⟩

-- The first connector is attached.
def attached (x : Traffic) (k : Nat) (faults : ConnectorFaults) : Traffic :=
  { x with
    session := { x.session with connectors := [{ faults }], reader := .attached 0 }
    starts := x.starts.set k ⟨faults, .listing 0⟩
    owners := [k] }

theorem Starting.stepStart_attach (h : x.Starting)
    (hcall : x.starts[k]? = some ⟨faults, .attaching⟩) (hsucceeds : faults.takeReader = false) :
    x.stepStart k = x.attached k faults := by
  obtain ⟨howners, hconnectors⟩ := h.connectors_eq_nil hcall
  simp [Traffic.stepStart, hcall, Session.stepStart, hsucceeds, hconnectors, howners, attached]

theorem Starting.attach (h : x.Starting) (hcall : x.starts[k]? = some ⟨faults, .attaching⟩) :
    (x.attached k faults).Starting := by
  obtain ⟨howners, hconnectors⟩ := h.connectors_eq_nil hcall
  have hstarted := h.started k ⟨_, hcall, trivial⟩
  have hget : ∀ j, (x.attached k faults).starts[j]? =
      if j = k then some ⟨faults, .listing 0⟩ else x.starts[j]? := getElem?_set_of_some hcall
  have honly : ∀ j, (x.attached k faults).Holds j → j = k := by
    rintro j ⟨other, hother, hbusy⟩
    rw [hget] at hother
    split at hother
    · assumption
    · exact h.unique j k ⟨other, hother, hbusy⟩ ⟨_, hcall, trivial⟩
  refine ⟨fun j j' hj hj' => (honly j hj).trans (honly j' hj').symm, fun _ _ => hstarted, rfl,
    Nat.le_refl 1, fun connector j howner => ?_, fun j other connector hother hplaced => ?_,
    fun connector hready => ?_⟩
  · cases connector with
    | zero =>
      obtain rfl := Option.some.inj howner
      exact ⟨⟨faults, .listing 0⟩, by rw [hget, if_pos rfl], .inl (.inl rfl), rfl⟩
    | succ connector => cases howner
  · rw [hget] at hother
    split at hother
    · rename_i hj
      subst hj
      obtain rfl := Option.some.inj hother
      simp only [StartPhase.Placed, StartPhase.listing.injEq, reduceCtorEq, or_false] at hplaced
      subst hplaced
      rfl
    · have hnone := h.placed j other connector hother hplaced
      rw [howners] at hnone
      cases hnone
  · obtain ⟨_, _, hnone, -⟩ := h.ready connector hready
    rw [howners] at hnone
    cases hnone

theorem Starting.open (h : x.Starting) {connector : Nat}
    (hcall : x.starts[k]? = some ⟨faults, .opening connector⟩) : (x.stepStart k).Starting := by
  have hstep : x.session.stepStart ⟨faults, .opening connector⟩ =
      ({ x.session with latch := (x.session.latch.resolve connector).1 },
        ⟨faults, .returned (.ok ())⟩) := by
    simp [Session.stepStart]
  have howner := h.placed k _ connector hcall (.inr rfl)
  obtain ⟨other, hother, -, hwire⟩ := h.owner connector k howner
  obtain rfl := Option.some.inj (hcall.symm.trans hother)
  rw [stepStart_of_same hcall (by rw [hstep]), hstep]
  refine h.advance hcall rfl rfl (fun _ j hj => h.unique j k hj ⟨_, hcall, trivial⟩) ?_
    (fun _ _ => .inr rfl) (by simp [StartPhase.Placed]) fun ready hready => ?_
  · exact fun _ _ => h.started k ⟨_, hcall, trivial⟩
  · have hgrows := Grows.advance { x.session with latch := (x.session.latch.resolve connector).1 }
      ⟨faults, .returned (.ok ())⟩ hcall (by simp) (List.prefix_refl x.owners) (List.prefix_refl _)
    cases hlatch : x.session.latch with
    | pending =>
      simp only [hlatch, Latch.resolve, Latch.ready.injEq] at hready
      subst hready
      refine ⟨k, ⟨faults, .returned (.ok ())⟩, howner, ?_, rfl, hwire⟩
      simp only [getElem?_set_of_some hcall, if_true]
    | ready value =>
      simp only [hlatch, Latch.resolve] at hready
      exact hgrows.started (h.ready ready (hlatch.trans hready))
    | disposed =>
      simp only [hlatch, Latch.resolve] at hready
      cases hready

theorem Starting.stepStart (h : x.Starting) (k : Nat) : (x.stepStart k).Starting := by
  cases hcall : x.starts[k]? with
  | none => simpa [Traffic.stepStart, hcall] using h
  | some call =>
    obtain ⟨faults, phase⟩ := call
    cases phase with
    | checking =>
      rw [stepStart_of_same hcall rfl]
      simp only [Session.stepStart]
      split <;> exact h.quiet hcall rfl rfl rfl rfl (by simp [StartPhase.IsBusy])
        (by simp [StartPhase.Attached, StartPhase.Placed]) (by simp [StartPhase.Placed]) (by simp)
    | marking => exact h.mark hcall
    | spawning =>
      rw [stepStart_of_same hcall rfl]
      exact h.quiet hcall rfl rfl rfl rfl (fun _ => trivial)
        (by simp [StartPhase.Attached, StartPhase.Placed])
        (by simp [Session.stepStart, StartPhase.Placed]) (by simp)
    | attaching =>
      cases hfaults : faults.takeReader with
      | true => exact h.fail hcall hfaults
      | false =>
        rw [h.stepStart_attach hcall hfaults]
        exact h.attach hcall
    | listing connector =>
      rw [stepStart_of_same hcall rfl]
      exact h.quiet hcall rfl rfl rfl rfl (fun _ => trivial)
        (by simp [Session.stepStart, StartPhase.Attached, StartPhase.Placed])
        (by simp [Session.stepStart, StartPhase.Placed]) (by simp)
    | opening connector => exact h.open hcall
    | returned result =>
      rw [stepStart_of_same hcall rfl]
      exact h.quiet hcall rfl rfl rfl rfl id (fun _ => id) (fun _ => id) (fun _ _ => rfl)

theorem Starting.callStart (h : x.Starting) (faults : ConnectorFaults) :
    (x.make (.callStart faults)).Starting := by
  have hold : ∀ (j : Nat) (other : StartCall), (x.make (.callStart faults)).starts[j]? = some other →
      other.phase ≠ .checking → x.starts[j]? = some other := by
    intro j other hother hphase
    rcases of_getElem?_concat hother with hbefore | rfl
    · exact hbefore
    · exact absurd rfl hphase
  have hholds : ∀ j, (x.make (.callStart faults)).Holds j → x.Holds j := by
    rintro j ⟨other, hother, hbusy⟩
    refine ⟨other, hold j other hother fun hphase => ?_, hbusy⟩
    rw [hphase] at hbusy
    exact hbusy
  have hprefix : x.starts <+: (x.make (.callStart faults)).starts := List.prefix_append _ _
  refine ⟨fun j j' hj hj' => h.unique j j' (hholds j hj) (hholds j' hj'),
    fun j hj => h.started j (hholds j hj), h.owners, h.single, fun connector j howner => ?_,
    fun j other connector hother hplaced => ?_, fun connector hready => ?_⟩
  · obtain ⟨other, hother, hattached⟩ := h.owner connector j howner
    exact ⟨other, getElem?_of_prefix hprefix hother, hattached⟩
  · refine h.placed j other connector (hold j other hother fun hphase => ?_) hplaced
    rw [hphase] at hplaced
    simp [StartPhase.Placed] at hplaced
  · obtain ⟨j, other, howner, hother, hreturned⟩ := h.ready connector hready
    exact ⟨j, other, howner, getElem?_of_prefix hprefix hother, hreturned⟩

-- Nothing happens to starts, and the latch does not open.
structure SameStarts (x x' : Traffic) : Prop where
  starts : x'.starts = x.starts
  owners : x'.owners = x.owners
  isStarted : x'.session.isStarted = x.session.isStarted
  faults : x'.session.faults = x.session.faults
  ready : ∀ connector, x'.session.latch = .ready connector → x.session.latch = .ready connector

theorem SameStarts.grows (h : x.SameStarts x') : x.Grows x' :=
  ⟨h.owners ▸ List.prefix_refl _, h.faults ▸ List.prefix_refl _,
    fun _ _ _ hcall _ => h.starts ▸ hcall⟩

theorem SameStarts.starting (h : x.SameStarts x') (hstarting : x.Starting) : x'.Starting := by
  have hholds : ∀ k, x'.Holds k → x.Holds k := by
    rintro k ⟨call, hcall, hbusy⟩
    exact ⟨call, h.starts ▸ hcall, hbusy⟩
  refine ⟨fun k k' hk hk' => hstarting.unique k k' (hholds k hk) (hholds k' hk'), fun k hk => ?_, ?_,
    ?_, ?_, ?_, fun connector hready => h.grows.started (hstarting.ready connector (h.ready _ hready))⟩
  · rw [h.isStarted]
    exact hstarting.started k (hholds k hk)
  · rw [h.owners, h.faults]
    exact hstarting.owners
  · rw [h.owners]
    exact hstarting.single
  · rw [h.owners, h.starts, h.faults]
    exact hstarting.owner
  · rw [h.owners, h.starts]
    exact hstarting.placed

end Starts

end Traffic

end ShellTranscript
