import ShellTranscript.Proofs.Session.Starts

-- Requests among starts and disposals. The steps of all of them may come in any order, whoever else
-- works on the session in between, and connectors answer each write as they like. A request calls a
-- connector once or never, one that a start has returned with, and the answer is its result; a
-- disposal lets no request wait any longer.
namespace ShellTranscript

namespace Traffic

-- The first disposal takes the connection out of the latch.
structure Disposing (x : Traffic) : Prop where
  marked : (∃ phase ∈ x.disposals, phase ≠ .marking) → x.session.isDisposed = true
  taken : x.session.isDisposed = true → .taking ∈ x.disposals ∨ x.session.latch = .disposed

-- A disposal has marked the session, and none is about to take the connection.
def Ended (x : Traffic) : Prop :=
  (∃ phase ∈ x.disposals, phase ≠ .marking) ∧ .taking ∉ x.disposals

section Disposals

variable {x x' : Traffic} {k : Nat} {phase after : DisposePhase} {session : Session}

theorem Disposing.latch (h : x.Disposing) (hended : x.Ended) : x.session.latch = .disposed :=
  (h.taken (h.marked hended.1)).resolve_left hended.2

theorem mem_set_of_ne {a : DisposePhase} (hphase : x.disposals[k]? = some phase)
    (hmem : a ∈ x.disposals) (hne : a ≠ phase) : a ∈ x.disposals.set k after := by
  obtain ⟨j, hj⟩ := List.mem_iff_getElem?.mp hmem
  have hjk : k ≠ j := by
    rintro rfl
    exact hne (Option.some.inj (hj.symm.trans hphase))
  exact List.mem_iff_getElem?.mpr ⟨j, by rw [List.getElem?_set_ne hjk, hj]⟩

theorem mem_set_self {a : DisposePhase} (hphase : x.disposals[k]? = some phase) :
    a ∈ x.disposals.set k a := by
  obtain ⟨hk, -⟩ := List.getElem?_eq_some_iff.mp hphase
  exact List.mem_iff_getElem?.mpr ⟨k, by rw [List.getElem?_set_self hk]⟩

-- A disposal leaves starts and requests alone, but for the latch.
structure SameTraffic (s s' : Session) : Prop where
  isStarted : s'.isStarted = s.isStarted
  requests : s'.requests = s.requests
  faults : s'.faults = s.faults
  calls : ∀ connector, s'.callsTo connector = s.callsTo connector
  latch : s'.latch = s.latch ∨ s'.latch = .disposed

theorem sameTraffic_stepDispose (s : Session) (phase : DisposePhase) :
    SameTraffic s (s.stepDispose phase).1 := by
  cases phase with
  | marking =>
    simp only [Session.stepDispose]
    split <;> exact ⟨rfl, rfl, rfl, fun _ => rfl, .inl rfl⟩
  | taking => exact ⟨rfl, rfl, rfl, fun _ => rfl, .inr rfl⟩
  | closing connector =>
    have haside := s.aside_close connector
    exact ⟨haside.isStarted, haside.requests, haside.faults, haside.calls, .inl haside.latch⟩
  | aborting =>
    simp only [Session.stepDispose]
    split <;> exact ⟨rfl, rfl, rfl, fun _ => rfl, .inl rfl⟩
  | silencing | announcing | returned => exact ⟨rfl, rfl, rfl, fun _ => rfl, .inl rfl⟩

theorem Disposing.stepDispose (h : x.Disposing) (k : Nat) : (x.stepDispose k).Disposing := by
  cases hphase : x.disposals[k]? with
  | none => simpa [Traffic.stepDispose, hphase] using h
  | some phase =>
    have hmem := List.mem_of_getElem? hphase
    have hquiet : ∀ (after : DisposePhase) (session : Session), phase ≠ .taking →
        phase ≠ .marking → session.isDisposed = x.session.isDisposed →
          session.latch = x.session.latch →
            Disposing { x with session, disposals := x.disposals.set k after } := by
      intro after session htaking hmarking hisDisposed hlatch
      have hmarked : session.isDisposed = true :=
        hisDisposed.trans (h.marked ⟨phase, hmem, hmarking⟩)
      refine ⟨fun _ => hmarked, fun _ => ?_⟩
      rcases h.taken (hisDisposed ▸ hmarked) with htaken | hdisposed
      · exact .inl (mem_set_of_ne hphase htaken htaking.symm)
      · exact .inr (hlatch.trans hdisposed)
    simp only [Traffic.stepDispose, hphase]
    cases phase with
    | marking =>
      simp only [Session.stepDispose]
      split
      · rename_i hisDisposed
        refine ⟨fun _ => hisDisposed, fun _ => ?_⟩
        exact (h.taken hisDisposed).imp_left fun htaken => mem_set_of_ne hphase htaken (by simp)
      · exact ⟨fun _ => rfl, fun _ => .inl (mem_set_self hphase)⟩
    | taking => exact ⟨fun _ => h.marked ⟨_, hmem, by simp⟩, fun _ => .inr rfl⟩
    | aborting =>
      simp only [Session.stepDispose]
      split <;> exact hquiet _ _ (by simp) (by simp) rfl rfl
    | _ => exact hquiet _ _ (by simp) (by simp) rfl rfl

theorem Disposing.of_same (h : x.Disposing) (hdisposals : x'.disposals = x.disposals)
    (hisDisposed : x'.session.isDisposed = x.session.isDisposed)
    (hlatch : x.session.latch = .disposed → x'.session.latch = .disposed) : x'.Disposing := by
  refine ⟨fun hmarked => ?_, fun hdisposed => ?_⟩
  · rw [hdisposals] at hmarked
    rw [hisDisposed]
    exact h.marked hmarked
  · rw [hisDisposed] at hdisposed
    rw [hdisposals]
    exact (h.taken hdisposed).imp_right hlatch

end Disposals

-- Those who have called a connector, but for the terminal's replies.
def sendersTo (s : Session) (connector : Nat) : List Nat :=
  (s.callsTo connector).filterMap WriteCall.sender

-- The calls that connectors have noted decide what becomes of requests.
structure Handing (x : Traffic) : Prop where
  connected : ∀ (index : Nat) (request : Request) connector,
    x.session.requests[index]? = some request → request.phase = .connected connector →
      x.Started connector
  called : ∀ connector, ∀ call ∈ x.session.callsTo connector, ∀ index, call.sender = some index →
    x.Started connector ∧
      x.session.requests[index]? = some ⟨.write call.payload, Session.outcome call.accepted⟩
  delivered : ∀ (index : Nat) payload,
    x.session.requests[index]? = some ⟨.write payload, .resolved .delivered⟩ →
    ∃ connector, ⟨some index, payload, true⟩ ∈ x.session.callsTo connector
  once : ∀ connector, (sendersTo x.session connector).Nodup

section Requests

variable {x x' : Traffic} {index : Nat} {request : Request} {phase : RequestPhase} {s : Session}

-- Requests stay as they are and new ones wait, and whatever is written is no request's.
theorem Handing.extend (h : x.Handing) (hgrows : x.Grows x') (news : Nat → List WriteCall)
    (hkept : x.session.requests <+: x'.session.requests)
    (hold : ∀ (index : Nat) (request : Request), x'.session.requests[index]? = some request →
      request.phase ≠ .waiting → x.session.requests[index]? = some request)
    (hcalls : ∀ connector, x'.session.callsTo connector =
      x.session.callsTo connector ++ news connector)
    (hnews : ∀ connector, ∀ call ∈ news connector, call.sender = none) : x'.Handing := by
  refine ⟨fun index request connector hrequest hphase => ?_,
    fun connector call hcall index hsender => ?_, fun index payload hrequest => ?_,
    fun connector => ?_⟩
  · have hbefore := hold index request hrequest (by simp [hphase])
    exact hgrows.started (h.connected index request connector hbefore hphase)
  · rw [hcalls] at hcall
    rcases List.mem_append.mp hcall with hearlier | hnew
    · obtain ⟨hstarted, hrequest⟩ := h.called connector call hearlier index hsender
      exact ⟨hgrows.started hstarted, getElem?_of_prefix hkept hrequest⟩
    · rw [hnews connector call hnew] at hsender
      cases hsender
  · obtain ⟨connector, hmem⟩ := h.delivered index payload (hold index _ hrequest (by simp))
    exact ⟨connector, hcalls connector ▸ List.mem_append_left _ hmem⟩
  · have hnone : (news connector).filterMap WriteCall.sender = [] :=
      List.filterMap_eq_nil_iff.mpr (hnews connector)
    rw [sendersTo, hcalls, List.filterMap_append, hnone, List.append_nil]
    exact h.once connector

theorem Handing.of_same (h : x.Handing) (hgrows : x.Grows x')
    (hrequests : x'.session.requests = x.session.requests)
    (hcalls : ∀ connector, x'.session.callsTo connector = x.session.callsTo connector) :
    x'.Handing :=
  h.extend hgrows (fun _ => []) (hrequests ▸ List.prefix_refl _)
    (fun _ _ hrequest _ => hrequests ▸ hrequest) (by simp [hcalls]) (by simp)

theorem Handing.post (h : x.Handing) (hgrows : x.Grows x') (errand : Errand)
    (hrequests : x'.session.requests = x.session.requests ++ [⟨errand, .waiting⟩])
    (hcalls : ∀ connector, x'.session.callsTo connector = x.session.callsTo connector) :
    x'.Handing := by
  refine h.extend hgrows (fun _ => []) (hrequests ▸ List.prefix_append _ _)
    (fun j request hrequest hphase => ?_) (by simp [hcalls]) (by simp)
  rw [hrequests] at hrequest
  rcases of_getElem?_concat hrequest with hbefore | rfl
  · exact hbefore
  · exact absurd rfl hphase

theorem Handing.reply (h : x.Handing) (connector : Nat) (payload : Text) :
    (x.reply connector payload).Handing := by
  have hbeside := x.session.beside_write connector none payload
  obtain ⟨news, hnotes, hcalls⟩ := x.session.notes_write connector none payload
  have hrequests : (x.reply connector payload).session.requests = x.session.requests :=
    hbeside.requests
  have hgrows : x.Grows (x.reply connector payload) :=
    ⟨List.prefix_refl _, hbeside.faults ▸ List.prefix_refl _, fun _ _ _ hcall _ => hcall⟩
  refine h.extend hgrows (fun j => if connector = j then news else [])
    (hrequests ▸ List.prefix_refl _) (fun _ _ hrequest _ => hrequests ▸ hrequest) hcalls
    fun j call hcall => ?_
  split at hcall
  · exact hnotes.sender call hcall
  · cases hcall

-- A request without a result has called no connector.
theorem Handing.unsent (h : x.Handing) (hrequest : x.session.requests[index]? = some request)
    (hunresolved : ∀ result, request.phase ≠ .resolved result) (connector : Nat) :
    ∀ call ∈ x.session.callsTo connector, call.sender ≠ some index := by
  intro call hcall hsender
  obtain ⟨-, hresolved⟩ := h.called connector call hcall index hsender
  obtain rfl := Option.some.inj (hrequest.symm.trans hresolved)
  exact hunresolved _ rfl

theorem Handing.once_append (h : x.Handing) (hrequest : x.session.requests[index]? = some request)
    (hunresolved : ∀ result, request.phase ≠ .resolved result) (connector : Nat)
    {news : List WriteCall} (hsingle : (news.filterMap WriteCall.sender).Nodup)
    (hnews : ∀ call ∈ news, call.sender = some index) :
    ((x.session.callsTo connector ++ news).filterMap WriteCall.sender).Nodup := by
  rw [List.filterMap_append, List.nodup_append]
  refine ⟨h.once connector, hsingle, fun j hj j' hj' => ?_⟩
  obtain ⟨call, hcall, hsender⟩ := List.mem_filterMap.mp hj
  obtain ⟨call', hcall', hsender'⟩ := List.mem_filterMap.mp hj'
  rintro rfl
  exact h.unsent hrequest hunresolved connector call hcall
    (hsender.trans (hsender'.symm.trans (hnews call' hcall')))

-- A request goes on. If it calls a connector on the way, the answer decides its result.
theorem Handing.advance (h : x.Handing) (hbeside : x.session.Beside s)
    (hrequest : x.session.requests[index]? = some request)
    (hunresolved : ∀ result, request.phase ≠ .resolved result)
    (hconnected : ∀ connector, phase = .connected connector → x.Started connector)
    (news : Nat → List WriteCall)
    (hsingle : ∀ connector, ((news connector).filterMap WriteCall.sender).Nodup)
    (hnews : ∀ connector, ∀ call ∈ news connector, call.sender = some index ∧
      x.Started connector ∧ request.errand = .write call.payload ∧
        phase = Session.outcome call.accepted)
    (hdelivered : ∀ payload, request.errand = .write payload → phase = .resolved .delivered →
      ∃ connector, ⟨some index, payload, true⟩ ∈ news connector)
    (hcalls : ∀ connector, s.callsTo connector =
      x.session.callsTo connector ++ news connector) :
    Handing { x with session := s.setPhase index phase } := by
  have hgrows : x.Grows { x with session := s.setPhase index phase } :=
    ⟨List.prefix_refl _, hbeside.faults ▸ List.prefix_refl _, fun _ _ _ hcall _ => hcall⟩
  have hget : ∀ j, (s.setPhase index phase).requests[j]? =
      if j = index then some { request with phase } else x.session.requests[j]? := by
    intro j
    rw [Session.requests_setPhase phase (hbeside.requests ▸ hrequest), hbeside.requests]
  have hcalls' : ∀ connector, (s.setPhase index phase).callsTo connector =
      x.session.callsTo connector ++ news connector := hcalls
  refine ⟨fun j other connector hother hphase => ?_, fun connector call hcall j hsender => ?_,
    fun j payload hother => ?_, fun connector => ?_⟩
  · rw [hget] at hother
    split at hother
    · obtain rfl := Option.some.inj hother
      exact hgrows.started (hconnected connector hphase)
    · exact hgrows.started (h.connected j other connector hother hphase)
  · rw [hcalls'] at hcall
    rcases List.mem_append.mp hcall with hearlier | hnew
    · obtain ⟨hstarted, hother⟩ := h.called connector call hearlier j hsender
      have hne : j ≠ index := by
        rintro rfl
        exact h.unsent hrequest hunresolved connector call hearlier hsender
      exact ⟨hgrows.started hstarted, by rw [hget, if_neg hne, hother]⟩
    · obtain ⟨hindex, hstarted, herrand, hphase⟩ := hnews connector call hnew
      obtain rfl := Option.some.inj (hindex.symm.trans hsender)
      exact ⟨hgrows.started hstarted, by rw [hget, if_pos rfl, ← herrand, ← hphase]⟩
  · rw [hget] at hother
    simp only [hcalls', List.mem_append]
    split at hother
    · rename_i heq
      subst heq
      have hrequest' := Option.some.inj hother
      obtain ⟨connector, hmem⟩ := hdelivered payload (congrArg Request.errand hrequest')
        (congrArg Request.phase hrequest')
      exact ⟨connector, .inr hmem⟩
    · obtain ⟨connector, hmem⟩ := h.delivered j payload hother
      exact ⟨connector, .inl hmem⟩
  · rw [sendersTo, hcalls']
    exact h.once_append hrequest hunresolved connector (hsingle connector)
      fun call hcall => (hnews connector call hcall).1

-- Most steps of a request call no connector, and do not resolve a write with a delivery.
theorem Handing.turn (h : x.Handing)
    (hready : ∀ connector, x.session.latch = .ready connector → x.Started connector)
    (hrequest : x.session.requests[index]? = some request) (haside : x.session.Aside s)
    (hturns : x.session.Turns request phase) :
    Handing { x with session := s.setPhase index phase } :=
  h.advance haside.toBeside hrequest hturns.unresolved
    (fun connector hphase => hready connector (hturns.connected connector hphase)) (fun _ => [])
    (by simp) (by simp) (fun payload herrand hphase => absurd hphase (hturns.undelivered payload herrand))
    (by simp [haside.calls])

-- The connector's answer resolves a request that writes.
theorem Handing.write (h : x.Handing) {connector : Nat} {payload : Text}
    (hrequest : x.session.requests[index]? = some ⟨.write payload, .connected connector⟩) :
    (x.make (.stepRequest index)).Handing := by
  have hbeside := x.session.beside_write connector (some index) payload
  obtain ⟨news, hnotes, hcalls⟩ := x.session.notes_write connector (some index) payload
  rw [make, Session.stepRequest_write hrequest]
  generalize x.session.callConnector connector (fun c => c.write (some index) payload) = called
    at hbeside hnotes hcalls ⊢
  obtain ⟨s, accepted⟩ := called
  have hstarted := h.connected index _ connector hrequest rfl
  refine h.advance hbeside hrequest (by simp) (by simp [Session.outcome])
    (fun j => if connector = j then news else []) (fun j => ?_) (fun j call hcall => ?_) ?_ hcalls
  · split
    · cases hnotes <;> simp
    · exact List.nodup_nil
  · split at hcall
    · rename_i heq
      subst heq
      cases hnotes with
      | nothing => cases hcall
      | call accepted =>
        obtain rfl := List.mem_singleton.mp hcall
        exact ⟨rfl, hstarted, rfl, rfl⟩
    · cases hcall
  · intro payload' herrand hdelivered
    obtain rfl := Errand.write.inj herrand
    cases hnotes with
    | nothing => cases hdelivered
    | call accepted =>
      cases accepted with
      | true => exact ⟨connector, by simp⟩
      | false => cases hdelivered

theorem Handing.stepRequest (h : x.Handing)
    (hready : ∀ connector, x.session.latch = .ready connector → x.Started connector) (index : Nat) :
    (x.make (.stepRequest index)).Handing := by
  cases x.session.stepped index with
  | idle hstep =>
    rw [make, hstep]
    exact h
  | write hrequest => exact h.write hrequest
  | turn hrequest haside hturns hstep =>
    rw [make, hstep]
    exact h.turn hready hrequest haside hturns

end Requests

structure Sound (x : Traffic) : Prop where
  starting : x.Starting
  disposing : x.Disposing
  handing : x.Handing

-- A request that no connection was obtained for.
def Unserved (phase : RequestPhase) : Prop := phase = .waiting ∨ phase = .resolved .noTransport

-- Requests stay, a result is final, and no call is forgotten. When the latch is disposed of, nobody
-- obtains a connection.
structure Onward (s s' : Session) : Prop where
  requests : ∀ (index : Nat) (request : Request), s.requests[index]? = some request →
    ∃ phase, s'.requests[index]? = some { request with phase } ∧
      ∀ result, request.phase = .resolved result → phase = .resolved result
  calls : ∀ connector, s.callsTo connector <+: s'.callsTo connector
  latch : s.latch = .disposed → s'.latch = .disposed
  unserved : s.latch = .disposed → ∀ (index : Nat) (request' : Request),
    s'.requests[index]? = some request' →
      (∀ request, s.requests[index]? = some request → Unserved request.phase) →
        Unserved request'.phase

section Moves

variable {x x' : Traffic} {s s' s'' : Session} {index : Nat}

theorem Onward.trans (h : Onward s s') (h' : Onward s' s'') : Onward s s'' := by
  refine ⟨fun index request hrequest => ?_, fun connector => (h.calls connector).trans
    (h'.calls connector), fun hlatch => h'.latch (h.latch hlatch),
    fun hlatch index request' hrequest hbefore => ?_⟩
  · obtain ⟨phase, hnext, hfinal⟩ := h.requests index request hrequest
    obtain ⟨phase', hlast, hfinal'⟩ := h'.requests index _ hnext
    exact ⟨phase', hlast, fun result hresult => hfinal' result (hfinal result hresult)⟩
  · refine h'.unserved (h.latch hlatch) index request' hrequest fun request hnext => ?_
    exact h.unserved hlatch index request hnext hbefore

theorem onward_of_same (hrequests : s'.requests = s.requests)
    (hcalls : ∀ connector, s.callsTo connector <+: s'.callsTo connector)
    (hlatch : s.latch = .disposed → s'.latch = .disposed) : Onward s s' :=
  ⟨fun _ request hrequest => ⟨request.phase, hrequests ▸ hrequest, fun _ => id⟩, hcalls, hlatch,
    fun _ _ request' hrequest hbefore => hbefore request' (hrequests ▸ hrequest)⟩

theorem prefix_of_same (hcalls : ∀ connector, s'.callsTo connector = s.callsTo connector)
    (connector : Nat) : s.callsTo connector <+: s'.callsTo connector :=
  hcalls connector ▸ List.prefix_refl _

theorem prefix_write (s : Session) (index : Nat) (sender : Option Nat) (payload : Text)
    (connector : Nat) : s.callsTo connector <+:
      (s.callConnector index fun c => c.write sender payload).1.callsTo connector := by
  obtain ⟨news, -, hcalls⟩ := s.notes_write index sender payload
  rw [hcalls]
  exact List.prefix_append _ _

theorem onward_post {errand : Errand} (h : s.Posts errand s') : Onward s s' := by
  have hprefix : s.requests <+: s'.requests := h.requests ▸ List.prefix_append _ _
  refine ⟨fun index request hrequest => ?_, prefix_of_same h.calls, h.latch.trans,
    fun _ index request' hrequest hbefore => ?_⟩
  · exact ⟨request.phase, getElem?_of_prefix hprefix hrequest, fun _ => id⟩
  · rw [h.requests] at hrequest
    rcases of_getElem?_concat hrequest with hold | rfl
    · exact hbefore request' hold
    · exact .inl rfl

theorem onward_setPhase {request : Request} {phase : RequestPhase} (hbeside : s.Beside s')
    (hcalls : ∀ connector, s.callsTo connector <+: s'.callsTo connector)
    (hrequest : s.requests[index]? = some request)
    (hunresolved : ∀ result, request.phase ≠ .resolved result)
    (hunserved : s.latch = .disposed → request.phase = .waiting → Unserved phase) :
    Onward s (s'.setPhase index phase) := by
  have hrequest' : s'.requests[index]? = some request := hbeside.requests ▸ hrequest
  have hget := Session.requests_setPhase phase hrequest'
  refine ⟨fun j other hother => ?_, hcalls, fun hlatch => hbeside.latch.trans hlatch,
    fun hlatch j other hother hbefore => ?_⟩
  · rw [hget]
    split
    · rename_i heq
      subst heq
      obtain rfl := Option.some.inj (hrequest.symm.trans hother)
      exact ⟨phase, rfl, fun result hresult => absurd hresult (hunresolved result)⟩
    · rw [hbeside.requests]
      exact ⟨other.phase, hother, fun _ => id⟩
  · rw [hget] at hother
    split at hother
    · rename_i heq
      subst heq
      obtain rfl := Option.some.inj hother
      rcases hbefore request hrequest with hwaiting | hresolved
      · exact hunserved hlatch hwaiting
      · exact absurd hresolved (hunresolved _)
    · rw [hbeside.requests] at hother
      exact hbefore other hother

theorem onward_stepRequest (s : Session) (index : Nat) : Onward s (s.stepRequest index) := by
  cases s.stepped index with
  | idle hstep =>
    rw [hstep]
    exact onward_of_same rfl (fun _ => List.prefix_refl _) id
  | @write connector payload hrequest =>
    rw [Session.stepRequest_write hrequest]
    exact onward_setPhase (s.beside_write connector _ payload) (prefix_write s connector _ payload)
      hrequest (by simp) (by simp)
  | turn hrequest haside hturns hstep =>
    rw [hstep]
    refine onward_setPhase haside.toBeside (prefix_of_same haside.calls) hrequest hturns.unresolved
      fun hlatch hwaiting => ?_
    exact .inr (hturns.released hwaiting hlatch)

-- A start leaves requests and disposals alone, and opens the latch at most once.
structure Attaches (s s' : Session) : Prop where
  isDisposed : s'.isDisposed = s.isDisposed
  requests : s'.requests = s.requests
  faults : s.faults <+: s'.faults
  calls : ∀ connector, s'.callsTo connector = s.callsTo connector
  latch : s.latch = .disposed → s'.latch = .disposed

theorem attaches_refl (s : Session) : Attaches s s :=
  ⟨rfl, rfl, List.prefix_refl _, fun _ => rfl, id⟩

theorem attaches_stepStart (s : Session) (call : StartCall) :
    Attaches s (s.stepStart call).1 := by
  obtain ⟨faults, phase⟩ := call
  cases phase with
  | marking =>
    simp only [Session.stepStart]
    split <;> exact ⟨rfl, rfl, List.prefix_refl _, fun _ => rfl, id⟩
  | attaching =>
    simp only [Session.stepStart]
    split
    · exact ⟨rfl, rfl, List.prefix_refl _, fun _ => rfl, id⟩
    · refine ⟨rfl, rfl, ?_, fun connector => ?_, id⟩
      · exact (List.prefix_append s.connectors [{ faults }]).map Connector.faults
      · simp only [Session.callsTo, List.getElem?_append]
        split
        · rfl
        · rename_i hlength
          rw [List.getElem?_eq_none (Nat.not_lt.mp hlength)]
          cases connector - s.connectors.length <;> rfl
  | opening connector =>
    refine ⟨rfl, rfl, List.prefix_refl _, fun _ => rfl, fun hlatch => ?_⟩
    simp [Session.stepStart, hlatch, Latch.resolve]
  | _ => exact ⟨rfl, rfl, List.prefix_refl _, fun _ => rfl, id⟩

theorem prefix_ite {α : Type} (p : Prop) [Decidable p] (l more : List α) :
    l <+: if p then l ++ more else l := by
  split
  · exact List.prefix_append l more
  · exact List.prefix_refl l

theorem attaches_session_stepStart (x : Traffic) (k : Nat) :
    Attaches x.session (x.stepStart k).session ∧ x.Grows (x.stepStart k) ∧
      (x.stepStart k).disposals = x.disposals := by
  unfold stepStart
  split
  · exact ⟨attaches_refl _, .refl x, rfl⟩
  · rename_i call hcall
    have hattaches := attaches_stepStart x.session call
    refine ⟨hattaches, Grows.advance _ _ hcall (fun result hreturned => ?_) ?_ hattaches.faults, rfl⟩
    · obtain ⟨faults, phase⟩ := call
      obtain rfl : phase = .returned result := hreturned
      rfl
    · exact prefix_ite _ x.owners [k]

theorem sameTraffic_session_stepDispose (x : Traffic) (k : Nat) :
    SameTraffic x.session (x.stepDispose k).session ∧ x.SameStarts (x.stepDispose k) := by
  unfold stepDispose
  split
  · exact ⟨⟨rfl, rfl, rfl, fun _ => rfl, .inl rfl⟩, ⟨rfl, rfl, rfl, rfl, fun _ => id⟩⟩
  · rename_i phase _
    have hsame := sameTraffic_stepDispose x.session phase
    refine ⟨hsame, rfl, rfl, hsame.isStarted, hsame.faults, fun connector hready => ?_⟩
    rcases hsame.latch with hlatch | hdisposed
    · exact hlatch ▸ hready
    · rw [hdisposed] at hready
      cases hready

theorem SameStarts.of_apart (h : x.session.Apart s) :
    x.SameStarts { x with session := s } :=
  ⟨rfl, rfl, h.isStarted, h.faults, fun _ hready => h.latch ▸ hready⟩

theorem Disposing.of_apart (h : x.Disposing) (hapart : x.session.Apart s) :
    Disposing { x with session := s } :=
  h.of_same rfl hapart.isDisposed fun hlatch => hapart.latch.trans hlatch

-- A move that takes place beside starts and disposals.
theorem Sound.of_apart (h : x.Sound) (hapart : x.session.Apart s)
    (hhanding : x.Grows { x with session := s } →
      Handing { x with session := s }) : Sound { x with session := s } :=
  ⟨(SameStarts.of_apart hapart).starting h.starting, h.disposing.of_apart hapart,
    hhanding (SameStarts.of_apart hapart).grows⟩

theorem Sound.post (h : x.Sound) {errand : Errand} (hposts : x.session.Posts errand s) :
    Sound { x with session := s } :=
  h.of_apart hposts.toApart fun hgrows =>
    h.handing.post hgrows errand hposts.requests hposts.calls

theorem Sound.aside (h : x.Sound) (haside : x.session.Aside s) : Sound { x with session := s } :=
  h.of_apart haside.toApart fun hgrows =>
    h.handing.of_same hgrows haside.requests haside.calls

theorem Sound.make (h : x.Sound) (m : Move) : (x.make m).Sound := by
  cases m with
  | callStart faults =>
    have hgrows : x.Grows (x.make (.callStart faults)) :=
      ⟨List.prefix_refl _, List.prefix_refl _, fun _ _ _ hcall _ =>
        getElem?_of_prefix (List.prefix_append _ _) hcall⟩
    exact ⟨h.starting.callStart faults, h.disposing.of_same rfl rfl id,
      h.handing.of_same hgrows rfl fun _ => rfl⟩
  | stepStart k =>
    obtain ⟨hattaches, hgrows, hdisposals⟩ := attaches_session_stepStart x k
    exact ⟨h.starting.stepStart k, h.disposing.of_same hdisposals hattaches.isDisposed hattaches.latch,
      h.handing.of_same hgrows hattaches.requests hattaches.calls⟩
  | callDispose =>
    have hstarts : x.SameStarts (x.make .callDispose) := ⟨rfl, rfl, rfl, rfl, fun _ => id⟩
    refine ⟨hstarts.starting h.starting, ⟨fun ⟨phase, hmem, hne⟩ => ?_, fun hdisposed => ?_⟩,
      h.handing.of_same hstarts.grows rfl fun _ => rfl⟩
    · rcases List.mem_append.mp hmem with hold | hnew
      · exact h.disposing.marked ⟨phase, hold, hne⟩
      · exact absurd (List.mem_singleton.mp hnew) hne
    · exact (h.disposing.taken hdisposed).imp_left (List.mem_append_left _)
  | stepDispose k =>
    obtain ⟨hsame, hstarts⟩ := sameTraffic_session_stepDispose x k
    exact ⟨hstarts.starting h.starting, h.disposing.stepDispose k,
      h.handing.of_same hstarts.grows hsame.requests hsame.calls⟩
  | sendCommand command => exact h.post (x.session.posts_sendCommand command)
  | typeKeys typed => exact h.post (x.session.posts_typeKeys typed)
  | resize size => exact h.post (x.session.posts_resize size)
  | stepRequest index =>
    exact h.of_apart (x.session.apart_stepRequest index) fun _ =>
      h.handing.stepRequest h.starting.ready index
  | reply connector payload =>
    exact h.of_apart (x.session.beside_write connector none payload).toApart fun _ =>
      h.handing.reply connector payload
  | hangUp connector => exact h.aside (x.session.aside_close connector)
  | work f aside => exact h.aside (aside x.session)

theorem onward_make (x : Traffic) (m : Move) : Onward x.session (x.make m).session := by
  cases m with
  | callStart | callDispose => exact onward_of_same rfl (fun _ => List.prefix_refl _) id
  | stepStart k =>
    obtain ⟨hattaches, -⟩ := attaches_session_stepStart x k
    exact onward_of_same hattaches.requests (prefix_of_same hattaches.calls) hattaches.latch
  | stepDispose k =>
    obtain ⟨hsame, -⟩ := sameTraffic_session_stepDispose x k
    exact onward_of_same hsame.requests (prefix_of_same hsame.calls)
      fun hlatch => hsame.latch.elim (·.trans hlatch) id
  | sendCommand command => exact onward_post (x.session.posts_sendCommand command)
  | typeKeys typed => exact onward_post (x.session.posts_typeKeys typed)
  | resize size => exact onward_post (x.session.posts_resize size)
  | stepRequest index => exact onward_stepRequest x.session index
  | reply connector payload =>
    have hbeside := x.session.beside_write connector none payload
    exact onward_of_same hbeside.requests (prefix_write x.session connector none payload)
      hbeside.latch.trans
  | hangUp connector =>
    have haside := x.session.aside_close connector
    exact onward_of_same rfl (prefix_of_same haside.calls) id
  | work f aside =>
    have haside := aside x.session
    exact onward_of_same haside.requests (prefix_of_same haside.calls) haside.latch.trans

end Moves

-- The records of the connectors, refused writes included, tell of each request at most once. Whoever
-- wrote wrote its whole payload, to the connector that a start has returned with, and was resolved by
-- the answer; a request is delivered just if its one write was accepted. While there is a connection,
-- a request's next two steps obtain it and write, unless it is closed.
structure Accounted (x : Traffic) : Prop where
  single : x.session.connectors.length ≤ 1
  once : ((x.session.connectors.flatMap Connector.writes).filterMap WriteCall.sender).Nodup
  entrusted : ∀ connector, ∀ call ∈ x.session.callsTo connector, ∀ index,
    call.sender = some index → x.Started connector ∧
      (∃ request, x.session.requests[index]? = some request ∧ request.errand = .write call.payload) ∧
        x.session.result? index = some (if call.accepted then .delivered else .noTransport)
  delivered_iff : ∀ (index : Nat) (request : Request) payload,
    x.session.requests[index]? = some request → request.errand = .write payload →
      (x.session.result? index = some .delivered ↔
        ∃ connector, ⟨some index, payload, true⟩ ∈ x.session.callsTo connector)
  connects : ∀ (index : Nat) errand connector, x.session.latch = .ready connector →
    x.session.requests[index]? = some ⟨errand, .waiting⟩ →
      (x.make (.stepRequest index)).session.requests[index]? = some ⟨errand, .connected connector⟩
  served : ∀ (index : Nat) payload connector,
    x.session.requests[index]? = some ⟨.write payload, .connected connector⟩ →
      ∃ c news accepted, x.session.connectors[connector]? = some c ∧
        (x.make (.stepRequest index)).session.callsTo connector = c.writes ++ news ∧
        (x.make (.stepRequest index)).session.result? index =
          some (if accepted then .delivered else .noTransport) ∧
        if c.isClosed then news = [] ∧ accepted = false
        else news = [⟨some index, payload, accepted⟩]

-- No request is lost, a result is final, and no call is forgotten. Once a disposal has taken the
-- connection, a request that had obtained none, or that is made later, cannot but end without one.
structure Keeps (x x' : Traffic) : Prop where
  requests : ∀ (index : Nat) (request : Request), x.session.requests[index]? = some request →
    ∃ request', x'.session.requests[index]? = some request' ∧ request'.errand = request.errand
  final : ∀ index result, x.session.result? index = some result →
    x'.session.result? index = some result
  calls : ∀ connector, x.session.callsTo connector <+: x'.session.callsTo connector
  released : x.Ended → ∀ (index : Nat) (request' : Request),
    x'.session.requests[index]? = some request' →
      (∀ request, x.session.requests[index]? = some request → request.phase = .waiting) →
        x'.session.result? index = some .noTransport ∨ request'.phase = .waiting ∧
          (x'.session.stepRequest index).result? index = some .noTransport

section Runs

variable {x x' : Traffic} {s : Session} {index : Nat}

theorem result?_stepRequest {request : Request} (hrequest : s.requests[index]? = some request)
    (hwaiting : request.phase = .waiting) (hlatch : s.latch = .disposed) :
    (s.stepRequest index).result? index = some .noTransport := by
  obtain ⟨errand, phase⟩ := request
  obtain rfl : phase = .waiting := hwaiting
  rw [Session.stepRequest_of_disposed hlatch hrequest]
  exact Session.result?_setPhase hrequest .noTransport

theorem Sound.single (h : x.Sound) : x.session.connectors.length ≤ 1 := by
  have hlength := h.starting.owners
  rw [Session.faults, List.length_map] at hlength
  rw [← hlength]
  exact h.starting.single

-- There is one record at most.
theorem Sound.once (h : x.Sound) :
    ((x.session.connectors.flatMap Connector.writes).filterMap WriteCall.sender).Nodup := by
  have hsingle := h.single
  have hfirst := h.handing.once 0
  rw [sendersTo, Session.callsTo] at hfirst
  cases hconnectors : x.session.connectors with
  | nil => exact List.nodup_nil
  | cons c rest =>
    rw [hconnectors, List.length_cons] at hsingle
    obtain rfl : rest = [] := List.eq_nil_of_length_eq_zero (by omega)
    rw [hconnectors] at hfirst
    simpa using hfirst

-- A request that has its connection writes, and has its result in the same step.
theorem Sound.served (h : x.Sound) {payload : Text} {connector : Nat}
    (hrequest : x.session.requests[index]? = some ⟨.write payload, .connected connector⟩) :
    ∃ c news accepted, x.session.connectors[connector]? = some c ∧
      (x.make (.stepRequest index)).session.callsTo connector = c.writes ++ news ∧
      (x.make (.stepRequest index)).session.result? index =
        some (if accepted then .delivered else .noTransport) ∧
      if c.isClosed then news = [] ∧ accepted = false
      else news = [⟨some index, payload, accepted⟩] := by
  obtain ⟨k, call, -, -, -, hfaults⟩ := h.handing.connected index _ connector hrequest rfl
  rw [Session.faults, List.getElem?_map, Option.map_eq_some_iff] at hfaults
  obtain ⟨c, hc, -⟩ := hfaults
  have hstep := Session.stepRequest_write hrequest
  rw [Session.callConnector_some hc] at hstep
  have hresult : ∀ (s : Session) (accepted : Bool), s.requests = x.session.requests →
      (s.setPhase index (Session.outcome accepted)).result? index =
        some (if accepted then .delivered else .noTransport) :=
    fun s accepted hsame => Session.result?_setPhase (hsame ▸ hrequest) _
  cases hclosed : c.isClosed with
  | true =>
    rw [Session.write_of_isClosed hclosed] at hstep
    refine ⟨c, [], false, hc, ?_, ?_, by simp [hclosed]⟩
    · rw [Traffic.make, hstep, List.append_nil]
      exact (Session.callsTo_set hc connector).trans (if_pos rfl)
    · rw [Traffic.make, hstep]
      exact hresult _ _ rfl
  | false =>
    rw [Session.write_of_isOpen hclosed] at hstep
    refine ⟨c, [⟨some index, payload, c.acceptsNext⟩], c.acceptsNext, hc, ?_, ?_, by simp [hclosed]⟩
    · rw [Traffic.make, hstep]
      exact (Session.callsTo_set hc connector).trans (if_pos rfl)
    · rw [Traffic.make, hstep]
      exact hresult _ _ rfl

theorem Sound.accounted (h : x.Sound) : x.Accounted where
  single := h.single
  once := h.once
  entrusted connector call hcall index hsender := by
    obtain ⟨hstarted, hrequest⟩ := h.handing.called connector call hcall index hsender
    exact ⟨hstarted, ⟨_, hrequest, rfl⟩, Session.result?_eq_some_iff.mpr ⟨_, hrequest, rfl⟩⟩
  delivered_iff index request payload hrequest herrand := by
    rw [Session.result?_eq_some_iff]
    constructor
    · rintro ⟨other, hother, hphase⟩
      obtain rfl := Option.some.inj (hrequest.symm.trans hother)
      obtain ⟨errand, phase⟩ := request
      obtain rfl : errand = .write payload := herrand
      obtain rfl : phase = .resolved .delivered := hphase
      exact h.handing.delivered index payload hrequest
    · rintro ⟨connector, hmem⟩
      exact ⟨_, (h.handing.called connector _ hmem index rfl).2, rfl⟩
  connects index errand connector hlatch hrequest := by
    rw [Traffic.make, Session.stepRequest_of_ready hlatch hrequest,
      Session.requests_setPhase _ hrequest, if_pos rfl]
  served _ _ _ hrequest := h.served hrequest

theorem Sound.keeps (h : x.Sound) (hon : Onward x.session x'.session) : x.Keeps x' where
  requests index request hrequest := by
    obtain ⟨phase, hnext, -⟩ := hon.requests index request hrequest
    exact ⟨_, hnext, rfl⟩
  final index result hresult := by
    obtain ⟨request, hrequest, hphase⟩ := Session.result?_eq_some_iff.mp hresult
    obtain ⟨phase, hnext, hfinal⟩ := hon.requests index request hrequest
    exact Session.result?_eq_some_iff.mpr ⟨_, hnext, hfinal result hphase⟩
  calls := hon.calls
  released hended index request' hrequest hbefore := by
    have hlatch := h.disposing.latch hended
    rcases hon.unserved hlatch index request' hrequest fun request hold =>
      .inl (hbefore request hold) with hwaiting | hresolved
    · exact .inr ⟨hwaiting, result?_stepRequest hrequest hwaiting (hon.latch hlatch)⟩
    · exact .inl (Session.result?_eq_some_iff.mpr ⟨request', hrequest, hresolved⟩)

theorem Sound.foldl (h : x.Sound) (moves : List Move) :
    (moves.foldl Traffic.make x).Sound ∧ Onward x.session (moves.foldl Traffic.make x).session := by
  induction moves generalizing x with
  | nil => exact ⟨h, onward_of_same rfl (fun _ => List.prefix_refl _) id⟩
  | cons m moves ih =>
    obtain ⟨hsound, hon⟩ := ih (h.make m)
    exact ⟨hsound, (onward_make x m).trans hon⟩

theorem sound_of_idle (hlatch : s.latch = .pending) (hdisposed : s.isDisposed = false)
    (hconnectors : s.connectors = []) (hrequests : s.requests = []) : Sound { session := s } where
  starting := by
    have hnone : ∀ k, ¬Holds { session := s } k := by
      rintro k ⟨call, hcall, -⟩
      cases hcall
    refine ⟨fun k _ hk => absurd hk (hnone k), fun k hk => absurd hk (hnone k), ?_, Nat.zero_le 1,
      by simp, by simp, fun _ hready => ?_⟩
    · simp [Session.faults, hconnectors]
    · rw [hlatch] at hready
      cases hready
  disposing := ⟨by simp, by simp [hdisposed]⟩
  handing := by
    have hcalls : ∀ connector, s.callsTo connector = [] := by
      simp [Session.callsTo, hconnectors]
    refine ⟨?_, ?_, ?_, fun connector => ?_⟩
    · simp [hrequests]
    · simp [hcalls]
    · simp [hrequests]
    · simp [sendersTo, hcalls]

theorem sound_new {hasRuntime : Bool} {settings : Settings}
    (h : Session.new hasRuntime settings = .ok s) : Sound { session := s } := by
  unfold Session.new at h
  split at h
  · obtain rfl := Except.ok.inj h
    exact sound_of_idle rfl rfl rfl rfl
  · cases h

end Runs

-- Whatever the order of starts, requests, disposals and their steps is, requests are accounted for at
-- every time and keep what they came to.
theorem requests_accounted {hasRuntime : Bool} {settings : Settings} {session : Session}
    (hnew : Session.new hasRuntime settings = .ok session) (moves more : List Move) :
    (moves.foldl make { session }).Accounted ∧
      (moves.foldl make { session }).Keeps (more.foldl make (moves.foldl make { session })) := by
  obtain ⟨hsound, -⟩ := (sound_new hnew).foldl moves
  exact ⟨hsound.accounted, hsound.keeps (hsound.foldl more).2⟩

-- A start fails and another one succeeds. The connector refuses the first request and accepts the
-- second one, and the third is still waiting when the session is disposed of.
def retried : List Move :=
  [.sendCommand ['a'], .typeKeys ['b'], .typeKeys ['c'], .callStart { takeReader := true },
      .callStart { answers := [false] }] ++
    List.replicate 4 (.stepStart 0) ++ List.replicate 6 (.stepStart 1) ++
      [.stepRequest 0, .stepRequest 1, .stepRequest 0, .stepRequest 1, .callDispose, .stepDispose 0,
        .stepDispose 0]

theorem requests_accounted_retried : ∃ session, Session.new true {} = .ok session ∧
    let x := retried.foldl make { session }
    let x' := [.typeKeys ['d'], .stepRequest 3, .stepRequest 2].foldl make x
    x.session.callsTo 0 = [⟨some 0, ['\x15', 'a', '\n'], false⟩, ⟨some 1, ['b'], true⟩] ∧
      x.session.result? 0 = some .noTransport ∧ x.session.result? 1 = some .delivered ∧
        x.session.result? 2 = none ∧ x'.session.result? 2 = some .noTransport ∧
          x'.session.result? 3 = some .noTransport ∧ x.Accounted ∧ x.Keeps x' := by
  have hnew : Session.new true {} = .ok _ := rfl
  exact ⟨_, hnew, by decide +kernel, by decide +kernel, by decide +kernel, by decide +kernel,
    by decide +kernel, by decide +kernel, requests_accounted hnew _ _⟩

end Traffic

end ShellTranscript
