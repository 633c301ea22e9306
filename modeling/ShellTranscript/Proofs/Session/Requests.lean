import Mathlib.Tactic.Common
import ShellTranscript.Proofs.Text.Cut
import ShellTranscript.Session.Lifecycle
import ShellTranscript.Session.Request

-- One step of a request: what it does to the request, to the connector and to all that others go by.
-- A request that waits looks at the latch, one that writes is resolved by the connector's answer, and
-- a resize is never delivered as a write.
namespace ShellTranscript

open Text

theorem getElem?_of_prefix {α : Type} {l l' : List α} (h : l <+: l') {i : Nat} {a : α}
    (hi : l[i]? = some a) : l'[i]? = some a := by
  obtain ⟨rest, rfl⟩ := h
  obtain ⟨hlt, -⟩ := List.getElem?_eq_some_iff.mp hi
  rw [List.getElem?_append_left hlt, hi]

theorem of_getElem?_concat {α : Type} {l : List α} {a b : α} {i : Nat}
    (hi : (l ++ [a])[i]? = some b) : l[i]? = some b ∨ b = a := by
  rw [List.getElem?_append] at hi
  split at hi
  · exact .inl hi
  · exact .inr (List.mem_singleton.mp (List.mem_of_getElem? hi))

namespace Session

def faults (s : Session) : List ConnectorFaults := s.connectors.map Connector.faults

-- The writes that a connector was called for.
def callsTo (s : Session) (connector : Nat) : List WriteCall :=
  (s.connectors[connector]?.map Connector.writes).getD []

-- Nothing happens to what starts and disposals go by.
structure Apart (s s' : Session) : Prop where
  isStarted : s'.isStarted = s.isStarted
  isDisposed : s'.isDisposed = s.isDisposed
  latch : s'.latch = s.latch
  faults : s'.faults = s.faults

-- Nor to requests.
structure Beside (s s' : Session) : Prop extends s.Apart s' where
  requests : s'.requests = s.requests

-- Nor does anyone write.
structure Aside (s s' : Session) : Prop extends s.Beside s' where
  calls : ∀ connector, s'.callsTo connector = s.callsTo connector

structure Posts (s : Session) (errand : Errand) (s' : Session) : Prop extends s.Apart s' where
  requests : s'.requests = s.requests ++ [⟨errand, .waiting⟩]
  calls : ∀ connector, s'.callsTo connector = s.callsTo connector

section Calls

variable (s : Session) (index : Nat)

theorem Aside.refl : s.Aside s := ⟨⟨⟨rfl, rfl, rfl, rfl⟩, rfl⟩, fun _ => rfl⟩

variable {s index} {c c' : Connector}

theorem beside_set (hc : s.connectors[index]? = some c) (hfaults : c'.faults = c.faults) :
    s.Beside { s with connectors := s.connectors.set index c' } := by
  obtain ⟨hindex, rfl⟩ := List.getElem?_eq_some_iff.mp hc
  refine ⟨⟨rfl, rfl, rfl, ?_⟩, rfl⟩
  show (s.connectors.set index c').map Connector.faults = s.connectors.map Connector.faults
  rw [List.map_set, hfaults, ← List.map_set, List.set_getElem_self]

theorem callsTo_set (hc : s.connectors[index]? = some c) (connector : Nat) :
    callsTo { s with connectors := s.connectors.set index c' } connector =
      if index = connector then c'.writes else s.callsTo connector := by
  obtain ⟨hindex, -⟩ := List.getElem?_eq_some_iff.mp hc
  simp only [callsTo, List.getElem?_set, hindex, if_true]
  split <;> rfl

theorem callsTo_eq (hc : s.connectors[index]? = some c) : s.callsTo index = c.writes := by
  rw [callsTo, hc]
  rfl

theorem callConnector_none (hc : s.connectors[index]? = none)
    (call : Connector → Connector × Bool) : s.callConnector index call = (s, false) := by
  rw [callConnector, hc]

theorem callConnector_some (hc : s.connectors[index]? = some c)
    (call : Connector → Connector × Bool) : s.callConnector index call =
      ({ s with connectors := s.connectors.set index (call c).1 }, (call c).2) := by
  rw [callConnector, hc]

theorem write_of_isClosed (hclosed : c.isClosed = true) (sender : Option Nat) (payload : Text) :
    c.write sender payload = (c, false) := by
  rw [Connector.write, if_pos hclosed]

theorem write_of_isOpen (hopen : c.isClosed = false) (sender : Option Nat) (payload : Text) :
    c.write sender payload =
      ({ c with writes := c.writes ++ [⟨sender, payload, c.acceptsNext⟩] }, c.acceptsNext) := by
  rw [Connector.write, if_neg (by simp [hopen])]

theorem faults_write (c : Connector) (sender : Option Nat) (payload : Text) :
    (c.write sender payload).1.faults = c.faults := by
  unfold Connector.write
  split <;> rfl

theorem fields_resize (c : Connector) (size : ScreenSize) : (c.resize size).1.faults = c.faults ∧
    (c.resize size).1.writes = c.writes := by
  unfold Connector.resize
  split <;> exact ⟨rfl, rfl⟩

theorem fields_close (c : Connector) : c.close.faults = c.faults ∧ c.close.writes = c.writes := by
  unfold Connector.close
  split <;> exact ⟨rfl, rfl⟩

variable (s index)

theorem aside_resize (size : ScreenSize) :
    s.Aside (s.callConnector index fun c => c.resize size).1 := by
  cases hc : s.connectors[index]? with
  | none =>
    rw [callConnector_none hc]
    exact .refl s
  | some c =>
    obtain ⟨hfaults, hwrites⟩ := fields_resize c size
    rw [callConnector_some hc]
    refine ⟨beside_set hc hfaults, fun connector => ?_⟩
    rw [callsTo_set hc, hwrites, ite_eq_right_iff]
    rintro rfl
    exact (callsTo_eq hc).symm

theorem aside_close : s.Aside (s.modifyConnector index Connector.close) := by
  have hfaults := map_modify (fun c => (fields_close c).1) s.connectors index
  have hwrites := map_modify (fun c => (fields_close c).2) s.connectors index
  refine ⟨⟨⟨rfl, rfl, rfl, hfaults⟩, rfl⟩, fun connector => ?_⟩
  rw [callsTo, callsTo, ← List.getElem?_map, ← List.getElem?_map]
  exact congrArg (fun writes => (writes[connector]?).getD []) hwrites

theorem beside_write (sender : Option Nat) (payload : Text) :
    s.Beside (s.callConnector index fun c => c.write sender payload).1 := by
  cases hc : s.connectors[index]? with
  | none =>
    rw [callConnector_none hc]
    exact (Aside.refl s).toBeside
  | some c =>
    rw [callConnector_some hc]
    exact beside_set hc (faults_write c sender payload)

-- A write fails without reaching its connector, or the connector notes this one call.
inductive Notes (sender : Option Nat) (payload : Text) : List WriteCall → Bool → Prop where
  | nothing : Notes sender payload [] false
  | call (accepted : Bool) : Notes sender payload [⟨sender, payload, accepted⟩] accepted

theorem Notes.sender {sender : Option Nat} {payload : Text} {news : List WriteCall} {accepted : Bool}
    (h : Notes sender payload news accepted) : ∀ call ∈ news, call.sender = sender := by
  cases h <;> simp

theorem notes_write (sender : Option Nat) (payload : Text) : ∃ news,
    Notes sender payload news (s.callConnector index fun c => c.write sender payload).2 ∧
      ∀ connector, (s.callConnector index fun c => c.write sender payload).1.callsTo connector =
        s.callsTo connector ++ if index = connector then news else [] := by
  cases hc : s.connectors[index]? with
  | none => exact ⟨[], callConnector_none hc _ ▸ .nothing, by simp [callConnector_none hc]⟩
  | some c =>
    rw [callConnector_some hc]
    cases hclosed : c.isClosed with
    | true =>
      rw [write_of_isClosed hclosed]
      refine ⟨[], .nothing, fun connector => ?_⟩
      rw [callsTo_set hc, ite_self, List.append_nil, ite_eq_right_iff]
      rintro rfl
      exact (callsTo_eq hc).symm
    | false =>
      rw [write_of_isOpen hclosed]
      refine ⟨_, .call c.acceptsNext, fun connector => ?_⟩
      rw [callsTo_set hc]
      split
      · rename_i heq
        rw [← heq, callsTo_eq hc]
      · rw [List.append_nil]

end Calls

-- What a connector's answer makes of a request.
def outcome (accepted : Bool) : RequestPhase :=
  .resolved (if accepted then .delivered else .noTransport)

-- What a step may make of a request, but for the step that writes.
structure Turns (s : Session) (request : Request) (phase : RequestPhase) : Prop where
  unresolved : ∀ result, request.phase ≠ .resolved result
  connected : ∀ connector, phase = .connected connector → s.latch = .ready connector
  undelivered : ∀ payload, request.errand = .write payload → phase ≠ .resolved .delivered
  resized : phase = .resolved .delivered → request.phase = .connectorResized
  released : request.phase = .waiting → s.latch = .disposed → phase = .resolved .noTransport

inductive Stepped (s : Session) (index : Nat) : Prop where
  | idle (hstep : s.stepRequest index = s)
  | write {connector : Nat} {payload : Text}
      (hrequest : s.requests[index]? = some ⟨.write payload, .connected connector⟩)
  | turn {request : Request} {phase : RequestPhase} {s' : Session}
      (hrequest : s.requests[index]? = some request) (haside : s.Aside s')
      (hturns : s.Turns request phase)
      (hstep : s.stepRequest index = s'.setPhase index phase)

section Stepped

variable {s s' : Session} {index : Nat} {errand : Errand} {phase : RequestPhase}

theorem requests_setPhase (phase : RequestPhase) {request : Request}
    (hrequest : s.requests[index]? = some request) (j : Nat) :
    (s.setPhase index phase).requests[j]? =
      if j = index then some { request with phase } else s.requests[j]? := by
  rw [setPhase, List.getElem?_modify]
  by_cases hj : j = index
  · subst hj
    simp [hrequest]
  · simp [hj, Ne.symm hj]

theorem result?_eq_some_iff {result : Delivery} : s.result? index = some result ↔
    ∃ request, s.requests[index]? = some request ∧ request.phase = .resolved result := by
  unfold result?
  cases s.requests[index]? with
  | none => simp
  | some request =>
    obtain ⟨errand, phase⟩ := request
    cases phase <;> simp

theorem result?_setPhase {request : Request} (hrequest : s.requests[index]? = some request)
    (result : Delivery) : (s.setPhase index (.resolved result)).result? index = some result :=
  result?_eq_some_iff.mpr ⟨_, by rw [requests_setPhase _ hrequest, if_pos rfl], rfl⟩

theorem result?_setPhase_ne {request : Request} (hrequest : s.requests[index]? = some request)
    {result : Delivery} (hphase : phase ≠ .resolved result) :
    (s.setPhase index phase).result? index ≠ some result := by
  rw [Ne, result?_eq_some_iff]
  rintro ⟨other, hother, hresolved⟩
  rw [requests_setPhase phase hrequest, if_pos rfl] at hother
  obtain rfl := Option.some.inj hother
  exact hphase hresolved

-- A request that has a connection goes on without a look at the latch.
theorem Stepped.later {before : RequestPhase}
    (hrequest : s.requests[index]? = some ⟨errand, before⟩) (haside : s.Aside s')
    (hstep : s.stepRequest index = s'.setPhase index phase)
    (hwaits : before ≠ .waiting) (hunresolved : ∀ result, before ≠ .resolved result)
    (hconnected : ∀ connector, phase ≠ .connected connector)
    (hundelivered : ∀ payload, errand = .write payload → phase ≠ .resolved .delivered)
    (hresized : phase = .resolved .delivered → before = .connectorResized) : s.Stepped index :=
  .turn hrequest haside ⟨hunresolved, fun connector h => absurd h (hconnected connector),
    hundelivered, hresized, fun h => absurd h hwaits⟩ hstep

theorem stepRequest_of_ready {connector : Nat} (hlatch : s.latch = .ready connector)
    (hrequest : s.requests[index]? = some ⟨errand, .waiting⟩) :
    s.stepRequest index = s.setPhase index (.connected connector) := by
  simp [stepRequest, hrequest, hlatch, Latch.answer?]

theorem stepRequest_of_disposed (hlatch : s.latch = .disposed)
    (hrequest : s.requests[index]? = some ⟨errand, .waiting⟩) :
    s.stepRequest index = s.setPhase index (.resolved .noTransport) := by
  simp [stepRequest, hrequest, hlatch, Latch.answer?, resolve]

theorem stepRequest_write {connector : Nat} {payload : Text}
    (hrequest : s.requests[index]? = some ⟨.write payload, .connected connector⟩) :
    s.stepRequest index =
      (s.callConnector connector fun c => c.write (some index) payload).1.setPhase index
        (outcome (s.callConnector connector fun c => c.write (some index) payload).2) := by
  simp [stepRequest, hrequest, stepConnected, resolve, outcome]

theorem stepped_waiting (hrequest : s.requests[index]? = some ⟨errand, .waiting⟩) :
    s.Stepped index := by
  cases hlatch : s.latch with
  | pending => exact .idle (by simp [stepRequest, hrequest, hlatch, Latch.answer?])
  | ready connector =>
    have hturns : s.Turns ⟨errand, .waiting⟩ (.connected connector) :=
      ⟨by simp, by simp [hlatch], by simp, by simp, by simp [hlatch]⟩
    exact .turn hrequest (.refl s) hturns (stepRequest_of_ready hlatch hrequest)
  | disposed =>
    exact .turn hrequest (.refl s) ⟨by simp, by simp, by simp, by simp, by simp⟩
      (stepRequest_of_disposed hlatch hrequest)

theorem stepped_connected {connector : Nat} {size : ScreenSize}
    (hrequest : s.requests[index]? = some ⟨.resize size, .connected connector⟩) :
    s.Stepped index := by
  have hstep : s.stepRequest index = s.stepConnected index connector (.resize size) := by
    simp [stepRequest, hrequest]
  unfold stepConnected at hstep
  split at hstep
  · cases ‹Errand.resize size = _›
  split at hstep
  · exact .later hrequest (.refl s) hstep (by simp) (by simp) (by simp) (by simp) (by simp)
  · exact .later hrequest (.refl s) hstep (by simp) (by simp) (by simp) (by simp) (by simp)

theorem stepped_unpredicted {connector : Nat}
    (hrequest : s.requests[index]? = some ⟨errand, .unpredicted connector⟩) :
    s.Stepped index := by
  have hstep : s.stepRequest index = s.stepUnpredicted index connector errand := by
    simp [stepRequest, hrequest]
  cases errand with
  | write payload =>
    exact .later hrequest (.refl s) hstep (by simp) (by simp) (by simp) (by simp) (by simp)
  | resize size =>
    simp only [stepUnpredicted] at hstep
    have haside := s.aside_resize connector size
    split at hstep
    · exact .later hrequest haside hstep (by simp) (by simp) (by simp) (by simp) (by simp)
    · exact .later hrequest haside hstep (by simp) (by simp) (by simp) (by simp) (by simp)

theorem stepped (s : Session) (index : Nat) : s.Stepped index := by
  cases hrequest : s.requests[index]? with
  | none => exact .idle (by simp [stepRequest, hrequest])
  | some request =>
    obtain ⟨errand, phase⟩ := request
    cases phase with
    | waiting => exact stepped_waiting hrequest
    | connected connector =>
      cases errand with
      | write payload => exact .write hrequest
      | resize size => exact stepped_connected hrequest
    | differing connector =>
      have hstep : s.stepRequest index =
          (s.modifyEcho EchoPredictor.clear).setPhase index (.unpredicted connector) := by
        simp [stepRequest, hrequest]
      have haside : s.Aside (s.modifyEcho EchoPredictor.clear) :=
        ⟨⟨⟨rfl, rfl, rfl, rfl⟩, rfl⟩, fun _ => rfl⟩
      exact .later hrequest haside hstep (by simp) (by simp) (by simp) (by simp) (by simp)
    | unpredicted connector => exact stepped_unpredicted hrequest
    | connectorResized =>
      have hstep : s.stepRequest index = s.stepConnectorResized index errand := by
        simp [stepRequest, hrequest]
      cases errand with
      | write payload =>
        exact .later hrequest (.refl s) hstep (by simp) (by simp) (by simp) (by simp) (by simp)
      | resize size =>
        have haside : s.Aside (s.withTerminal (s.terminal.resize size)) :=
          ⟨⟨⟨rfl, rfl, rfl, rfl⟩, rfl⟩, fun _ => rfl⟩
        exact .later hrequest haside hstep (by simp) (by simp) (by simp) (by simp) (by simp)
    | resolved result => exact .idle (by simp [stepRequest, hrequest])

theorem apart_stepRequest (s : Session) (index : Nat) : s.Apart (s.stepRequest index) := by
  cases s.stepped index with
  | idle hstep =>
    rw [hstep]
    exact (Aside.refl s).toApart
  | @write connector payload hrequest =>
    have hbeside := s.beside_write connector (some index) payload
    rw [stepRequest_write hrequest]
    exact ⟨hbeside.isStarted, hbeside.isDisposed, hbeside.latch, hbeside.faults⟩
  | turn _ haside _ hstep =>
    rw [hstep]
    exact ⟨haside.isStarted, haside.isDisposed, haside.latch, haside.faults⟩

end Stepped

def commandPayload (command : Text) : Text :=
  eraseLine :: dropEndWhile isLineEnd command ++ ['\n']

theorem posts_sendCommand (s : Session) (command : Text) :
    s.Posts (.write (commandPayload command)) (s.sendCommand command) :=
  ⟨⟨rfl, rfl, rfl, rfl⟩, rfl, fun _ => rfl⟩

theorem posts_resize (s : Session) (size : ScreenSize) : s.Posts (.resize size) (s.resize size) :=
  ⟨⟨rfl, rfl, rfl, rfl⟩, rfl, fun _ => rfl⟩

theorem posts_typeKeys (s : Session) (typed : Text) :
    s.Posts (.write typed) (s.typeKeys typed) := by
  unfold typeKeys
  dsimp only
  split <;> exact ⟨⟨rfl, rfl, rfl, rfl⟩, rfl, fun _ => rfl⟩

end Session

end ShellTranscript
