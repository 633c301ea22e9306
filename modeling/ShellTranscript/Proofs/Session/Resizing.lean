import ShellTranscript.Proofs.Session.Requests

-- Several resizes at the same time. A resize changes the connector first and the terminal in a later
-- step, and others may take their steps in between. One that is delivered changes each of them once,
-- but the last to change the connector is not always the last to change the terminal.
namespace ShellTranscript

-- A resize that a connector or a terminal went through, and the request that made it.
structure Change where
  request : Nat
  size : ScreenSize
deriving DecidableEq

namespace Session

-- The sizes that a connector was given, oldest first.
def givenTo (s : Session) (connector : Nat) : List ScreenSize :=
  (s.connectors[connector]?.map Connector.resized).getD []

-- A connector that takes every size.
def Resizes (s : Session) (connector : Nat) : Prop :=
  ∃ c, s.connectors[connector]? = some c ∧ c.isClosed = false ∧ c.faults.resize = false

def IsSettled (s : Session) : Prop := ∀ request ∈ s.requests, ∃ result, request.phase = .resolved result

-- A session that was started, with no request under way.
structure IsAtRest (s : Session) (connector : Nat) : Prop where
  latch : s.latch = .ready connector
  resizes : s.Resizes connector
  settled : s.IsSettled

-- The sizes that connectors were given in a step of a request.
def connectorChanges (s s' : Session) (index : Nat) : List Change :=
  (List.range s.connectors.length).flatMap fun connector =>
    ((s'.givenTo connector).drop (s.givenTo connector).length).map fun size => ⟨index, size⟩

-- The size that the terminal has when a step delivers a request.
def terminalChanges (s s' : Session) (index : Nat) : List Change :=
  if s.result? index = none ∧ s'.result? index = some .delivered then [⟨index, s'.terminal.size⟩]
  else []

-- The sizes of the connector and of the terminal agree.
def Agrees (s : Session) (connector : Nat) : Prop :=
  (s.givenTo connector).getLast? = some s.terminal.size

section Changes

variable {s s' : Session} {index connector : Nat}

theorem connectorChanges_of_same (hconnectors : s'.connectors = s.connectors) :
    s.connectorChanges s' index = [] := by
  have hgiven : ∀ connector, s'.givenTo connector = s.givenTo connector := by
    simp [givenTo, hconnectors]
  simp [connectorChanges, hgiven]

-- Only what one connector was given is left.
theorem flatMap_range_of_ne {α : Type} {f : Nat → List α} {i : Nat} (hf : ∀ j, j ≠ i → f j = [])
    {n : Nat} (hi : i < n) : (List.range n).flatMap f = f i := by
  induction n with
  | zero => omega
  | succ n ih =>
    rw [List.range_succ, List.flatMap_append, List.flatMap_singleton]
    rcases Nat.lt_or_eq_of_le (Nat.le_of_lt_succ hi) with hlt | rfl
    · rw [ih hlt, hf n (by omega), List.append_nil]
    · have hnone : (List.range i).flatMap f = [] := by
        simp only [List.flatMap_eq_nil_iff, List.mem_range]
        exact fun j hj => hf j (by omega)
      rw [hnone, List.nil_append]

theorem terminalChanges_of_undelivered (h : s'.result? index ≠ some .delivered) :
    s.terminalChanges s' index = [] := by
  rw [terminalChanges, if_neg fun hboth => h hboth.2]

theorem terminalChanges_of_resolved {result : Delivery} (h : s.result? index = some result) :
    s.terminalChanges s' index = [] := by
  rw [terminalChanges, if_neg fun hboth => by simp [h] at hboth]

end Changes

theorem Resizes.resize {s : Session} {connector : Nat} (h : s.Resizes connector)
    (size : ScreenSize) : ∃ connectors,
      (s.callConnector connector fun c => c.resize size) = ({ s with connectors }, true) ∧
      Resizes { s with connectors } connector ∧
      givenTo { s with connectors } connector = s.givenTo connector ++ [size] ∧
      ∀ s' : Session, s'.connectors = connectors → ∀ index,
        s.connectorChanges s' index = [⟨index, size⟩] := by
  obtain ⟨c, hc, hopen, hworks⟩ := h
  obtain ⟨hindex, hget⟩ := List.getElem?_eq_some_iff.mp hc
  have hresize : c.resize size = ({ c with resized := c.resized ++ [size] }, true) := by
    simp [Connector.resize, hopen, hworks]
  refine ⟨s.connectors.set connector { c with resized := c.resized ++ [size] }, ?_, ?_, ?_, ?_⟩
  · rw [callConnector_some hc, hresize]
  · exact ⟨{ c with resized := c.resized ++ [size] }, by simp [hindex], hopen, hworks⟩
  · simp [givenTo, hindex, hget]
  · intro s' hconnectors index
    have hgiven : ∀ j, s'.givenTo j =
        if j = connector then c.resized ++ [size] else s.givenTo j := by
      intro j
      by_cases hj : j = connector
      · subst hj
        simp [givenTo, hconnectors, hindex]
      · simp [givenTo, hconnectors, hj, List.getElem?_set_ne (Ne.symm hj)]
    have hothers : ∀ j, j ≠ connector →
        ((s'.givenTo j).drop (s.givenTo j).length).map (Change.mk index) = [] := by
      intro j hj
      rw [hgiven, if_neg hj, List.drop_length, List.map_nil]
    have hbefore : s.givenTo connector = c.resized := by rw [givenTo, hc]; rfl
    refine (flatMap_range_of_ne hothers hindex).trans ?_
    rw [hgiven, if_pos rfl, hbefore, List.drop_left]
    rfl

end Session

-- A session with the changes so far, oldest first.
structure Resizing where
  session : Session
  onConnector : List Change := []
  onTerminal : List Change := []

namespace Resizing

inductive Move where
  | post (size : ScreenSize)
  | step (index : Nat)

def make (x : Resizing) : Move → Resizing
  | .post size => { x with session := x.session.resize size }
  | .step index =>
    let s := x.session.stepRequest index
    { session := s
      onConnector := x.onConnector ++ x.session.connectorChanges s index
      onTerminal := x.onTerminal ++ x.session.terminalChanges s index }

def run (x : Resizing) (moves : List Move) : Resizing := moves.foldl make x

-- How often a request has changed the connector and the terminal.
inductive Course (connector : Nat) : RequestPhase → Nat → Nat → Prop where
  | waiting : Course connector .waiting 0 0
  | connected : Course connector (.connected connector) 0 0
  | differing : Course connector (.differing connector) 0 0
  | unpredicted : Course connector (.unpredicted connector) 0 0
  | connectorResized : Course connector .connectorResized 1 0
  | delivered : Course connector (.resolved .delivered) 1 1
  | skipped : Course connector (.resolved .skipped) 0 0

section Course

variable {connector m n : Nat} {phase : RequestPhase} {result : Delivery}

theorem Course.eq_of_resolved (h : Course connector (.resolved result) m n) : m = n := by
  cases h <;> rfl

theorem Course.of_delivered (h : Course connector (.resolved .delivered) m n) : m = 1 ∧ n = 1 := by
  cases h
  exact ⟨rfl, rfl⟩

theorem Course.of_connectorResized (h : Course connector .connectorResized m n) :
    m = 1 ∧ n = 0 := by
  cases h
  exact ⟨rfl, rfl⟩

theorem Course.of_lt (h : Course connector phase m n) (hlt : n < m) :
    phase = .connectorResized ∧ m = 1 := by
  cases h with
  | connectorResized => exact ⟨rfl, rfl⟩
  | _ => omega

end Course

-- The sizes are those of the last changes.
structure Sized (s : Session) (connector : Nat) (x : Resizing) : Prop where
  latch : x.session.latch = .ready connector
  resizes : x.session.Resizes connector
  given : x.session.givenTo connector = s.givenTo connector ++ x.onConnector.map Change.size
  size : x.session.terminal.size = (x.onTerminal.getLast?.map Change.size).getD s.terminal.size

-- Every change is one of a request that was posted since.
structure Kept (s : Session) (connector : Nat) (x : Resizing) : Prop where
  earlier : ∀ (index : Nat) request, s.requests[index]? = some request →
    x.session.requests[index]? = some request
  posted : ∀ (index : Nat) request, s.requests.length ≤ index →
    x.session.requests[index]? = some request → ∃ size, request.errand = .resize size ∧
      Course connector request.phase (x.onConnector.count ⟨index, size⟩)
        (x.onTerminal.count ⟨index, size⟩)
  requested : ∀ e, e ∈ x.onConnector ∨ e ∈ x.onTerminal → s.requests.length ≤ e.request ∧
    ∃ phase, x.session.requests[e.request]? = some ⟨.resize e.size, phase⟩

structure Sound (s : Session) (connector : Nat) (x : Resizing) : Prop extends
  Sized s connector x, Kept s connector x

section Steps

variable {s s' : Session} {connector index : Nat} {x : Resizing} {size : ScreenSize}
  {before phase : RequestPhase}

theorem Sound.start (hrest : s.IsAtRest connector) : Sound s connector { session := s } where
  latch := hrest.latch
  resizes := hrest.resizes
  given := (List.append_nil _).symm
  size := rfl
  earlier _ _ := id
  posted index request hindex hrequest := by
    rw [List.getElem?_eq_none hindex] at hrequest
    cases hrequest
  requested e he := by simp at he

theorem Kept.course (h : Kept s connector x) {e : Change} (hindex : s.requests.length ≤ e.request)
    (hrequest : x.session.requests[e.request]? = some ⟨.resize e.size, phase⟩) :
    Course connector phase (x.onConnector.count e) (x.onTerminal.count e) := by
  obtain ⟨size, herrand, hcourse⟩ := h.posted _ _ hindex hrequest
  cases herrand
  exact hcourse

theorem Kept.post (h : Kept s connector x) (size : ScreenSize) :
    Kept s connector (x.make (.post size)) := by
  have hrequests : (x.make (.post size)).session.requests =
      x.session.requests ++ [⟨.resize size, .waiting⟩] := rfl
  have hkept : ∀ (index : Nat) request, x.session.requests[index]? = some request →
      (x.make (.post size)).session.requests[index]? = some request := by
    rw [hrequests]
    exact fun index request hrequest => getElem?_of_prefix (List.prefix_append _ _) hrequest
  refine ⟨fun index request hrequest => hkept _ _ (h.earlier _ _ hrequest),
    fun index request hindex hrequest => ?_, fun e he => ?_⟩
  · rw [hrequests, List.getElem?_append] at hrequest
    split at hrequest
    · exact h.posted index request hindex hrequest
    -- No change is ascribed to a request that has just been posted.
    · rename_i hnew
      obtain ⟨-, rfl⟩ : index - x.session.requests.length = 0 ∧
          (⟨.resize size, .waiting⟩ : Request) = request := by
        simpa [List.getElem?_singleton] using hrequest
      have hnone : ∀ e : Change, e.request = index → ¬(e ∈ x.onConnector ∨ e ∈ x.onTerminal) := by
        rintro e rfl he
        obtain ⟨-, phase, hphase⟩ := h.requested e he
        exact hnew (List.getElem?_eq_some_iff.mp hphase).1
      have hfree := not_or.mp (hnone ⟨index, size⟩ rfl)
      refine ⟨size, rfl, ?_⟩
      show Course connector .waiting (x.onConnector.count _) (x.onTerminal.count _)
      rw [List.count_eq_zero_of_not_mem hfree.1, List.count_eq_zero_of_not_mem hfree.2]
      exact .waiting
  · obtain ⟨hindex, phase, hphase⟩ := h.requested e he
    exact ⟨hindex, phase, hkept _ _ hphase⟩

-- A request goes on, and makes some changes on the way.
theorem Kept.turn (h : Kept s connector x) (hindex : s.requests.length ≤ index)
    (hrequest : x.session.requests[index]? = some ⟨.resize size, before⟩)
    (hrequests : s'.requests = x.session.requests) (m n : Nat)
    (hcourse : Course connector phase (x.onConnector.count ⟨index, size⟩ + m)
      (x.onTerminal.count ⟨index, size⟩ + n)) :
    Kept s connector
      { session := s'.setPhase index phase
        onConnector := x.onConnector ++ List.replicate m ⟨index, size⟩
        onTerminal := x.onTerminal ++ List.replicate n ⟨index, size⟩ } := by
  have hget := Session.requests_setPhase phase (s := s') (hrequests ▸ hrequest)
  rw [hrequests] at hget
  refine ⟨fun j request hearlier => ?_, fun j request hj hother => ?_, fun e he => ?_⟩
  · obtain ⟨hj, -⟩ := List.getElem?_eq_some_iff.mp hearlier
    rw [hget, if_neg (by omega)]
    exact h.earlier j request hearlier
  · rw [hget] at hother
    split at hother
    · rename_i heq
      subst heq
      obtain rfl := Option.some.inj hother
      exact ⟨size, rfl, by simpa using hcourse⟩
    · rename_i hne
      obtain ⟨other, herrand, hcourse'⟩ := h.posted j request hj hother
      refine ⟨other, herrand, ?_⟩
      simpa [List.count_append, List.count_replicate, Ne.symm hne] using hcourse'
  · rw [hget]
    by_cases heq : e = ⟨index, size⟩
    · subst heq
      exact ⟨hindex, phase, by simp⟩
    · have hbefore : e ∈ x.onConnector ∨ e ∈ x.onTerminal := by
        simpa [List.mem_append, List.mem_replicate, heq] using he
      obtain ⟨hknown, phase', hphase⟩ := h.requested e hbefore
      refine ⟨hknown, ?_⟩
      split
      · rename_i hsame
        rw [hsame, hrequest] at hphase
        cases hphase
        exact absurd (by cases e; cases hsame; rfl) heq
      · exact ⟨phase', hphase⟩

theorem make_idle (hstep : x.session.stepRequest index = x.session) :
    x.make (.step index) = x := by
  have hconnector : x.session.connectorChanges x.session index = [] :=
    Session.connectorChanges_of_same rfl
  have hterminal : x.session.terminalChanges x.session index = [] := by
    rw [Session.terminalChanges, if_neg fun hboth => by simp [hboth.1] at hboth]
  simp [make, hstep, hconnector, hterminal]

theorem make_resolved {request : Request} {result : Delivery}
    (hrequest : x.session.requests[index]? = some request)
    (hphase : request.phase = .resolved result) : x.make (.step index) = x := by
  obtain ⟨errand, phase⟩ := request
  cases hphase
  exact make_idle (by simp [Session.stepRequest, hrequest])

-- A step that changes neither the connector nor the terminal.
theorem Sound.turn (h : Sound s connector x) (hindex : s.requests.length ≤ index)
    (hrequest : x.session.requests[index]? = some ⟨.resize size, before⟩)
    (hundelivered : phase ≠ .resolved .delivered)
    (hstep : x.session.stepRequest index = s'.setPhase index phase)
    (hrequests : s'.requests = x.session.requests) (hlatch : s'.latch = x.session.latch)
    (hconnectors : s'.connectors = x.session.connectors)
    (hsize : s'.terminal.size = x.session.terminal.size)
    (hcourse : Course connector phase (x.onConnector.count ⟨index, size⟩)
      (x.onTerminal.count ⟨index, size⟩)) : Sound s connector (x.make (.step index)) := by
  have hconnector : x.session.connectorChanges (s'.setPhase index phase) index = [] :=
    Session.connectorChanges_of_same hconnectors
  have hresult : (s'.setPhase index phase).result? index ≠ some .delivered :=
    Session.result?_setPhase_ne (hrequests ▸ hrequest) hundelivered
  have hmake : x.make (.step index) = { x with session := s'.setPhase index phase } := by
    simp [make, hstep, hconnector, Session.terminalChanges_of_undelivered hresult]
  have hkept := h.toKept.turn hindex hrequest hrequests 0 0 hcourse
  simp only [List.replicate_zero, List.append_nil] at hkept
  rw [hmake]
  refine ⟨⟨hlatch.trans h.latch, ?_, ?_, hsize.trans h.size⟩, hkept⟩
  · obtain ⟨c, hc, htakes⟩ := h.resizes
    exact ⟨c, by rw [← hc, ← hconnectors]; rfl, htakes⟩
  · rw [← h.given, Session.givenTo, Session.givenTo, ← hconnectors]
    rfl

theorem Sound.stepUnpredicted (h : Sound s connector x) (hindex : s.requests.length ≤ index)
    (hrequest : x.session.requests[index]? = some ⟨.resize size, .unpredicted connector⟩)
    (hnone : x.onConnector.count ⟨index, size⟩ = 0 ∧ x.onTerminal.count ⟨index, size⟩ = 0) :
    Sound s connector (x.make (.step index)) := by
  obtain ⟨connectors, hcall, hresizes, hgiven, hchanges⟩ := h.resizes.resize size
  have hstep : x.session.stepRequest index =
      Session.setPhase { x.session with connectors } index .connectorResized := by
    simp [Session.stepRequest, Session.stepUnpredicted, hrequest, hcall]
  have hresult :
      (Session.setPhase { x.session with connectors } index .connectorResized).result? index ≠
        some .delivered :=
    Session.result?_setPhase_ne (s := { x.session with connectors }) hrequest (by simp)
  have hmake : x.make (.step index) =
      { session := { x.session with connectors }.setPhase index .connectorResized
        onConnector := x.onConnector ++ [⟨index, size⟩]
        onTerminal := x.onTerminal } := by
    have hconnector := hchanges (Session.setPhase { x.session with connectors } index
      .connectorResized) rfl index
    simp [make, hstep, hconnector, Session.terminalChanges_of_undelivered hresult]
  have hrequests : Session.requests { x.session with connectors } = x.session.requests := rfl
  have hkept := h.toKept.turn hindex hrequest hrequests 1 0
    (by rw [hnone.1, hnone.2]; exact .connectorResized)
  simp only [List.replicate_zero, List.append_nil] at hkept
  rw [hmake]
  refine ⟨⟨h.latch, hresizes, ?_, h.size⟩, hkept⟩
  rw [List.map_append, ← List.append_assoc, ← h.given]
  exact hgiven

theorem make_connectorResized
    (hrequest : x.session.requests[index]? = some ⟨.resize size, .connectorResized⟩) :
    x.make (.step index) =
      { session := (x.session.withTerminal (x.session.terminal.resize size)).setPhase index
          (.resolved .delivered)
        onConnector := x.onConnector
        onTerminal := x.onTerminal ++ [⟨index, size⟩] } := by
  have hstep : x.session.stepRequest index =
      (x.session.withTerminal (x.session.terminal.resize size)).setPhase index
        (.resolved .delivered) := by
    simp [Session.stepRequest, Session.stepConnectorResized, Session.resolve, hrequest]
  have hbefore : x.session.result? index = none := by simp [Session.result?, hrequest]
  have hafter : (x.session.stepRequest index).result? index = some .delivered := by
    rw [hstep]
    exact Session.result?_setPhase (s := x.session.withTerminal _) hrequest .delivered
  have hconnector : x.session.connectorChanges (x.session.stepRequest index) index = [] := by
    rw [hstep]
    exact Session.connectorChanges_of_same rfl
  have hterminal : x.session.terminalChanges (x.session.stepRequest index) index =
      [⟨index, size⟩] := by
    rw [Session.terminalChanges, if_pos ⟨hbefore, hafter⟩, hstep]
    rfl
  rw [make, hconnector, hterminal, List.append_nil, hstep]

theorem Sound.stepConnectorResized (h : Sound s connector x) (hindex : s.requests.length ≤ index)
    (hrequest : x.session.requests[index]? = some ⟨.resize size, .connectorResized⟩)
    (hone : x.onConnector.count ⟨index, size⟩ = 1 ∧ x.onTerminal.count ⟨index, size⟩ = 0) :
    Sound s connector (x.make (.step index)) := by
  have hrequests : (x.session.withTerminal (x.session.terminal.resize size)).requests =
      x.session.requests := rfl
  have hkept := h.toKept.turn hindex hrequest hrequests 0 1
    (by rw [hone.1, hone.2]; exact .delivered)
  simp only [List.replicate_zero, List.append_nil] at hkept
  rw [make_connectorResized hrequest]
  refine ⟨⟨h.latch, h.resizes, h.given, ?_⟩, hkept⟩
  rw [List.getLast?_concat]
  rfl

theorem Sound.stepPosted (h : Sound s connector x) (hindex : s.requests.length ≤ index)
    (hrequest : x.session.requests[index]? = some ⟨.resize size, before⟩)
    (hcourse : Course connector before (x.onConnector.count ⟨index, size⟩)
      (x.onTerminal.count ⟨index, size⟩)) : Sound s connector (x.make (.step index)) := by
  generalize hm : x.onConnector.count ⟨index, size⟩ = m at hcourse
  generalize hn : x.onTerminal.count ⟨index, size⟩ = n at hcourse
  cases hcourse with
  | waiting =>
    have hstep := Session.stepRequest_of_ready h.latch hrequest
    exact h.turn hindex hrequest (by simp) hstep rfl rfl rfl rfl
      (by rw [hm, hn]; exact .connected)
  | connected =>
    have hstep : x.session.stepRequest index = x.session.setPhase index
        (if x.session.terminal.size = size then .resolved .skipped else .differing connector) := by
      simp only [Session.stepRequest, hrequest, Session.stepConnected, Session.resolve]
      split <;> rfl
    refine h.turn hindex hrequest (by split <;> simp) hstep rfl rfl rfl rfl ?_
    rw [hm, hn]
    split
    · exact .skipped
    · exact .differing
  | differing =>
    have hstep : x.session.stepRequest index =
        (x.session.modifyEcho EchoPredictor.clear).setPhase index (.unpredicted connector) := by
      simp [Session.stepRequest, hrequest]
    exact h.turn hindex hrequest (by simp) hstep rfl rfl rfl rfl
      (by rw [hm, hn]; exact .unpredicted)
  | unpredicted => exact h.stepUnpredicted hindex hrequest ⟨hm, hn⟩
  | connectorResized => exact h.stepConnectorResized hindex hrequest ⟨hm, hn⟩
  | delivered => exact (make_resolved hrequest rfl).symm ▸ h
  | skipped => exact (make_resolved hrequest rfl).symm ▸ h

theorem Kept.resolved (h : Kept s connector x) (hsettled : s.IsSettled)
    (hindex : index < s.requests.length) : ∃ request result,
      x.session.requests[index]? = some request ∧ request.phase = .resolved result := by
  obtain ⟨result, hphase⟩ := hsettled _ (List.getElem_mem hindex)
  exact ⟨_, result, h.earlier index _ (List.getElem?_eq_getElem hindex), hphase⟩

theorem Sound.step (h : Sound s connector x) (hsettled : s.IsSettled) (index : Nat) :
    Sound s connector (x.make (.step index)) := by
  rcases Nat.lt_or_ge index s.requests.length with hearlier | hindex
  · obtain ⟨request, result, hrequest, hphase⟩ := h.resolved hsettled hearlier
    exact (make_resolved hrequest hphase).symm ▸ h
  · cases hrequest : x.session.requests[index]? with
    | none =>
      have hidle : x.make (.step index) = x := make_idle (by simp [Session.stepRequest, hrequest])
      exact hidle.symm ▸ h
    | some request =>
      obtain ⟨errand, before⟩ := request
      obtain ⟨size, rfl, hcourse⟩ := h.posted index _ hindex hrequest
      exact h.stepPosted hindex hrequest hcourse

theorem Sound.make (h : Sound s connector x) (hsettled : s.IsSettled) (move : Move) :
    Sound s connector (x.make move) := by
  cases move with
  | post size => exact ⟨⟨h.latch, h.resizes, h.given, h.size⟩, h.toKept.post size⟩
  | step index => exact h.step hsettled index

end Steps

section Runs

variable {s : Session} {connector : Nat} {x : Resizing}

theorem Sound.run (h : Sound s connector x) (hsettled : s.IsSettled) (moves : List Move) :
    Sound s connector (x.run moves) := by
  induction moves generalizing x with
  | nil => exact h
  | cons move moves ih => exact ih (h.make hsettled move)

-- A request that is resolved has changed both or none.
theorem Kept.perm (h : Kept s connector x) (hsettled : x.session.IsSettled) :
    x.onConnector.Perm x.onTerminal := by
  rw [List.perm_iff_count]
  intro e
  by_cases he : e ∈ x.onConnector ∨ e ∈ x.onTerminal
  · obtain ⟨hindex, phase, hrequest⟩ := h.requested e he
    obtain ⟨result, rfl⟩ := hsettled _ (List.mem_of_getElem? hrequest)
    exact (h.course hindex hrequest).eq_of_resolved
  · obtain ⟨hconnector, hterminal⟩ := not_or.mp he
    rw [List.count_eq_zero_of_not_mem hconnector, List.count_eq_zero_of_not_mem hterminal]

theorem Kept.exists_last (h : Kept s connector x) {index : Nat} (hindex : s.requests.length ≤ index)
    (hdelivered : x.session.result? index = some .delivered) : ∃ fast slow,
      x.onConnector.getLast? = some fast ∧ x.onTerminal.getLast? = some slow := by
  obtain ⟨request, hrequest, hphase⟩ := Session.result?_eq_some_iff.mp hdelivered
  obtain ⟨size, -, hcourse⟩ := h.posted index request hindex hrequest
  rw [hphase] at hcourse
  obtain ⟨hconnector, hterminal⟩ := hcourse.of_delivered
  have hnonempty : x.onConnector ≠ [] ∧ x.onTerminal ≠ [] :=
    ⟨List.ne_nil_of_mem (List.count_pos_iff.mp (hconnector ▸ Nat.one_pos)),
      List.ne_nil_of_mem (List.count_pos_iff.mp (hterminal ▸ Nat.one_pos))⟩
  exact ⟨_, _, List.getLast?_eq_some_getLast hnonempty.1,
    List.getLast?_eq_some_getLast hnonempty.2⟩

-- The last change of the connector and the last change of the terminal decide.
theorem Sized.agrees_iff_size (h : Sized s connector x) {fast slow : Change}
    (hconnector : x.onConnector.getLast? = some fast) (hterminal : x.onTerminal.getLast? = some slow) :
    x.session.Agrees connector ↔ fast.size = slow.size := by
  obtain ⟨front, hfront⟩ := List.getLast?_eq_some_iff.mp hconnector
  have hgiven : (x.session.givenTo connector).getLast? = some fast.size := by
    rw [h.given, hfront, List.map_append, ← List.append_assoc]
    exact List.getLast?_concat
  rw [Session.Agrees, hgiven, h.size, hterminal]
  exact Option.some_inj

end Runs

-- The slow request comes to the connector before the fast one, which is the last to come there, and
-- the last to come to the terminal is the slow one.
structure Crossed (x : Resizing) (slow fast : Change) : Prop where
  connector : [slow, fast].Sublist x.onConnector
  terminal : [fast, slow].Sublist x.onTerminal
  lastOnConnector : x.onConnector.getLast? = some fast
  lastOnTerminal : x.onTerminal.getLast? = some slow

theorem pair_sublist {l : List Change} {e last : Change} (hlast : l.getLast? = some last)
    (he : e ∈ l) (hne : e ≠ last) : [e, last].Sublist l := by
  obtain ⟨front, rfl⟩ := List.getLast?_eq_some_iff.mp hlast
  have hfront : e ∈ front := by simpa [hne] using he
  exact (List.singleton_sublist.mpr hfront).append_right [last]

-- When all requests are resolved and some were delivered, the sizes disagree exactly if a request
-- was overtaken on its way from the connector to the terminal by one with another size.
theorem agrees_iff {s : Session} {connector : Nat} (hrest : s.IsAtRest connector)
    (moves : List Move) (hsettled : (run { session := s } moves).session.IsSettled) {index : Nat}
    (hindex : s.requests.length ≤ index)
    (hdelivered : (run { session := s } moves).session.result? index = some .delivered) :
    (run { session := s } moves).session.Agrees connector ↔
      ∀ slow fast, (run { session := s } moves).Crossed slow fast → slow.size = fast.size := by
  have hsound := (Sound.start hrest).run hrest.settled moves
  generalize run { session := s } moves = x at hsettled hdelivered hsound ⊢
  have hperm := hsound.toKept.perm hsettled
  obtain ⟨fast, slow, hfast, hslow⟩ := hsound.toKept.exists_last hindex hdelivered
  rw [hsound.toSized.agrees_iff_size hfast hslow]
  constructor
  · rintro hsame slow' fast' ⟨-, -, hfast', hslow'⟩
    obtain rfl := Option.some.inj (hfast.symm.trans hfast')
    obtain rfl := Option.some.inj (hslow.symm.trans hslow')
    exact hsame.symm
  · intro hcrossed
    by_cases hsame : slow = fast
    · rw [hsame]
    · refine (hcrossed slow fast ⟨?_, ?_, hfast, hslow⟩).symm
      · exact pair_sublist hfast (hperm.mem_iff.mpr (List.mem_of_getLast? hslow)) hsame
      · exact pair_sublist hslow (hperm.mem_iff.mp (List.mem_of_getLast? hfast)) (Ne.symm hsame)

-- On the way from the connector to the terminal.
def IsBetween (x : Resizing) (index : Nat) : Prop :=
  ∃ errand, x.session.requests[index]? = some ⟨errand, .connectorResized⟩

def InTurn (x : Resizing) : Prop := ∀ i j, x.IsBetween i → x.IsBetween j → i = j

section InTurn

variable {s : Session} {connector : Nat} {x : Resizing}

theorem Kept.isBetween (h : Kept s connector x) {e : Change}
    (hmore : x.onTerminal.count e < x.onConnector.count e) :
    x.IsBetween e.request ∧ x.onConnector.count e = 1 := by
  have hmem : e ∈ x.onConnector := List.count_pos_iff.mp (by omega)
  obtain ⟨hindex, phase, hrequest⟩ := h.requested e (.inl hmem)
  obtain ⟨rfl, hone⟩ := (h.course hindex hrequest).of_lt hmore
  exact ⟨⟨_, hrequest⟩, hone⟩

-- Two that only the connector has gone through would both be on the way.
theorem Kept.length_le_one (h : Kept s connector x) (hturn : x.InTurn) {rest : List Change}
    (hrest : x.onConnector = x.onTerminal ++ rest) : rest.length ≤ 1 := by
  match rest with
  | [] => exact Nat.zero_le 1
  | [_] => exact Nat.le_refl 1
  | e :: e' :: more =>
    have hcount : ∀ other, x.onConnector.count other =
        x.onTerminal.count other + (e :: e' :: more).count other :=
      fun other => by rw [hrest, List.count_append]
    have hpos : ∀ other ∈ e :: e' :: more,
        x.onTerminal.count other < x.onConnector.count other := by
      intro other hother
      have hcounted := List.count_pos_iff.mpr hother
      rw [hcount]
      omega
    obtain ⟨hbetween, hone⟩ := h.isBetween (hpos e (by simp))
    obtain ⟨hbetween', -⟩ := h.isBetween (hpos e' (by simp))
    have hsame := hturn _ _ hbetween hbetween'
    obtain ⟨-, phase, hrequest⟩ := h.requested e (.inl (by simp [hrest]))
    obtain ⟨-, phase', hrequest'⟩ := h.requested e' (.inl (by simp [hrest]))
    rw [hsame, hrequest'] at hrequest
    have heq : e' = e := by
      cases e
      cases e'
      cases hsame
      cases hrequest
      rfl
    have htwice := hcount e
    rw [heq, List.count_cons_self, List.count_cons_self, hone] at htwice
    omega

-- Only the last step of a resize changes the terminal.
theorem Sound.onTerminal_step (h : Sound s connector x) (hsettled : s.IsSettled) {index : Nat}
    (hbetween : ∀ size, x.session.requests[index]? ≠ some ⟨.resize size, .connectorResized⟩) :
    (x.make (.step index)).onTerminal = x.onTerminal := by
  have hnone : x.session.terminalChanges (x.session.stepRequest index) index = [] := by
    rcases Nat.lt_or_ge index s.requests.length with hearlier | hindex
    · obtain ⟨request, result, hrequest, hphase⟩ := h.resolved hsettled hearlier
      exact Session.terminalChanges_of_resolved
        (Session.result?_eq_some_iff.mpr ⟨request, hrequest, hphase⟩)
    · cases x.session.stepped index with
      | idle hstep =>
        rw [hstep, Session.terminalChanges, if_neg fun hboth => by simp [hboth.1] at hboth]
      | write hrequest =>
        obtain ⟨size, herrand, -⟩ := h.posted index _ hindex hrequest
        cases herrand
      | @turn request phase s' hrequest haside hturns hstep =>
        obtain ⟨size, herrand, -⟩ := h.posted index _ hindex hrequest
        refine Session.terminalChanges_of_undelivered ?_
        rw [hstep]
        refine Session.result?_setPhase_ne (haside.requests ▸ hrequest) fun hphase => ?_
        obtain ⟨errand, before⟩ := request
        obtain rfl : errand = .resize size := herrand
        obtain rfl : before = .connectorResized := hturns.resized hphase
        exact hbetween size hrequest
  rw [Resizing.make, hnone, List.append_nil]

theorem Sound.follows (h : Sound s connector x) (hturn : x.InTurn)
    (hbehind : x.onTerminal <+: x.onConnector) (hsettled : s.IsSettled) (move : Move) :
    (x.make move).onTerminal <+: (x.make move).onConnector := by
  cases move with
  | post size => exact hbehind
  | step index =>
    by_cases hbetween : ∃ size,
        x.session.requests[index]? = some ⟨.resize size, .connectorResized⟩
    · obtain ⟨size, hrequest⟩ := hbetween
      have hindex : s.requests.length ≤ index := by
        by_contra hearlier
        obtain ⟨request, result, hother, hphase⟩ := h.resolved hsettled (Nat.lt_of_not_le hearlier)
        obtain rfl := Option.some.inj (hrequest.symm.trans hother)
        cases hphase
      obtain ⟨hone, hnone⟩ :=
        (h.course (e := ⟨index, size⟩) hindex hrequest).of_connectorResized
      obtain ⟨rest, hrest⟩ := hbehind
      have hlength := h.length_le_one hturn hrest.symm
      have hmem : ⟨index, size⟩ ∈ rest := by
        rw [← List.count_pos_iff]
        rw [← hrest, List.count_append, hnone] at hone
        omega
      obtain ⟨last, rfl⟩ := List.length_eq_one_iff.mp
        (Nat.le_antisymm hlength (List.length_pos_of_mem hmem))
      obtain rfl := List.mem_singleton.mp hmem
      simp only [make_connectorResized hrequest]
      exact hrest ▸ List.prefix_refl _
    · rw [h.onTerminal_step hsettled (not_exists.mp hbetween)]
      exact hbehind.trans (List.prefix_append _ _)

theorem Sound.follows_run (h : Sound s connector x) (hsettled : s.IsSettled)
    (hbehind : x.onTerminal <+: x.onConnector) (moves : List Move)
    (hturn : ∀ front, front <+: moves → (x.run front).InTurn) :
    (x.run moves).onTerminal <+: (x.run moves).onConnector := by
  induction moves generalizing x with
  | nil => exact hbehind
  | cons move moves ih =>
    have hfirst := h.follows (hturn [] List.nil_prefix) hbehind hsettled move
    exact ih (h.make hsettled move) hfirst fun front hfront =>
      hturn (move :: front) (List.cons_prefix_cons.mpr ⟨rfl, hfront⟩)

end InTurn

-- They agree if no two requests are ever on the way at the same time.
theorem agrees_in_turn {s : Session} {connector : Nat} (hrest : s.IsAtRest connector)
    (moves : List Move) (hturn : ∀ front, front <+: moves → (run { session := s } front).InTurn)
    (hsettled : (run { session := s } moves).session.IsSettled) {index : Nat}
    (hindex : s.requests.length ≤ index)
    (hdelivered : (run { session := s } moves).session.result? index = some .delivered) :
    (run { session := s } moves).session.Agrees connector := by
  have hstart := Sound.start hrest
  have hsound := hstart.run hrest.settled moves
  have hbehind := hstart.follows_run hrest.settled List.nil_prefix moves hturn
  have hequal := hbehind.eq_of_length (hsound.toKept.perm hsettled).length_eq.symm
  obtain ⟨fast, slow, hfast, hslow⟩ := hsound.toKept.exists_last hindex hdelivered
  rw [hsound.toSized.agrees_iff_size hfast hslow]
  rw [hequal, hfast] at hslow
  rw [Option.some.inj hslow]

def startedSession : Session :=
  (Session.start
    { settings := { columns := 4, rows := 2, scrollback := 0 }
      reading := { terminal := .new ⟨4, 2⟩ 0, echo := .new true 1500 3000 } } {}).1

theorem startedSession_isAtRest : startedSession.IsAtRest 0 :=
  ⟨rfl, ⟨{}, rfl, rfl, rfl⟩, fun _ hrequest => (List.not_mem_nil hrequest).elim⟩

-- The first request is on the way from the connector to the terminal when the second one starts, and
-- arrives before it.
def sideBySide : List Move :=
  [.post ⟨5, 2⟩, .post ⟨6, 2⟩] ++ List.replicate 4 (.step 0) ++ List.replicate 4 (.step 1) ++
    [.step 0, .step 1]

-- Here the second one arrives first.
def overtaking : List Move :=
  [.post ⟨5, 2⟩, .post ⟨6, 2⟩] ++ List.replicate 4 (.step 0) ++ List.replicate 5 (.step 1) ++
    [.step 0]

theorem isSettled_of_requests {s : Session}
    (hrequests : s.requests = [⟨.resize ⟨5, 2⟩, .resolved .delivered⟩,
      ⟨.resize ⟨6, 2⟩, .resolved .delivered⟩]) : s.IsSettled := by
  simp [Session.IsSettled, hrequests]

theorem agrees_sideBySide : (run { session := startedSession } sideBySide).session.Agrees 0 := by
  have hlast : (run { session := startedSession } sideBySide).onConnector.getLast? =
      (run { session := startedSession } sideBySide).onTerminal.getLast? := by decide +kernel
  refine (@agrees_iff _ _ startedSession_isAtRest sideBySide
    (isSettled_of_requests (by decide +kernel)) 1 (by decide +kernel) (by decide +kernel)).mpr ?_
  rintro slow fast ⟨-, -, hfast, hslow⟩
  rw [hlast, hslow] at hfast
  rw [Option.some.inj hfast]

-- Both are delivered. The connector was given the second size last, and the terminal has the first.
theorem disagrees_overtaking :
    let s := (run { session := startedSession } overtaking).session
    s.IsSettled ∧ s.result? 0 = some .delivered ∧ s.result? 1 = some .delivered ∧
      s.givenTo 0 = [⟨5, 2⟩, ⟨6, 2⟩] ∧ s.terminal.size = ⟨5, 2⟩ ∧ ¬s.Agrees 0 := by
  refine ⟨isSettled_of_requests (by decide +kernel), ?_⟩
  simp only [Session.Agrees]
  decide +kernel

end Resizing

end ShellTranscript
