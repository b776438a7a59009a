import PolyTerm.Runs
import PolyTerm.SessionSteps
import PolyTerm.ForwardList

/-!
# The session keeps the ledger

Every step of a session is a move of its ledger (`ledger_step`): the two lists
of forwards evolve by the moves alone, so what `ForwardList` shows of the
ledger holds of the session.
-/

namespace PolyTerm

open Runs

def TransportEvent.forwardStatus? : TransportEvent → Option ForwardStatus
  | .forwardStatus status => some status
  | _ => none

def ControlMsg.forwardRequest? : ControlMsg → Option ForwardRequest
  | .addForward id spec => some (.add id spec)
  | .removeForward id => some (.remove id)
  | _ => none

namespace Session

def ledger (s : Session) : Ledger where
  rows := s.pane.forwards
  inFlight := (s.pane.events ++ s.events.queue).filterMap TransportEvent.forwardStatus?
  requests := s.pane.control.queue.filterMap ControlMsg.forwardRequest?
  connection := s.connection
  earlier := s.earlier
  minted := s.minted

/-- What a step of the session is for its forwards. -/
def moveOf (s : Session) : SessionLabel → Move
  | .addForward id spec => .request id spec s.pane.control.room
  | .removeForward id => .withdraw id s.pane.control.room
  | .pumpPane _ => .drain (s.pane.events.filterMap TransportEvent.forwardStatus?).length
  | .readInput written => if written then .idle else .endConnection
  | .readControl =>
      match s.pane.control.queue.head? with
      | some (.addForward _ _) | some (.removeForward _) => if s.selecting then .handle else .drop
      | some .disconnect => if s.selecting then .endConnection else .dropAll
      | _ => .idle
  | .channel .close | .channel .gone => .endConnection
  | .emit =>
      match s.phase with
      | .failing _ => if s.connectedBefore then .idle else .dropAll
      | .closing reason => if reconnects reason then .idle else .dropAll
      | _ => .idle
  | .forward op => .task op
  | .earlierReply id refused => .earlierReply id refused
  | .earlierReport id => .earlierReport id
  | _ => .idle

/-! ## The parts of the ledger -/

/-- An open session's send puts the event on its way. -/
theorem send_queue {s t : Session} {e : TransportEvent} (h : s.send e = some t)
    (hopen : t.uiClosed = false) :
    s.uiClosed = false ∧ ∃ events : Fifo TransportEvent,
      events.queue = s.events.queue ++ [e] ∧ t = { s with events := events } := by
  unfold send at h
  split at h
  · rename_i hclosed
    obtain rfl := Option.some.inj h
    rw [hclosed] at hopen
    cases hopen
  · rename_i hui
    split at h
    · rename_i events hsend
      obtain rfl := Option.some.inj h
      exact ⟨by simpa using hui, events, (Fifo.trySend_ok hsend).1, rfl⟩
    · cases h

theorem ledger_send {s t : Session} {e : TransportEvent} (h : s.send e = some t)
    (hopen : t.uiClosed = false) :
    s.uiClosed = false ∧ t.ledger =
      { s.ledger with inFlight := s.ledger.inFlight ++ e.forwardStatus?.toList } := by
  obtain ⟨hui, events, hqueue, rfl⟩ := send_queue h hopen
  refine ⟨hui, ?_⟩
  cases e <;> simp [ledger, hqueue, TransportEvent.forwardStatus?]

/-- An event that is no status leaves the ledger as it is. -/
theorem ledger_send_other {s t : Session} {e : TransportEvent} (h : s.send e = some t)
    (he : e.forwardStatus? = none) (hopen : t.uiClosed = false) :
    s.uiClosed = false ∧ t.ledger = s.ledger := by
  obtain ⟨hui, hledger⟩ := ledger_send h hopen
  rw [he, Option.toList_none, List.append_nil] at hledger
  exact ⟨hui, hledger⟩

theorem foldl_applyEvent_forwards (events : List TransportEvent) (p : LivePane) :
    (events.foldl LivePane.applyEvent p).forwards =
      (events.filterMap TransportEvent.forwardStatus?).foldl LivePane.applyStatus p.forwards := by
  induction events generalizing p with
  | nil => rfl
  | cons e events ih =>
      rw [List.foldl_cons, ih]
      cases e <;> rfl

/-- What a pump of the pane leaves alone. -/
theorem foldl_sendBestEffort_same (replies : List Bytes) (p : LivePane) :
    (replies.foldl LivePane.sendBestEffort p).forwards = p.forwards ∧
      (replies.foldl LivePane.sendBestEffort p).events = p.events ∧
      (replies.foldl LivePane.sendBestEffort p).control = p.control := by
  induction replies generalizing p with
  | nil => exact ⟨rfl, rfl, rfl⟩
  | cons bytes replies ih =>
      have hone : (p.sendBestEffort bytes).forwards = p.forwards ∧
          (p.sendBestEffort bytes).events = p.events ∧
          (p.sendBestEffort bytes).control = p.control := by
        unfold LivePane.sendBestEffort
        split <;> exact ⟨rfl, rfl, rfl⟩
      obtain ⟨hf, he, hc⟩ := ih (p.sendBestEffort bytes)
      exact ⟨hf.trans hone.1, he.trans hone.2.1, hc.trans hone.2.2⟩

theorem foldl_applyEvent_control (events : List TransportEvent) (p : LivePane) :
    (events.foldl LivePane.applyEvent p).control = p.control := by
  induction events generalizing p with
  | nil => rfl
  | cons e events ih =>
      rw [List.foldl_cons, ih]
      cases e <;> rfl

/-- A pump takes in every event it finds. -/
theorem pump_same (p : LivePane) (fed : LivePane.Fed) :
    (p.pump fed).1.forwards =
        (p.events.filterMap TransportEvent.forwardStatus?).foldl LivePane.applyStatus p.forwards ∧
      (p.pump fed).1.events = [] ∧ (p.pump fed).1.control = p.control := by
  obtain ⟨hf, he, hc⟩ := foldl_sendBestEffort_same fed.replies
    { (p.drainInput.events.foldl LivePane.applyEvent p.drainInput) with
      events := []
      finished := (p.drainInput.events.foldl LivePane.applyEvent p.drainInput).finished ||
        (p.drainInput.events.foldl LivePane.applyEvent p.drainInput).eventsEnded
      snapshot := fed.snapshot
      bracketedPaste := fed.bracketedPaste }
  exact ⟨hf.trans (foldl_applyEvent_forwards _ _), he, hc.trans (foldl_applyEvent_control _ _)⟩

/-! ## One step, one move -/

/-- A step with `l` is the move `s.moveOf l` of the ledger. -/
def Moves (s : Session) (l : SessionLabel) (t : Session) : Prop :=
  t.uiClosed = false → s.uiClosed = false ∧ s.ledger.step (s.moveOf l) = some t.ledger

theorem moves_idle {s t : Session} {l : SessionLabel} (hmove : s.moveOf l = .idle)
    (h : t.uiClosed = false → s.uiClosed = false ∧ t.ledger = s.ledger) : s.Moves l t := by
  intro hopen
  obtain ⟨hui, hledger⟩ := h hopen
  exact ⟨hui, by rw [hmove, hledger]; rfl⟩

/-- Nothing is asked of a session whose pane is gone. -/
theorem moves_closed {s t : Session} {l : SessionLabel} (hui : s.uiClosed = true)
    (hsame : t.uiClosed = s.uiClosed) : s.Moves l t := by
  intro hopen
  rw [hsame, hui] at hopen
  cases hopen

theorem sendInput_same (p : LivePane) (bytes : Bytes) :
    (p.sendInput bytes).forwards = p.forwards ∧ (p.sendInput bytes).events = p.events ∧
      (p.sendInput bytes).control = p.control := by
  unfold LivePane.sendInput LivePane.enqueueInput
  repeat' split
  all_goals exact ⟨rfl, rfl, rfl⟩

theorem moves_addForward {s t : Session} {id : ForwardId} {spec : ForwardSpec}
    (h : s.step (.addForward id spec) = some t) : s.Moves (.addForward id spec) t := by
  simp only [step] at h
  split at h
  · cases h
  · rename_i hid
    obtain ⟨hui, rfl⟩ := onPane_open h
    refine fun _ => ⟨hui, ?_⟩
    have hqueue := Fifo.getD_trySend_queue s.pane.control (.addForward id spec)
    have hminted : id ∉ s.ledger.minted := hid
    simp only [moveOf, Ledger.step, if_neg hminted]
    congr 1
    simp only [Ledger.request, ledger, LivePane.addForward, hqueue]
    cases s.pane.control.room <;> simp [ControlMsg.forwardRequest?]

theorem moves_removeForward {s t : Session} {id : ForwardId}
    (h : s.step (.removeForward id) = some t) : s.Moves (.removeForward id) t := by
  simp only [step] at h
  split at h
  · rename_i hid
    obtain ⟨hui, rfl⟩ := onPane_open h
    refine fun _ => ⟨hui, ?_⟩
    have hqueue := Fifo.getD_trySend_queue s.pane.control (.removeForward id)
    have hrow : id ∈ s.ledger.rows := hid
    simp only [moveOf, Ledger.step, if_pos hrow]
    congr 1
    simp only [Ledger.withdraw, ledger, LivePane.removeForward, hqueue]
    cases s.pane.control.room <;> simp [ControlMsg.forwardRequest?]
  · cases h

theorem moves_pumpPane {s t : Session} {fed : LivePane.Fed}
    (h : s.step (.pumpPane fed) = some t) : s.Moves (.pumpPane fed) t := by
  obtain ⟨hui, rfl⟩ := onPane_open (f := fun p => (p.pump fed).1) h
  refine fun _ => ⟨hui, ?_⟩
  obtain ⟨hforwards, hevents, hcontrol⟩ := pump_same s.pane fed
  simp [moveOf, Ledger.step, ledger, hforwards, hevents, hcontrol]

theorem moves_resize {s t : Session} {cols rows : UInt16}
    (h : s.step (.resize cols rows) = some t) : s.Moves (.resize cols rows) t := by
  simp only [step] at h
  obtain ⟨hui, rfl⟩ := onPane_open h
  refine moves_idle rfl fun _ => ⟨hui, ?_⟩
  have hqueue := Fifo.getD_trySend_queue s.pane.control (.resize cols rows)
  simp only [ledger, hqueue]
  cases s.pane.control.room <;> simp [ControlMsg.forwardRequest?]

theorem moves_relay {s t : Session} (h : s.step .relay = some t) : s.Moves .relay t := by
  simp only [step] at h
  split at h
  · rename_i e events hrecv
    obtain rfl := Option.some.inj h
    refine moves_idle rfl fun hui => ⟨hui, ?_⟩
    simp [ledger, (Fifo.recv_some hrecv).1]
  · cases h

/-- The pump ends. -/
theorem ledger_endPump {s : Session} (reason : DisconnectReason)
    (hstopping : s.connection.stopping = none) :
    s.ledger.step .endConnection = some (s.endPump reason).ledger := by
  have hnone : s.ledger.connection.stopping = none := hstopping
  simp only [Ledger.step, if_pos hnone]
  rfl

theorem moves_readInput {s t : Session} {written : Bool}
    (h : s.step (.readInput written) = some t) : s.Moves (.readInput written) t := by
  have hsel := readInput_selecting h
  have hstopping := selecting_stopping hsel
  intro hopen
  cases readInput_reads h with
  | wrote => exact ⟨hopen, rfl⟩
  | failed bytes input =>
      have hend := ledger_endPump (s := s.tookInput input) (.failed "write to channel failed")
        hstopping
      exact ⟨hopen, hend⟩
  | closed _ _ hui => exact moves_closed hui rfl hopen

theorem moves_channel {s t : Session} {msg : ChannelMsg}
    (h : s.step (.channel msg) = some t) : s.Moves (.channel msg) t := by
  intro hopen
  simp only [step, readChannel] at h
  split at h
  · split at h
    · cases h
    · rename_i hsome
      have hstopping : s.connection.stopping = none := by simpa using hsome
      cases msg with
      | data =>
          obtain rfl := Option.some.inj h
          split at hopen
          · rename_i hui
            rw [if_pos hui]
            exact moves_closed hui rfl hopen
          · rename_i hui
            rw [if_neg hui]
            exact ⟨hopen, rfl⟩
      | close | gone =>
          obtain rfl := Option.some.inj h
          exact ⟨hopen, ledger_endPump _ hstopping⟩
      | exitStatus | extendedData | eof | other =>
          obtain rfl := Option.some.inj h
          exact ⟨hopen, rfl⟩
  · cases h

/-! ### The events of a phase -/

theorem finish_ledger {s : Session} (hempty : s.connection = .empty) :
    s.ledger.step .dropAll = some s.finish.ledger := by
  have hforwards : s.ledger.connection.forwards = ∅ := by
    simp only [ledger, hempty]
    rfl
  simp only [Ledger.step, if_pos hforwards]
  rfl

/-- After a `disconnected` the session waits or is over. -/
theorem moves_disconnected {s t u : Session} {reason : DisconnectReason} (more : Bool)
    (hidle : s.Idle) (hphase : s.phase.isPumping = false)
    (hmove : s.moveOf .emit = if more then .idle else .dropAll)
    (hsend : s.send (.disconnected reason) = some u)
    (ht : t = if more then { u with linkDown := true, phase := .waiting }
      else ({ u with linkDown := true } : Session).finish) : s.Moves .emit t := by
  intro hopen
  have huopen : u.uiClosed = false := by
    rw [ht] at hopen
    cases more <;> exact hopen
  obtain ⟨hui, hledger⟩ := ledger_send_other hsend rfl huopen
  refine ⟨hui, ?_⟩
  rw [hmove, ht]
  cases more with
  | true => exact congrArg some hledger.symm
  | false =>
      have hconn : u.connection = .empty := (send_phase hsend).2.2.trans (hidle hphase)
      have hfinish := finish_ledger (s := { u with linkDown := true }) hconn
      rw [← hledger]
      exact hfinish

theorem moves_emit {s t : Session} (hidle : s.Idle) (h : s.step .emit = some t) :
    s.Moves .emit t := by
  cases emit_emits h with
  | connecting u hphase hsend | authenticated u hphase hsend | opened u hphase hsend =>
      have hsame := ledger_send_other hsend rfl
      exact moves_idle (by simp [moveOf, hphase]) hsame
  | failing message u hphase hsend =>
      have hconnected : u.connectedBefore = s.connectedBefore := by
        obtain ⟨events, rfl⟩ := send_eq hsend
        rfl
      refine moves_disconnected s.connectedBefore hidle (by rw [hphase]; rfl)
        (by simp [moveOf, hphase]) hsend ?_
      rw [hconnected]
  | closing reason u hphase hsend =>
      exact moves_disconnected (reconnects reason) hidle (by rw [hphase]; rfl)
        (by simp [moveOf, hphase]) hsend rfl

/-! ### Control messages -/

theorem ledger_read {s : Session} {msg : ControlMsg} {control : Fifo ControlMsg}
    (hrecv : s.pane.control.recv = some (msg, control)) :
    s.ledger.requests =
      msg.forwardRequest?.toList ++ control.queue.filterMap ControlMsg.forwardRequest? := by
  rw [ledger, (Fifo.recv_some hrecv).1]
  cases msg <;> rfl

theorem ledger_readOff {s : Session} {msg : ControlMsg} {control : Fifo ControlMsg}
    (hrecv : s.pane.control.recv = some (msg, control)) (hmsg : msg.forwardRequest? = none) :
    (s.readOff control).ledger = s.ledger := by
  have hrequests := ledger_read hrecv
  rw [hmsg, Option.toList_none, List.nil_append] at hrequests
  simp only [ledger, readOff] at hrequests ⊢
  rw [hrequests]

theorem moveOf_readControl {s : Session} {msg : ControlMsg} {control : Fifo ControlMsg}
    (hrecv : s.pane.control.recv = some (msg, control)) :
    s.moveOf .readControl =
      match msg with
      | .addForward _ _ | .removeForward _ => if s.selecting then .handle else .drop
      | .disconnect => if s.selecting then .endConnection else .dropAll
      | _ => .idle := by
  simp only [moveOf, (Fifo.recv_some hrecv).1, List.head?_cons]
  cases msg <;> rfl

/-- A message that `pump` reads. -/
theorem moves_handleControl {s : Session} {msg : ControlMsg} {control : Fifo ControlMsg}
    (hsel : s.selecting = true) (hrecv : s.pane.control.recv = some (msg, control)) :
    s.Moves .readControl ((s.readOff control).handleControl msg) := by
  intro hopen
  have hstopping := selecting_stopping hsel
  have hrequests := ledger_read hrecv
  have hnone : s.ledger.connection.stopping = none := hstopping
  rw [moveOf_readControl hrecv]
  cases msg with
  | addForward id spec | removeForward id =>
      refine ⟨hopen, ?_⟩
      simp only [hsel, if_true, Ledger.step, hnone, hrequests]
      rfl
  | disconnect =>
      refine ⟨hopen, ?_⟩
      have hend := ledger_endPump (s := s.readOff control) .local hstopping
      simp only [hsel, if_true]
      rw [← ledger_readOff hrecv rfl]
      exact hend
  | _ =>
      have hsame := ledger_readOff hrecv rfl
      exact ⟨hopen, congrArg some hsame.symm⟩

/-- A message that comes between two connections. -/
theorem moves_backoffControl {s : Session} {msg : ControlMsg} {control : Fifo ControlMsg}
    (hsel : s.selecting = false) (hempty : s.connection = .empty)
    (hrecv : s.pane.control.recv = some (msg, control)) :
    s.Moves .readControl ((s.readOff control).backoffControl msg) := by
  intro hopen
  have hforwards : s.ledger.connection.forwards = ∅ := by
    simp only [ledger, hempty]
    rfl
  have hrequests := ledger_read hrecv
  rw [moveOf_readControl hrecv]
  cases msg with
  | addForward id spec | removeForward id =>
      refine ⟨hopen, ?_⟩
      simp only [hsel, Ledger.step, hrequests, ControlMsg.forwardRequest?,
        Option.toList_some, List.singleton_append, if_pos hforwards]
      rfl
  | disconnect =>
      refine ⟨hopen, ?_⟩
      have hfinish := finish_ledger (s := s.readOff control) hempty
      simp only [hsel]
      rw [← ledger_readOff hrecv rfl]
      exact hfinish
  | _ =>
      have hsame := ledger_readOff hrecv rfl
      exact ⟨hopen, congrArg some hsame.symm⟩

theorem moves_readControl {s t : Session} (hidle : s.Idle) (h : s.step .readControl = some t) :
    s.Moves .readControl t := by
  cases readControl_reads h with
  | pumped msg control hsel hrecv => exact moves_handleControl hsel hrecv
  | closed _ _ hui => exact moves_closed hui rfl
  | backedOff msg control hsel hphase hrecv =>
      exact moves_backoffControl hsel (hidle (by rw [hphase]; rfl)) hrecv
  | gaveUp _ _ _ hui => exact moves_closed hui rfl

/-! ### The tasks -/

theorem moves_forward {s t : Session} {op : ForwardOp} (h : s.step (.forward op) = some t) :
    s.Moves (.forward op) t := by
  intro hopen
  obtain ⟨hadd, hremove, c, hc, hemit⟩ := forwardStep_cases h
  have hstep : s.ledger.step (.task op) = some { s.ledger with
      connection := c
      inFlight := s.ledger.inFlight ++ (s.connection.emits op).toList } := by
    have hc' : s.ledger.connection.step op = some c := hc
    cases op with
    | add id spec => exact absurd rfl (hadd id spec)
    | remove id => exact absurd rfl (hremove id)
    | _ => simp only [Ledger.step, hc', Option.map_some]; rfl
  rw [moveOf, hstep]
  rcases hemit with ⟨status, u, hstatus, hsend, rfl⟩ | ⟨hstatus, rfl⟩
  · obtain ⟨hui, events, hqueue, rfl⟩ := send_queue hsend hopen
    refine ⟨hui, ?_⟩
    rw [hstatus]
    simp [ledger, hqueue, TransportEvent.forwardStatus?]
  · rw [hstatus, Option.toList_none, List.append_nil]
    exact ⟨hopen, rfl⟩

theorem moves_earlierReply {s t : Session} {id : ForwardId} {refused : Option String}
    (h : s.step (.earlierReply id refused) = some t) : s.Moves (.earlierReply id refused) t := by
  intro hopen
  obtain ⟨spec, htask, rfl⟩ := earlierReply_cases h
  refine ⟨hopen, ?_⟩
  have htask' : s.ledger.earlier.lookup id = some ⟨spec, .asking⟩ := htask
  simp only [moveOf, Ledger.step, htask']
  rfl

theorem moves_earlierReport {s t : Session} {id : ForwardId}
    (h : s.step (.earlierReport id) = some t) : s.Moves (.earlierReport id) t := by
  intro hopen
  obtain ⟨spec, outcome, u, htask, hsend, rfl⟩ := earlierReport_cases h
  obtain ⟨hui, events, hqueue, rfl⟩ := send_queue hsend hopen
  refine ⟨hui, ?_⟩
  have htask' : s.ledger.earlier.lookup id = some ⟨spec, .reporting outcome⟩ := htask
  simp only [moveOf, Ledger.step, htask']
  simp [ledger, hqueue, TransportEvent.forwardStatus?]

/-- Every step of an open session is a move of its ledger. -/
theorem ledger_step {s t : Session} {l : SessionLabel} (hidle : s.Idle)
    (h : s.step l = some t) : s.Moves l t := by
  cases l with
  | sendInput bytes =>
      obtain ⟨hui, rfl⟩ := onPane_open (f := fun p => p.sendInput bytes) h
      obtain ⟨hf, he, hc⟩ := sendInput_same s.pane bytes
      exact moves_idle rfl fun _ => ⟨hui, by simp only [ledger, hf, he, hc]⟩
  | sendBestEffort bytes =>
      obtain ⟨hui, rfl⟩ := onPane_open (f := fun p => p.sendBestEffort bytes) h
      obtain ⟨hf, he, hc⟩ := foldl_sendBestEffort_same [bytes] s.pane
      simp only [List.foldl_cons, List.foldl_nil] at hf he hc
      exact moves_idle rfl fun _ => ⟨hui, by simp only [ledger, hf, he, hc]⟩
  | pumpPane fed => exact moves_pumpPane h
  | addForward id spec => exact moves_addForward h
  | removeForward id => exact moves_removeForward h
  | resize cols rows => exact moves_resize h
  | relay => exact moves_relay h
  | emit => exact moves_emit hidle h
  | readInput written => exact moves_readInput h
  | readControl => exact moves_readControl hidle h
  | channel msg => exact moves_channel h
  | forward op => exact moves_forward h
  | earlierReply id refused => exact moves_earlierReply h
  | earlierReport id => exact moves_earlierReport h
  | closePane =>
      simp only [step] at h
      split at h
      · cases h
      · obtain rfl := Option.some.inj h
        intro hopen
        cases hopen
  | relayEnds =>
      simp only [step] at h
      split at h
      · obtain rfl := Option.some.inj h
        exact moves_idle rfl fun hopen => ⟨hopen, rfl⟩
      · cases h
  | prompt p =>
      simp only [step] at h
      split at h
      · refine moves_idle rfl (ledger_send_other h ?_)
        cases p <;> rfl
      · cases h
  | agentError message =>
      simp only [step] at h
      split at h
      · exact moves_idle rfl (ledger_send_other h rfl)
      · cases h
  | established | establishFailed | shellOpened | shellFailed | backoffElapsed =>
      simp only [step] at h
      split at h
      · obtain rfl := Option.some.inj h
        exact moves_idle rfl fun hopen => ⟨hopen, rfl⟩
      · cases h

/-! ## The list tells the truth -/

/-- The condition on a step, read off the ledger (`Ledger.Kept`). -/
def ForwardsKept (s : Session) (l : SessionLabel) : Prop := s.ledger.Kept (s.moveOf l)

/-- No control message and no status event is on its way, and no forward of the
connection is still waiting for its bind or for the server. -/
structure Quiet (s : Session) : Prop where
  paneOpen : s.uiClosed = false
  control : s.pane.control.queue = []
  events : ∀ e ∈ s.pane.events ++ s.events.queue, e.forwardStatus? = none
  stopping : s.connection.stopping = none
  settled : ∀ {id f}, s.connection.forwards.lookup id = some f → ∃ outcome, f.stage = .settled outcome

/-- The ids the pane shows as `starting` or `active` are exactly those of the
forwards that are up in the backend's connection. -/
def ForwardsTruthful (s : Session) : Prop :=
  ∀ id, (∃ row, s.pane.forwards.lookup id = some row ∧ row.state.isUp = true) ↔
    ∃ f, s.connection.forwards.lookup id = some f ∧ f.stage = .settled .active

theorem Quiet.ledger {s : Session} (h : s.Quiet) : s.ledger.Quiet := by
  refine ⟨?_, List.filterMap_eq_nil_iff.mpr h.events, h.stopping, h.settled⟩
  simp [Session.ledger, h.control]

/-- What every run keeps while the pane is there. -/
structure Corresponds (s : Session) : Prop where
  idle : s.Idle
  ledger : s.uiClosed = false → s.ledger.Placed ∧ s.ledger.Agreed

theorem corresponds_start (onExit : ExitAction) : Corresponds (start onExit) :=
  ⟨idle_start onExit, fun _ => ⟨Ledger.placed_start, Ledger.agreed_start⟩⟩

theorem step_corresponds {s t : Session} {l : SessionLabel} (hs : s.Corresponds)
    (hk : s.ForwardsKept l) (h : s.step l = some t) : t.Corresponds := by
  refine ⟨step_idle hs.idle h, fun hopen => ?_⟩
  obtain ⟨hui, hmove⟩ := ledger_step hs.idle h hopen
  obtain ⟨hplaced, hagreed⟩ := hs.ledger hui
  exact ⟨Ledger.step_placed hplaced hmove, Ledger.step_agreed hplaced hagreed hk hmove⟩

/-- In every run that is kept, whenever nothing is on its way the UI's list is
the backend's. -/
theorem forwards_truthful {onExit : ExitAction} {labels : List SessionLabel} {s : Session}
    (hrun : run step (start onExit) labels = some s)
    (hkept : Along step ForwardsKept (start onExit) labels) (hquiet : s.Quiet) :
    s.ForwardsTruthful := by
  have hs : s.Corresponds :=
    run_invariant (fun s l t => step_corresponds) (corresponds_start onExit) hkept hrun
  have hagreed := (hs.ledger hquiet.paneOpen).2
  exact hagreed.truthful hquiet.ledger

/-! ### One forward, and a dropped link -/

/-- Moves that cannot break the correspondence. -/
def harmless (g : Ledger) : Move → Bool
  | .request _ _ accepted | .withdraw _ accepted => accepted
  | .task (.report id) => id ∈ g.connection.forwards
  | .drop | .dropAll | .endConnection | .earlierReport _ => false
  | _ => true

theorem kept_of_harmless {g : Ledger} {m : Move} (h : harmless g m = true) : g.Kept m := by
  cases m with
  | request => exact h
  | withdraw => exact Or.inl h
  | drop | dropAll | endConnection | earlierReport => cases h
  | task op =>
      cases op with
      | report id =>
          intro f outcome habsent
          have hmem : id ∈ g.connection.forwards := of_decide_eq_true h
          exact absurd hmem (AList.lookup_eq_none.mp habsent)
      | _ => trivial
  | _ => trivial

def webSpec : ForwardSpec := ⟨.local, "127.0.0.1", 8080, "web", 80⟩

def blank : LivePane.Fed := ⟨⟨80, []⟩, false, []⟩

/-- A forward comes up on a connection, and the pane has heard of it. -/
def forwardUp : List SessionLabel :=
  [.emit, .established, .emit, .shellOpened, .emit, .addForward ⟨0⟩ webSpec, .readControl,
    .forward (.reply ⟨0⟩ none), .forward (.report ⟨0⟩), .relay, .relay, .relay, .relay,
    .pumpPane blank]

/-- The link drops and comes back. -/
def linkBack : List SessionLabel :=
  [.channel .gone, .emit, .backoffElapsed, .emit, .established, .emit, .shellOpened, .emit]

theorem forwards_truthful_up :
    ∃ s, run step (start .prompt) forwardUp = some s ∧ s.Quiet ∧
      s.connection.forwards.lookup ⟨0⟩ = some ⟨webSpec, .settled .active⟩ ∧
      s.ForwardsTruthful := by
  have hharmless : Along step (fun s l => harmless s.ledger (s.moveOf l) = true) (start .prompt)
      forwardUp := by decide
  have hkept : Along step ForwardsKept (start .prompt) forwardUp :=
    Along.mono (fun s l => kept_of_harmless) hharmless
  have hsettled : ∀ {id f}, (AList.insert ⟨0⟩ ⟨webSpec, .settled .active⟩
      (∅ : Table ForwardId Forward)).lookup id = some f → ∃ outcome, f.stage = .settled outcome := by
    intro id f hf
    by_cases hid : id = ⟨0⟩
    · rw [hid, AList.lookup_insert] at hf
      exact ⟨_, congrArg Forward.stage (Option.some.inj hf).symm⟩
    · rw [AList.lookup_insert_ne hid] at hf
      cases hf
  obtain ⟨s, hrun, hquiet, hactive⟩ : ∃ s, run step (start .prompt) forwardUp = some s ∧ s.Quiet ∧
      s.connection.forwards.lookup ⟨0⟩ = some ⟨webSpec, .settled .active⟩ :=
    ⟨_, rfl, ⟨rfl, rfl, by decide, rfl, hsettled⟩, rfl⟩
  exact ⟨s, hrun, hquiet, hactive, forwards_truthful hrun hkept hquiet⟩

/-- The pane still shows the forward; the new connection has none. -/
theorem forwards_stale_linkBack :
    ¬∀ (onExit : ExitAction) (labels : List SessionLabel) (s : Session),
      run step (start onExit) labels = some s → s.Quiet → s.ForwardsTruthful := by
  intro h
  have htrue := h .prompt (forwardUp ++ linkBack) _ rfl
  have hsettled : ∀ {id f}, (∅ : Table ForwardId Forward).lookup id = some f →
      ∃ outcome, f.stage = .settled outcome := nofun
  obtain ⟨f, hf, -⟩ := (htrue ⟨rfl, rfl, by decide, rfl, hsettled⟩ ⟨0⟩).1 ⟨_, rfl, rfl⟩
  cases hf

end Session

end PolyTerm
