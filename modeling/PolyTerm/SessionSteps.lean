import PolyTerm.SshSession

/-!
# What a step of a session leaves alone

First each part of the backend is taken apart: what it did, and from where, if
it did anything. Then the pump: it is entered from one place, the report of a
connection, and the forwards of a connection exist only while it is pumped.
-/

namespace PolyTerm

namespace Session

/-- A send changes the event channel only. -/
theorem send_eq {s t : Session} {e : TransportEvent} (h : s.send e = some t) :
    ∃ events, t = { s with events := events } := by
  unfold send at h
  split at h
  · exact ⟨s.events, (Option.some.inj h).symm⟩
  · split at h
    · exact ⟨_, (Option.some.inj h).symm⟩
    · cases h

theorem send_pane {s t : Session} {e : TransportEvent} (h : s.send e = some t) :
    t.pane = s.pane := by
  obtain ⟨events, rfl⟩ := send_eq h
  rfl

theorem send_phase {s t : Session} {e : TransportEvent} (h : s.send e = some t) :
    t.phase = s.phase ∧ t.linkDown = s.linkDown ∧ t.connection = s.connection := by
  obtain ⟨events, rfl⟩ := send_eq h
  exact ⟨rfl, rfl, rfl⟩

/-! ## What each part does -/

theorem onPane_open {s t : Session} {f : LivePane → LivePane} (h : s.onPane f = some t) :
    s.uiClosed = false ∧ t = { s with pane := f s.pane } := by
  unfold onPane at h
  split at h
  · cases h
  · rename_i hui
    exact ⟨by simpa using hui, (Option.some.inj h).symm⟩

/-- The event of the phase is sent, and the phase after it reached. -/
inductive Emits (s : Session) : Session → Prop where
  | connecting (u : Session) (hphase : s.phase = .connecting) (hsend : s.send .connecting = some u) :
      Emits s { u with phase := .establishing }
  | failing (message : String) (u : Session) (hphase : s.phase = .failing message)
      (hsend : s.send (.disconnected (.failed message)) = some u) :
      Emits s (if u.connectedBefore then { u with linkDown := true, phase := .waiting }
        else ({ u with linkDown := true } : Session).finish)
  | authenticated (u : Session) (hphase : s.phase = .authenticated)
      (hsend : s.send .authenticated = some u) : Emits s { u with phase := .opening }
  | opened (u : Session) (hphase : s.phase = .opened) (hsend : s.send .connected = some u) :
      Emits s { u with phase := .pumping false, linkDown := false }
  | closing (reason : DisconnectReason) (u : Session) (hphase : s.phase = .closing reason)
      (hsend : s.send (.disconnected reason) = some u) :
      Emits s (if reconnects reason then { u with linkDown := true, phase := .waiting }
        else ({ u with linkDown := true } : Session).finish)

theorem emit_emits {s t : Session} (h : s.emit = some t) : s.Emits t := by
  unfold emit at h
  split at h
  case h_6 => cases h
  all_goals
    rename_i hphase
    obtain ⟨u, hsend, rfl⟩ := Option.map_eq_some_iff.mp h
  · exact .connecting u hphase hsend
  · exact .failing _ u hphase hsend
  · exact .authenticated u hphase hsend
  · exact .opened u hphase hsend
  · exact .closing _ u hphase hsend

/-- The session, one chunk of input taken. -/
def tookInput (s : Session) (input : Fifo Bytes) : Session :=
  { s with pane := { s.pane with input := input } }

/-- A chunk is written, or could not be, or there is nobody left to send one. -/
inductive ReadsInput (s : Session) : Bool → Session → Prop where
  | wrote (bytes : Bytes) (input : Fifo Bytes) (hsel : s.selecting = true)
      (hrecv : s.pane.input.recv = some (bytes, input)) : ReadsInput s true (s.tookInput input)
  | failed (bytes : Bytes) (input : Fifo Bytes) (hsel : s.selecting = true)
      (hrecv : s.pane.input.recv = some (bytes, input)) :
      ReadsInput s false ((s.tookInput input).endPump (.failed "write to channel failed"))
  | closed {written : Bool} (hsel : s.selecting = true) (hrecv : s.pane.input.recv = none)
      (hui : s.uiClosed = true) : ReadsInput s written (s.endPump .local)

theorem readInput_reads {s t : Session} {written : Bool} (h : s.readInput written = some t) :
    s.ReadsInput written t := by
  unfold readInput at h
  split at h
  case isTrue => cases h
  case isFalse hnot =>
    have hsel : s.selecting = true := by simpa using hnot
    split at h
    · rename_i bytes input hrecv
      obtain rfl := Option.some.inj h
      cases written with
      | true => exact .wrote bytes input hsel hrecv
      | false => exact .failed bytes input hsel hrecv
    · rename_i hrecv
      obtain ⟨hui, heq⟩ := Option.ite_none_right_eq_some.mp h
      exact Option.some.inj heq ▸ .closed hsel hrecv hui

/-- The session, one control message read. -/
def readOff (s : Session) (control : Fifo ControlMsg) : Session :=
  { s with pane := { s.pane with control := control } }

/-- The pump handles a message, the backoff does, or there is nobody left to
send one. -/
inductive ReadsControl (s : Session) : Session → Prop where
  | pumped (msg : ControlMsg) (control : Fifo ControlMsg) (hsel : s.selecting = true)
      (hrecv : s.pane.control.recv = some (msg, control)) :
      ReadsControl s ((s.readOff control).handleControl msg)
  | closed (hsel : s.selecting = true) (hrecv : s.pane.control.recv = none)
      (hui : s.uiClosed = true) : ReadsControl s (s.endPump .local)
  | backedOff (msg : ControlMsg) (control : Fifo ControlMsg) (hsel : s.selecting = false)
      (hphase : s.phase = .waiting) (hrecv : s.pane.control.recv = some (msg, control)) :
      ReadsControl s ((s.readOff control).backoffControl msg)
  | gaveUp (hsel : s.selecting = false) (hphase : s.phase = .waiting)
      (hrecv : s.pane.control.recv = none) (hui : s.uiClosed = true) : ReadsControl s s.finish

theorem readControl_reads {s t : Session} (h : s.readControl = some t) : s.ReadsControl t := by
  unfold readControl at h
  split at h
  case isTrue hsel =>
    split at h
    · rename_i msg control hrecv
      exact Option.some.inj h ▸ .pumped msg control hsel hrecv
    · rename_i hrecv
      obtain ⟨hui, heq⟩ := Option.ite_none_right_eq_some.mp h
      exact Option.some.inj heq ▸ .closed hsel hrecv hui
  case isFalse hnot =>
    have hsel : s.selecting = false := by simpa using hnot
    obtain ⟨hphase, h⟩ := Option.ite_none_right_eq_some.mp h
    split at h
    · rename_i msg control hrecv
      exact Option.some.inj h ▸ .backedOff msg control hsel hphase hrecv
    · rename_i hrecv
      obtain ⟨hui, heq⟩ := Option.ite_none_right_eq_some.mp h
      exact Option.some.inj heq ▸ .gaveUp hsel hphase hrecv hui

/-- The pump goes on, notes that the shell exited, or ends. -/
inductive ReadsChannel (s : Session) : ChannelMsg → Session → Prop where
  | goesOn {exited : Bool} {msg : ChannelMsg} (hphase : s.phase = .pumping exited)
      (hdata : msg = .data → s.uiClosed = false) : ReadsChannel s msg s
  | exited {exited : Bool} (hphase : s.phase = .pumping exited) :
      ReadsChannel s .exitStatus { s with phase := .pumping true }
  | ends {exited : Bool} {msg : ChannelMsg} {reason : DisconnectReason}
      (hphase : s.phase = .pumping exited) : ReadsChannel s msg (s.endPump reason)

theorem readChannel_reads {s t : Session} {msg : ChannelMsg} (h : s.readChannel msg = some t) :
    s.ReadsChannel msg t := by
  unfold readChannel at h
  split at h
  case h_2 => cases h
  case h_1 exited hphase =>
    split at h
    · cases h
    · cases msg with
      | data =>
          obtain rfl := Option.some.inj h
          cases hui : s.uiClosed with
          | true => exact .ends hphase
          | false => exact .goesOn hphase fun _ => hui
      | exitStatus => exact Option.some.inj h ▸ .exited hphase
      | close | gone => exact Option.some.inj h ▸ .ends hphase
      | extendedData | eof | other => exact Option.some.inj h ▸ .goesOn hphase nofun

/-- A task of the connection moves on, and what it reports is sent. -/
theorem forwardStep_cases {s t : Session} {op : ForwardOp} (h : s.forwardStep op = some t) :
    (∀ id spec, op ≠ .add id spec) ∧ (∀ id, op ≠ .remove id) ∧
      ∃ connection, s.connection.step op = some connection ∧
        ((∃ status u, s.connection.emits op = some status ∧
            s.send (.forwardStatus status) = some u ∧ t = { u with connection := connection }) ∨
          (s.connection.emits op = none ∧ t = { s with connection := connection })) := by
  unfold forwardStep at h
  split at h
  · cases h
  · cases h
  · rename_i hadd hremove
    obtain ⟨connection, hstep, h⟩ := Option.bind_eq_some_iff.mp h
    refine ⟨hadd, hremove, connection, hstep, ?_⟩
    split at h
    · rename_i status hemits
      obtain ⟨u, hsend, rfl⟩ := Option.map_eq_some_iff.mp h
      exact Or.inl ⟨status, u, hemits, hsend, rfl⟩
    · rename_i hemits
      exact Or.inr ⟨hemits, (Option.some.inj h).symm⟩

theorem earlierReply_cases {s t : Session} {id : ForwardId} {refused : Option String}
    (h : s.earlierReply id refused = some t) :
    ∃ spec, s.earlier.lookup id = some ⟨spec, .asking⟩ ∧ t = { s with
      earlier := s.earlier.insert id ⟨spec, .reporting (Connection.outcomeOf spec refused)⟩ } := by
  unfold earlierReply at h
  split at h
  · rename_i spec htask
    exact ⟨spec, htask, (Option.some.inj h).symm⟩
  · cases h

theorem earlierReport_cases {s t : Session} {id : ForwardId} (h : s.earlierReport id = some t) :
    ∃ spec outcome u, s.earlier.lookup id = some ⟨spec, .reporting outcome⟩ ∧
      s.send (.forwardStatus ⟨id, spec, outcome⟩) = some u ∧
      t = { u with earlier := u.earlier.insert id ⟨spec, .settled outcome⟩ } := by
  unfold earlierReport at h
  split at h
  · rename_i spec outcome htask
    obtain ⟨u, hsend, rfl⟩ := Option.map_eq_some_iff.mp h
    exact ⟨spec, outcome, u, htask, hsend, rfl⟩
  · cases h

theorem readInput_selecting {s t : Session} {written : Bool} (h : s.readInput written = some t) :
    s.selecting = true := by
  cases readInput_reads h with
  | wrote _ _ hsel | failed _ _ hsel | closed hsel => exact hsel

theorem selecting_pumping {s : Session} (h : s.selecting = true) : s.phase.isPumping = true :=
  (Bool.and_eq_true_iff.mp h).1

theorem selecting_stopping {s : Session} (h : s.selecting = true) :
    s.connection.stopping = none := by
  simpa using (Bool.and_eq_true_iff.mp h).2

/-! ## When the pump runs -/

/-- The pump is the one that ran before the step. -/
def SamePump (s t : Session) : Prop :=
  t.phase.isPumping = true → s.phase.isPumping = true ∧ t.linkDown = s.linkDown

theorem samePump_of_eq {s t : Session} (hphase : t.phase = s.phase)
    (hdown : t.linkDown = s.linkDown) : SamePump s t :=
  fun h => ⟨hphase ▸ h, hdown⟩

theorem samePump_of_not {s t : Session} (h : t.phase.isPumping = false) : SamePump s t := by
  intro hpump
  rw [h] at hpump
  cases hpump

theorem onPane_samePump {s t : Session} {f : LivePane → LivePane} (h : s.onPane f = some t) :
    SamePump s t := by
  obtain ⟨-, rfl⟩ := onPane_open h
  exact samePump_of_eq rfl rfl

theorem emit_pump {s t : Session} (h : s.emit = some t) (hpump : t.phase.isPumping = true) :
    s.phase = .opened ∧ t.linkDown = false := by
  cases emit_emits h with
  | opened u hphase => exact ⟨hphase, rfl⟩
  | connecting | authenticated => cases hpump
  | failing | closing => split at hpump <;> cases hpump

theorem handleControl_samePump (s : Session) (msg : ControlMsg) :
    SamePump s (s.handleControl msg) := by
  cases msg with
  | disconnect => exact samePump_of_not rfl
  | _ => exact samePump_of_eq rfl rfl

theorem backoffControl_samePump (s : Session) (msg : ControlMsg) :
    SamePump s (s.backoffControl msg) := by
  cases msg with
  | disconnect => exact samePump_of_not rfl
  | reconnect => exact samePump_of_not rfl
  | _ => exact samePump_of_eq rfl rfl

theorem readInput_samePump {s t : Session} {written : Bool} (h : s.readInput written = some t) :
    SamePump s t := by
  cases readInput_reads h with
  | wrote => exact samePump_of_eq rfl rfl
  | failed | closed => exact samePump_of_not rfl

theorem readControl_samePump {s t : Session} (h : s.readControl = some t) : SamePump s t := by
  cases readControl_reads h with
  | pumped => exact handleControl_samePump _ _
  | backedOff => exact backoffControl_samePump _ _
  | closed | gaveUp => exact samePump_of_not rfl

theorem readChannel_samePump {s t : Session} {msg : ChannelMsg} (h : s.readChannel msg = some t) :
    SamePump s t := by
  cases readChannel_reads h with
  | goesOn => exact samePump_of_eq rfl rfl
  | exited hphase => exact fun _ => ⟨by rw [hphase]; rfl, rfl⟩
  | ends => exact samePump_of_not rfl

theorem forwardStep_phase {s t : Session} {op : ForwardOp} (h : s.forwardStep op = some t) :
    t.phase = s.phase ∧ t.linkDown = s.linkDown := by
  obtain ⟨-, -, c, -, ⟨status, u, -, hsend, rfl⟩ | ⟨-, rfl⟩⟩ := forwardStep_cases h
  · exact ⟨(send_phase hsend).1, (send_phase hsend).2.1⟩
  · exact ⟨rfl, rfl⟩

theorem earlierReply_phase {s t : Session} {id : ForwardId} {refused : Option String}
    (h : s.earlierReply id refused = some t) : t.phase = s.phase ∧ t.linkDown = s.linkDown := by
  obtain ⟨spec, -, rfl⟩ := earlierReply_cases h
  exact ⟨rfl, rfl⟩

theorem earlierReport_phase {s t : Session} {id : ForwardId}
    (h : s.earlierReport id = some t) : t.phase = s.phase ∧ t.linkDown = s.linkDown := by
  obtain ⟨spec, outcome, u, -, hsend, rfl⟩ := earlierReport_cases h
  exact ⟨(send_phase hsend).1, (send_phase hsend).2.1⟩

/-- Only the report of a connection starts a pump. -/
theorem step_samePump {s t : Session} {l : SessionLabel} (hl : l ≠ .emit)
    (h : s.step l = some t) : SamePump s t := by
  cases l with
  | emit => exact absurd rfl hl
  | sendInput | sendBestEffort | pumpPane | resize =>
      simp only [step] at h
      exact onPane_samePump h
  | addForward id spec =>
      simp only [step] at h
      split at h
      · cases h
      · have hsame : SamePump { s with minted := id :: s.minted } t := onPane_samePump h
        exact hsame
  | removeForward id =>
      simp only [step] at h
      split at h
      · exact onPane_samePump h
      · cases h
  | readInput written => exact readInput_samePump h
  | readControl => exact readControl_samePump h
  | channel msg => exact readChannel_samePump h
  | forward op => exact samePump_of_eq (forwardStep_phase h).1 (forwardStep_phase h).2
  | earlierReply id refused =>
      exact samePump_of_eq (earlierReply_phase h).1 (earlierReply_phase h).2
  | earlierReport id => exact samePump_of_eq (earlierReport_phase h).1 (earlierReport_phase h).2
  | relay =>
      simp only [step] at h
      split at h
      · exact Option.some.inj h ▸ samePump_of_eq rfl rfl
      · cases h
  | prompt | agentError =>
      simp only [step] at h
      split at h
      · exact samePump_of_eq (send_phase h).1 (send_phase h).2.1
      · cases h
  | closePane | relayEnds =>
      simp only [step] at h
      split at h <;> first | cases h; done | exact Option.some.inj h ▸ samePump_of_eq rfl rfl
  | established | establishFailed | shellOpened | shellFailed | backoffElapsed =>
      simp only [step] at h
      split at h <;> first | cases h; done | exact Option.some.inj h ▸ samePump_of_not rfl

/-! ## When there are forwards -/

/-- The connection has forwards only while it is pumped. -/
def Idle (s : Session) : Prop := s.phase.isPumping = false → s.connection = .empty

theorem idle_start (onExit : ExitAction) : Idle (start onExit) := fun _ => rfl

theorem Idle.of_same {s t : Session} (hs : Idle s) (hphase : t.phase = s.phase)
    (hconn : t.connection = s.connection) : Idle t :=
  fun h => hconn.trans (hs (hphase ▸ h))

theorem Idle.of_connection {s t : Session} (hs : Idle s) (hphase : s.phase.isPumping = false)
    (hconn : t.connection = s.connection) : Idle t :=
  fun _ => hconn.trans (hs hphase)

theorem Idle.emit {s t : Session} (hs : Idle s) (h : s.emit = some t) : Idle t := by
  have hkeep : ∀ {phase : Phase} {e : TransportEvent} {u : Session}, s.phase = phase →
      phase.isPumping = false → s.send e = some u → u.connection = .empty := by
    intro phase e u hphase hidle hsend
    exact (send_phase hsend).2.2.trans (hs (hphase ▸ hidle))
  cases emit_emits h with
  | connecting u hphase hsend | authenticated u hphase hsend | opened u hphase hsend =>
      have hconn := hkeep hphase rfl hsend
      exact fun _ => hconn
  | failing message u hphase hsend | closing reason u hphase hsend =>
      have hconn := hkeep hphase rfl hsend
      split <;> exact fun _ => hconn

theorem idle_endPump (s : Session) (reason : DisconnectReason) : Idle (s.endPump reason) :=
  fun _ => rfl

theorem Idle.readInput {s t : Session} {written : Bool} (hs : Idle s)
    (h : s.readInput written = some t) : Idle t := by
  cases readInput_reads h with
  | wrote => exact hs.of_same rfl rfl
  | failed | closed => exact idle_endPump _ _

theorem Idle.readControl {s t : Session} (hs : Idle s) (h : s.readControl = some t) : Idle t := by
  cases readControl_reads h with
  | pumped msg control hsel =>
      have hpump := selecting_pumping hsel
      cases msg with
      | disconnect => exact idle_endPump _ _
      | _ => exact fun hidle => (Bool.false_ne_true (hidle.symm.trans hpump)).elim
  | closed => exact idle_endPump _ _
  | backedOff msg control hsel hphase =>
      cases msg <;> exact hs.of_connection (by rw [hphase]; rfl) rfl
  | gaveUp hsel hphase => exact hs.of_connection (by rw [hphase]; rfl) rfl

theorem Idle.readChannel {s t : Session} {msg : ChannelMsg} (hs : Idle s)
    (h : s.readChannel msg = some t) : Idle t := by
  cases readChannel_reads h with
  | goesOn => exact hs
  | exited => exact fun hidle => nomatch hidle
  | ends => exact idle_endPump _ _

/-- Nothing can happen to the forwards of a connection that has none. -/
theorem step_empty (op : ForwardOp) (hadd : ∀ id spec, op ≠ .add id spec)
    (hremove : ∀ id, op ≠ .remove id) : Connection.empty.step op = none := by
  cases op with
  | add id spec => exact absurd rfl (hadd id spec)
  | remove id => exact absurd rfl (hremove id)
  | _ => rfl

theorem Idle.forwardStep {s t : Session} {op : ForwardOp} (hs : Idle s)
    (h : s.forwardStep op = some t) : Idle t := by
  intro hidle
  have hphase := (forwardStep_phase h).1
  have hempty := hs (hphase ▸ hidle)
  obtain ⟨hadd, hremove, c, hstep, -⟩ := forwardStep_cases h
  rw [hempty, step_empty op hadd hremove] at hstep
  cases hstep

/-- The forwards go with their connection. -/
theorem step_idle {s t : Session} {l : SessionLabel} (hs : Idle s)
    (h : s.step l = some t) : Idle t := by
  cases l with
  | emit => exact hs.emit h
  | sendInput | sendBestEffort | pumpPane | resize =>
      simp only [step] at h
      obtain ⟨-, rfl⟩ := onPane_open h
      exact hs
  | addForward id spec =>
      simp only [step] at h
      split at h
      · cases h
      · obtain ⟨-, rfl⟩ := onPane_open h
        exact hs
  | removeForward id =>
      obtain ⟨-, h⟩ := Option.ite_none_right_eq_some.mp h
      obtain ⟨-, rfl⟩ := onPane_open h
      exact hs
  | readInput written => exact hs.readInput h
  | readControl => exact hs.readControl h
  | channel msg => exact hs.readChannel h
  | forward op => exact hs.forwardStep h
  | earlierReply id refused =>
      obtain ⟨spec, -, rfl⟩ := earlierReply_cases h
      exact hs
  | earlierReport id =>
      obtain ⟨spec, outcome, u, -, hsend, rfl⟩ := earlierReport_cases h
      exact hs.of_same (send_phase hsend).1 (send_phase hsend).2.2
  | relay =>
      simp only [step] at h
      split at h
      · exact Option.some.inj h ▸ hs
      · cases h
  | prompt | agentError =>
      simp only [step] at h
      split at h
      · exact hs.of_same (send_phase h).1 (send_phase h).2.2
      · cases h
  | closePane =>
      simp only [step] at h
      split at h
      · cases h
      · exact Option.some.inj h ▸ hs
  | relayEnds =>
      simp only [step] at h
      split at h
      · exact Option.some.inj h ▸ hs
      · cases h
  | established | establishFailed | shellOpened | shellFailed | backoffElapsed =>
      simp only [step] at h
      split at h
      · rename_i hphase
        have hnot : s.phase.isPumping = false := by rw [hphase]; rfl
        exact Option.some.inj h ▸ hs.of_connection hnot rfl
      · cases h

end Session

end PolyTerm
