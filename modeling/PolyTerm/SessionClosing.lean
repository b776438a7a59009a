import PolyTerm.ForwardSession
import PolyTerm.Settling

/-!
# Closing the pane of an SSH session

The task of a session learns only from its channels that the pane is gone, and it
looks at them in the pump and in the backoff. So it first comes to one of these:
setting a connection up goes on until the network or the user has answered. Then it
works off what was sent before, where a reconnect can still start another attempt,
and ends at the closed channel. As long as it has not ended it can go on, whatever
it is answered (`session_ends`).
-/

namespace PolyTerm

open Runs

/-- The steps from the phase to the end, by the longest way. -/
def Phase.rank : Phase → Nat
  | .ended => 0
  | .waiting => 1
  | .failing _ | .closing _ => 2
  | .pumping _ => 3
  | .opened => 4
  | .opening => 5
  | .authenticated => 6
  | .establishing => 7
  | .connecting => 8

/-- What a removal still waits for. -/
def Connection.unfinished (c : Connection) : Nat :=
  match c.stopping with
  | none => 0
  | some ⟨_, _, cancelling⟩ => if cancelling then 2 else 1

theorem Connection.stop_unfinished (c : Connection) (id : ForwardId) (h : c.stopping = none) :
    (c.stop id).unfinished ≤ 2 := by
  cases hlookup : c.forwards.lookup id with
  | none =>
      rw [stop_absent hlookup, unfinished, h]
      exact Nat.zero_le 2
  | some f =>
      rw [stop_eq hlookup]
      simp only [unfinished]
      split <;> omega

theorem Connection.start_unfinished (c : Connection) (id : ForwardId) (spec : ForwardSpec) :
    (c.start id spec).unfinished = c.unfinished := by
  rw [start_eq]
  rfl

/-- Only the two steps of a removal count. -/
theorem Connection.step_unfinished {c d : Connection} {op : ForwardOp} (h : c.step op = some d)
    (hadd : ∀ id spec, op ≠ .add id spec) (hremove : ∀ id, op ≠ .remove id) :
    if op = .cancelled ∨ op = .reportClosed then d.unfinished < c.unfinished
    else d.unfinished = c.unfinished := by
  cases op with
  | add id spec => exact absurd rfl (hadd id spec)
  | remove id => exact absurd rfl (hremove id)
  | cancelled =>
      simp only [Connection.step] at h
      split at h
      · rename_i hstopping
        obtain rfl := Option.some.inj h
        simp [unfinished, hstopping]
      · cases h
  | reportClosed =>
      simp only [Connection.step] at h
      split at h
      · rename_i hstopping
        obtain rfl := Option.some.inj h
        simp [unfinished, hstopping]
      · cases h
  | reply id refused =>
      simp only [Connection.step] at h
      split at h
      · split at h <;> exact Option.some.inj h ▸ rfl
      · cases h
  | report id =>
      simp only [Connection.step] at h
      split at h
      · exact Option.some.inj h ▸ rfl
      · cases h

namespace Session

variable {s t : Session} {l : SessionLabel}

/-- A step that gets the session on: its own, or an answer it waits for. -/
def moves (_ : Session) : SessionLabel → Bool
  | .emit | .established | .establishFailed _ | .shellOpened | .shellFailed _ => true
  | .readInput _ | .readControl => true
  | .channel .data | .channel .close | .channel .gone => true
  | .forward .cancelled | .forward .reportClosed => true
  | _ => false

def elapses : SessionLabel → Bool
  | .backoffElapsed => true
  | _ => false

/-- What is left to the session. A control message can start another attempt. -/
def rest (s : Session) : Nat :=
  s.phase.rank + s.connection.unfinished + 8 * s.pane.control.queue.length +
    s.pane.input.queue.length

/-! ## A session without a pane -/

theorem send_closed (h : s.uiClosed = true) (e : TransportEvent) : s.send e = some s := by
  rw [send, h]
  rfl

theorem onPane_closed (h : s.uiClosed = true) (f : LivePane → LivePane) : s.onPane f = none := by
  rw [onPane, h]
  rfl

/-- What is left falls, and there is no pane still. -/
structure Lowers (s t : Session) : Prop where
  closed : t.uiClosed = true
  rest : t.rest < s.rest

/-- What is left does not grow, and there is no pane still. -/
structure Keeps (s t : Session) : Prop where
  closed : t.uiClosed = true
  rest : t.rest ≤ s.rest

/-- A later phase, and nothing more to read than before. -/
theorem lowers_of_phase (ht : t.uiClosed = true) (hphase : t.phase.rank < s.phase.rank)
    (hconnection : t.connection.unfinished ≤ s.connection.unfinished)
    (hcontrol : t.pane.control.queue.length ≤ s.pane.control.queue.length)
    (hinput : t.pane.input.queue.length ≤ s.pane.input.queue.length) : Lowers s t := by
  refine ⟨ht, ?_⟩
  unfold Session.rest
  omega

theorem finish_lowers (ht : t.uiClosed = true) (hrank : 0 < s.phase.rank)
    (hconnection : t.connection = s.connection) : Lowers s t.finish :=
  lowers_of_phase ht hrank (hconnection ▸ Nat.le_refl _) (Nat.zero_le _) (Nat.zero_le _)

theorem pumping_rank (h : s.phase.isPumping = true) : s.phase.rank = 3 := by
  cases hphase : s.phase with
  | pumping exited => rfl
  | _ =>
      rw [hphase] at h
      cases h

theorem endPump_lowers (hs : s.uiClosed = true) (hpumping : s.phase.isPumping = true)
    (reason : DisconnectReason) : Lowers s (s.endPump reason) := by
  have hrank : (Phase.closing reason).rank < s.phase.rank := by
    rw [pumping_rank hpumping]
    exact Nat.lt_succ_self 2
  exact lowers_of_phase hs hrank (Nat.zero_le _) (Nat.le_refl _) (Nat.le_refl _)

theorem emit_lowers (hs : s.uiClosed = true) (h : s.emit = some t) : Lowers s t := by
  have hphase_lowers : ∀ {phase phase' : Phase} {linkDown : Bool}, s.phase = phase →
      phase'.rank < phase.rank → Lowers s { s with phase := phase', linkDown := linkDown } :=
    fun hphase hrank => lowers_of_phase hs (by rw [hphase]; exact hrank) (Nat.le_refl _)
      (Nat.le_refl _) (Nat.le_refl _)
  have hfinish_lowers : ∀ {phase : Phase}, s.phase = phase → 0 < phase.rank →
      Lowers s ({ s with linkDown := true } : Session).finish :=
    fun hphase hrank => finish_lowers hs (by rw [hphase]; exact hrank) rfl
  cases emit_emits h with
  | connecting u hphase hsend | authenticated u hphase hsend | opened u hphase hsend =>
      obtain rfl := Option.some.inj ((send_closed hs _).symm.trans hsend)
      exact hphase_lowers hphase (Nat.lt_succ_self _)
  | failing _ u hphase hsend | closing _ u hphase hsend =>
      obtain rfl := Option.some.inj ((send_closed hs _).symm.trans hsend)
      split
      · exact hphase_lowers hphase (Nat.lt_succ_self 1)
      · exact hfinish_lowers hphase (Nat.succ_pos 1)

theorem tookInput_lowers {bytes : Bytes} {input : Fifo Bytes} (hs : s.uiClosed = true)
    (hrecv : s.pane.input.recv = some (bytes, input)) : Lowers s (s.tookInput input) := by
  refine ⟨hs, ?_⟩
  have hqueue := congrArg List.length (Fifo.recv_some hrecv).1
  rw [List.length_cons] at hqueue
  simp only [Session.rest, tookInput]
  omega

theorem Lowers.trans {u : Session} (h : Lowers s t) (h' : Lowers t u) : Lowers s u :=
  ⟨h'.closed, h'.rest.trans h.rest⟩

theorem readInput_lowers {written : Bool} (hs : s.uiClosed = true)
    (h : s.readInput written = some t) : Lowers s t := by
  have hpumping := selecting_pumping (readInput_selecting h)
  cases readInput_reads h with
  | wrote bytes input _ hrecv => exact tookInput_lowers hs hrecv
  | failed bytes input _ hrecv =>
      have htook := tookInput_lowers hs hrecv
      have hpumping' : (s.tookInput input).phase.isPumping = true := hpumping
      exact htook.trans (endPump_lowers htook.closed hpumping' _)
  | closed => exact endPump_lowers hs hpumping _

/-- Reading a message makes up for what handling it may add. -/
theorem readOff_rest {msg : ControlMsg} {control : Fifo ControlMsg}
    (hrecv : s.pane.control.recv = some (msg, control)) :
    (s.readOff control).rest + 8 = s.rest := by
  have hqueue := congrArg List.length (Fifo.recv_some hrecv).1
  rw [List.length_cons] at hqueue
  simp only [Session.rest, readOff]
  omega

/-- No earlier phase and nothing more to read, but perhaps a removal to wait for. -/
theorem rest_le_of_phase {n : Nat} (hphase : t.phase.rank ≤ s.phase.rank)
    (hconnection : t.connection.unfinished ≤ s.connection.unfinished + n)
    (hcontrol : t.pane.control.queue.length ≤ s.pane.control.queue.length)
    (hinput : t.pane.input.queue.length ≤ s.pane.input.queue.length) : t.rest ≤ s.rest + n := by
  unfold Session.rest
  omega

theorem handleControl_rest (hsel : s.selecting = true) (msg : ControlMsg) :
    (s.handleControl msg).rest ≤ s.rest + 2 := by
  cases msg with
  | addForward id spec =>
      have hstart := (s.connection.start_unfinished id spec).le
      exact rest_le_of_phase (Nat.le_refl _) (hstart.trans (Nat.le_add_right _ 2)) (Nat.le_refl _)
        (Nat.le_refl _)
  | removeForward id =>
      have hstop := s.connection.stop_unfinished id (selecting_stopping hsel)
      exact rest_le_of_phase (Nat.le_refl _) (hstop.trans (Nat.le_add_left 2 _)) (Nat.le_refl _)
        (Nat.le_refl _)
  | disconnect =>
      have hrank : (Phase.closing .local).rank ≤ s.phase.rank := by
        rw [pumping_rank (selecting_pumping hsel)]
        exact Nat.le_succ 2
      exact rest_le_of_phase hrank (Nat.zero_le _) (Nat.le_refl _) (Nat.le_refl _)
  | _ => exact Nat.le_add_right _ _

/-- Another attempt is started. -/
theorem retry_rest (h : s.phase = .waiting) : s.retry.rest = s.rest + 7 := by
  have hconnecting : Phase.connecting.rank = 8 := rfl
  have hwaiting : s.phase.rank = 1 := by rw [h]; rfl
  simp only [Session.rest, retry, hconnecting]
  omega

theorem readControl_lowers (hs : s.uiClosed = true) (h : s.readControl = some t) :
    Lowers s t := by
  cases readControl_reads h with
  | pumped msg control hsel hrecv =>
      have hread := readOff_rest hrecv
      have hsel' : (s.readOff control).selecting = true := hsel
      have hhandled := handleControl_rest hsel' msg
      refine ⟨?_, by omega⟩
      cases msg <;> exact hs
  | closed hsel => exact endPump_lowers hs (selecting_pumping hsel) _
  | backedOff msg control _ hphase hrecv =>
      have hread := readOff_rest hrecv
      cases msg with
      | reconnect =>
          refine ⟨hs, ?_⟩
          have hretry := retry_rest (s := s.readOff control) hphase
          rw [backoffControl]
          omega
      | disconnect =>
          exact finish_lowers hs (by rw [hphase]; decide) rfl
      | _ =>
          have hless : (s.readOff control).rest < s.rest := by omega
          exact ⟨hs, hless⟩
  | gaveUp _ hphase => exact finish_lowers hs (by rw [hphase]; decide) rfl

theorem readChannel_lowers {msg : ChannelMsg} (hs : s.uiClosed = true)
    (hmoves : s.moves (.channel msg) = true) (h : s.readChannel msg = some t) : Lowers s t := by
  have hends : ∀ {reason : DisconnectReason}, s.phase.isPumping = true →
      Lowers s (s.endPump reason) := fun hpumping => endPump_lowers hs hpumping _
  unfold readChannel at h
  split at h
  case h_2 => cases h
  case h_1 exited hphase =>
    obtain ⟨-, heq⟩ := Option.ite_none_left_eq_some.mp h
    have hpumping : s.phase.isPumping = true := by rw [hphase]; rfl
    cases msg with
    | data =>
        rw [hs] at heq
        exact Option.some.inj heq ▸ hends hpumping
    | close | gone => exact Option.some.inj heq ▸ hends hpumping
    | extendedData | exitStatus | eof | other => cases hmoves

theorem readChannel_keeps {msg : ChannelMsg} (hs : s.uiClosed = true)
    (h : s.readChannel msg = some t) : Keeps s t := by
  cases readChannel_reads h with
  | goesOn => exact ⟨hs, Nat.le_refl _⟩
  | exited hphase =>
      have hrank : (Phase.pumping true).rank = s.phase.rank := by rw [hphase]; rfl
      refine ⟨hs, ?_⟩
      simp only [Session.rest, hrank]
      omega
  | ends hphase =>
      have hended := endPump_lowers hs (by rw [hphase]; rfl)
      exact ⟨hs, (hended _).rest.le⟩

theorem forwardStep_rest {op : ForwardOp} (hs : s.uiClosed = true)
    (h : s.forwardStep op = some t) :
    t.uiClosed = true ∧ ∃ c, s.connection.step op = some c ∧
      t.rest + s.connection.unfinished = s.rest + c.unfinished := by
  obtain ⟨-, -, c, hstep, ⟨status, u, -, hsend, rfl⟩ | ⟨-, rfl⟩⟩ := forwardStep_cases h
  · obtain rfl := Option.some.inj ((send_closed hs _).symm.trans hsend)
    refine ⟨hs, c, hstep, ?_⟩
    simp only [Session.rest]
    omega
  · refine ⟨hs, c, hstep, ?_⟩
    simp only [Session.rest]
    omega

theorem step_lowers (hs : s.uiClosed = true) (h : s.step l = some t) (hmoves : s.moves l = true) :
    Lowers s t := by
  cases l with
  | emit => exact emit_lowers hs h
  | established | establishFailed | shellOpened | shellFailed =>
      obtain ⟨hphase, heq⟩ := Option.ite_none_right_eq_some.mp h
      obtain rfl := Option.some.inj heq
      refine lowers_of_phase hs ?_ (Nat.le_refl _) (Nat.le_refl _) (Nat.le_refl _)
      rw [hphase]
      simp [Phase.rank]
  | readInput written => exact readInput_lowers hs h
  | readControl => exact readControl_lowers hs h
  | channel msg => exact readChannel_lowers hs hmoves h
  | forward op =>
      obtain ⟨hclosed, c, hstep, hrest⟩ := forwardStep_rest hs h
      obtain ⟨hadd, hremove, -⟩ := forwardStep_cases h
      have hless := Connection.step_unfinished hstep hadd hremove
      have hremoval : op = .cancelled ∨ op = .reportClosed := by
        cases op with
        | cancelled => exact .inl rfl
        | reportClosed => exact .inr rfl
        | _ => cases hmoves
      rw [if_pos hremoval] at hless
      exact ⟨hclosed, by omega⟩
  | _ => cases hmoves

/-- Of the other steps only the end of a delay, which starts another attempt, adds to what
is left. -/
theorem step_keeps (hs : s.uiClosed = true) (h : s.step l = some t) (hmoves : s.moves l = false) :
    t.uiClosed = true ∧ t.rest ≤ s.rest + if elapses l then 7 else 0 := by
  have hsame : ∀ {u : Session}, u.uiClosed = true → u.rest = s.rest →
      u.uiClosed = true ∧ u.rest ≤ s.rest + if elapses l then 7 else 0 :=
    fun hu hrest => ⟨hu, by omega⟩
  cases l with
  | sendInput | sendBestEffort | pumpPane | resize =>
      simp only [step, onPane_closed hs] at h
      cases h
  | addForward id spec =>
      simp only [step, onPane_closed (s := { s with minted := id :: s.minted }) hs, ite_self] at h
      cases h
  | removeForward id =>
      simp only [step, onPane_closed hs, ite_self] at h
      cases h
  | closePane =>
      simp only [step, hs, if_true] at h
      cases h
  | relay =>
      simp only [step] at h
      split at h
      · obtain rfl := Option.some.inj h
        exact hsame hs rfl
      · cases h
  | relayEnds =>
      obtain ⟨-, heq⟩ := Option.ite_none_right_eq_some.mp h
      obtain rfl := Option.some.inj heq
      exact hsame hs rfl
  | prompt | agentError =>
      obtain ⟨-, heq⟩ := Option.ite_none_right_eq_some.mp h
      rw [send_closed hs] at heq
      obtain rfl := Option.some.inj heq
      exact hsame hs rfl
  | channel msg =>
      obtain ⟨hclosed, hrest⟩ := readChannel_keeps hs h
      exact ⟨hclosed, hrest.trans (Nat.le_add_right _ _)⟩
  | backoffElapsed =>
      obtain ⟨hphase, heq⟩ := Option.ite_none_right_eq_some.mp h
      obtain rfl := Option.some.inj heq
      exact ⟨hs, (retry_rest hphase).le⟩
  | forward op =>
      obtain ⟨hclosed, c, hstep, hrest⟩ := forwardStep_rest hs h
      obtain ⟨hadd, hremove, -⟩ := forwardStep_cases h
      have heq := Connection.step_unfinished hstep hadd hremove
      have hother : ¬(op = .cancelled ∨ op = .reportClosed) := by
        rintro (rfl | rfl) <;> cases hmoves
      rw [if_neg hother] at heq
      exact hsame hclosed (by omega)
  | earlierReply id refused =>
      obtain ⟨spec, -, rfl⟩ := earlierReply_cases h
      exact hsame hs rfl
  | earlierReport id =>
      obtain ⟨spec, outcome, u, -, hsend, rfl⟩ := earlierReport_cases h
      obtain rfl := Option.some.inj ((send_closed hs _).symm.trans hsend)
      exact hsame hs rfl
  | _ => cases hmoves

/-! ## Going on -/

/-- A step that gets the session on can happen. -/
def Goes (s : Session) : Prop := ∃ l t, s.moves l = true ∧ s.step l = some t

theorem goes_of_emit (hs : s.uiClosed = true)
    (hphase : s.phase = .connecting ∨ (∃ message, s.phase = .failing message) ∨
      s.phase = .authenticated ∨ s.phase = .opened ∨ ∃ reason, s.phase = .closing reason) :
    s.Goes := by
  have hemit : ∃ t, s.emit = some t := by
    unfold emit
    rcases hphase with hphase | ⟨message, hphase⟩ | hphase | hphase | ⟨reason, hphase⟩
    all_goals
      rw [hphase]
      simp only [send_closed hs]
      exact ⟨_, rfl⟩
  obtain ⟨t, ht⟩ := hemit
  exact ⟨.emit, t, rfl, ht⟩

theorem readControl_isSome (hs : s.uiClosed = true)
    (h : s.selecting = true ∨ s.selecting = false ∧ s.phase = .waiting) :
    ∃ t, s.readControl = some t := by
  unfold readControl
  rcases h with hsel | ⟨hsel, hphase⟩
  · rw [if_pos hsel, hs]
    split <;> exact ⟨_, rfl⟩
  · rw [if_neg (by rw [hsel]; decide), if_pos hphase, hs]
    split <;> exact ⟨_, rfl⟩

/-- The pump is at its `select`, or a removal can be finished. -/
theorem goes_of_pumping (hs : s.uiClosed = true) (hphase : s.phase.isPumping = true) :
    s.Goes := by
  cases hstopping : s.connection.stopping with
  | none =>
      have hsel : s.selecting = true := by simp [selecting, hphase, hstopping]
      obtain ⟨t, ht⟩ := readControl_isSome hs (.inl hsel)
      exact ⟨.readControl, t, rfl, ht⟩
  | some removal =>
      obtain ⟨id, spec, cancelling⟩ := removal
      cases cancelling with
      | true =>
          have hstep : ∃ t, s.step (.forward .cancelled) = some t := by
            simp only [step, forwardStep, Connection.step, Connection.emits, hstopping]
            exact ⟨_, rfl⟩
          obtain ⟨t, ht⟩ := hstep
          exact ⟨.forward .cancelled, t, rfl, ht⟩
      | false =>
          have hstep : ∃ t, s.step (.forward .reportClosed) = some t := by
            simp only [step, forwardStep, Connection.step, Connection.emits, hstopping,
              Option.bind_some, send_closed hs]
            exact ⟨_, rfl⟩
          obtain ⟨t, ht⟩ := hstep
          exact ⟨.forward .reportClosed, t, rfl, ht⟩

theorem goes_on (hs : s.uiClosed = true) (hphase : s.phase ≠ .ended) : s.Goes := by
  cases hp : s.phase with
  | connecting => exact goes_of_emit hs (.inl hp)
  | failing message => exact goes_of_emit hs (.inr (.inl ⟨message, hp⟩))
  | authenticated => exact goes_of_emit hs (.inr (.inr (.inl hp)))
  | opened => exact goes_of_emit hs (.inr (.inr (.inr (.inl hp))))
  | closing reason => exact goes_of_emit hs (.inr (.inr (.inr (.inr ⟨reason, hp⟩))))
  | establishing => exact ⟨.established, _, rfl, if_pos hp⟩
  | opening => exact ⟨.shellOpened, _, rfl, if_pos hp⟩
  | pumping exited => exact goes_of_pumping hs (by rw [hp]; rfl)
  | waiting =>
      have hsel : s.selecting = false := by simp [selecting, hp, Phase.isPumping]
      obtain ⟨t, ht⟩ := readControl_isSome hs (.inr ⟨hsel, hp⟩)
      exact ⟨.readControl, t, rfl, ht⟩
  | ended => exact absurd hp hphase

end Session

/-! ## How much can be left -/

/-- The channels to the backend are as large as before. -/
structure LivePane.SameRoom (p q : LivePane) : Prop where
  input : q.input.capacity = p.input.capacity
  control : q.control.capacity = p.control.capacity

namespace LivePane

theorem SameRoom.of_eq {p q : LivePane} (hinput : q.input.capacity = p.input.capacity)
    (hcontrol : q.control = p.control) : SameRoom p q := ⟨hinput, by rw [hcontrol]⟩

theorem sendInput_room (p : LivePane) (bytes : Bytes) : SameRoom p (p.sendInput bytes) := by
  refine .of_eq ?_ (Session.sendInput_same p bytes).2.2
  unfold sendInput
  split
  · rfl
  · split
    · split
      · rename_i hsend
        exact Fifo.trySend_capacity hsend
      · rw [enqueueInput_input]
      · rfl
    · rw [enqueueInput_input]

theorem sendBestEffort_room (p : LivePane) (bytes : Bytes) :
    SameRoom p (p.sendBestEffort bytes) := by
  unfold sendBestEffort
  split
  · rename_i hsend
    exact ⟨Fifo.trySend_capacity hsend, rfl⟩
  · exact ⟨rfl, rfl⟩

theorem foldl_sendBestEffort_room (replies : List Bytes) (p : LivePane) :
    (replies.foldl sendBestEffort p).input.capacity = p.input.capacity := by
  induction replies generalizing p with
  | nil => rfl
  | cons bytes replies ih => exact (ih _).trans (sendBestEffort_room p bytes).input

theorem flush_room (pending : List Bytes) (input : Fifo Bytes) :
    (flush input pending).1.capacity = input.capacity := by
  induction pending generalizing input with
  | nil => rfl
  | cons front rest ih =>
      rw [flush]
      split
      · rename_i hsend
        exact (ih _).trans (Fifo.trySend_capacity hsend)
      · rfl
      · rfl

theorem pump_room (p : LivePane) (fed : Fed) : SameRoom p (p.pump fed).1 := by
  refine .of_eq ?_ (Session.pump_same p fed).2.2
  have hevents := foldl_applyEvent_input p.drainInput.events p.drainInput
  have hdrained : p.drainInput.input.capacity = p.input.capacity := flush_room _ _
  refine (foldl_sendBestEffort_room fed.replies _).trans ?_
  exact (congrArg Fifo.capacity hevents).trans hdrained

/-- A control message is sent if there is room. -/
theorem asked_room {forwards : Table ForwardId ForwardStatus} (p : LivePane) (msg : ControlMsg) :
    SameRoom p { p with
      control := (p.control.trySend msg).toOption.getD p.control, forwards := forwards } :=
  ⟨rfl, Fifo.getD_trySend_capacity _ _⟩

end LivePane

namespace Session

variable {s t : Session} {l : SessionLabel}

theorem onPane_room {f : LivePane → LivePane} (hf : ∀ p : LivePane, p.SameRoom (f p))
    (h : s.onPane f = some t) : s.pane.SameRoom t.pane := by
  obtain ⟨-, rfl⟩ := onPane_open h
  exact hf s.pane

theorem send_room {u : Session} {e : TransportEvent} (h : s.send e = some u)
    (hpane : t.pane = u.pane) : s.pane.SameRoom t.pane := by
  rw [hpane, send_pane h]
  exact ⟨rfl, rfl⟩

theorem readInput_room {written : Bool} (h : s.readInput written = some t) :
    s.pane.SameRoom t.pane := by
  cases readInput_reads h with
  | wrote bytes input _ hrecv | failed bytes input _ hrecv => exact ⟨Fifo.recv_capacity hrecv, rfl⟩
  | closed => exact ⟨rfl, rfl⟩

theorem readControl_room (h : s.readControl = some t) : s.pane.SameRoom t.pane := by
  cases readControl_reads h with
  | pumped msg control _ hrecv | backedOff msg control _ _ hrecv =>
      have hcapacity := Fifo.recv_capacity hrecv
      cases msg <;> exact ⟨rfl, hcapacity⟩
  | closed | gaveUp => exact ⟨rfl, rfl⟩

theorem step_room (h : s.step l = some t) : s.pane.SameRoom t.pane := by
  cases l with
  | sendInput bytes => exact onPane_room (fun p => p.sendInput_room bytes) h
  | sendBestEffort bytes => exact onPane_room (fun p => p.sendBestEffort_room bytes) h
  | pumpPane fed => exact onPane_room (fun p => p.pump_room fed) h
  | resize cols rows =>
      simp only [step] at h
      obtain ⟨-, rfl⟩ := onPane_open h
      exact s.pane.asked_room (.resize cols rows)
  | addForward id spec =>
      obtain ⟨-, heq⟩ := Option.ite_none_left_eq_some.mp h
      obtain ⟨-, rfl⟩ := onPane_open heq
      exact s.pane.asked_room (.addForward id spec)
  | removeForward id =>
      obtain ⟨-, heq⟩ := Option.ite_none_right_eq_some.mp h
      obtain ⟨-, rfl⟩ := onPane_open heq
      exact s.pane.asked_room (.removeForward id)
  | closePane =>
      obtain ⟨-, heq⟩ := Option.ite_none_left_eq_some.mp h
      exact Option.some.inj heq ▸ ⟨rfl, rfl⟩
  | relay =>
      simp only [step] at h
      split at h
      · exact Option.some.inj h ▸ ⟨rfl, rfl⟩
      · cases h
  | relayEnds | established | establishFailed | shellOpened | shellFailed | backoffElapsed =>
      obtain ⟨-, heq⟩ := Option.ite_none_right_eq_some.mp h
      exact Option.some.inj heq ▸ ⟨rfl, rfl⟩
  | prompt | agentError =>
      obtain ⟨-, heq⟩ := Option.ite_none_right_eq_some.mp h
      exact send_room heq rfl
  | emit =>
      cases emit_emits h with
      | connecting u _ hsend | authenticated u _ hsend | opened u _ hsend =>
          exact send_room hsend rfl
      | failing _ u _ hsend | closing _ u _ hsend =>
          have hsame : s.pane.SameRoom u.pane := send_room hsend rfl
          split <;> exact ⟨hsame.input, hsame.control⟩
  | readInput written => exact readInput_room h
  | readControl => exact readControl_room h
  | channel msg => cases readChannel_reads h <;> exact ⟨rfl, rfl⟩
  | forward op =>
      obtain ⟨-, -, c, -, ⟨status, u, -, hsend, rfl⟩ | ⟨-, rfl⟩⟩ := forwardStep_cases h
      · exact send_room hsend rfl
      · exact ⟨rfl, rfl⟩
  | earlierReply id refused =>
      obtain ⟨spec, -, rfl⟩ := earlierReply_cases h
      exact ⟨rfl, rfl⟩
  | earlierReport id =>
      obtain ⟨spec, outcome, u, -, hsend, rfl⟩ := earlierReport_cases h
      exact send_room hsend rfl

theorem room_run {onExit : ExitAction} {labels : List SessionLabel}
    (hrun : run step (start onExit) labels = some s) :
    s.pane.input.capacity = inputChannelCapacity ∧
      s.pane.control.capacity = controlChannelCapacity :=
  invariant (I := fun s => s.pane.input.capacity = inputChannelCapacity ∧
      s.pane.control.capacity = controlChannelCapacity)
    (fun _ _ _ hs h => ⟨(step_room h).input.trans hs.1, (step_room h).control.trans hs.2⟩)
    ⟨rfl, rfl⟩ hrun

theorem rest_le {onExit : ExitAction} {labels : List SessionLabel}
    (hrun : run step (start onExit) labels = some s) : s.rest ≤ 394 := by
  obtain ⟨hinput, hcontrol⟩ := room_run hrun
  have hrank : s.phase.rank ≤ 8 := by
    cases s.phase <;> simp [Phase.rank]
  have hremoval : s.connection.unfinished ≤ 2 := by
    unfold Connection.unfinished
    split
    · exact Nat.zero_le 2
    · split <;> omega
  have hcontrols : s.pane.control.queue.length ≤ 16 := s.pane.control.bounded.trans_eq hcontrol
  have hinputs : s.pane.input.queue.length ≤ 256 := s.pane.input.bounded.trans_eq hinput
  unfold rest
  omega

/-- Once the pane is gone, whatever the session was doing and whatever it is answered, no
more than 394 of its steps are left, and 7 for each delay that elapses; none can
elapse but one that was running when the pane went, for the closed channel cuts a
delay short. Until it has ended it can go on, and once it has no forward is up. -/
theorem session_ends {onExit : ExitAction} {labels more : List SessionLabel}
    (hrun : run step (start onExit) labels = some s) (hclosed : s.uiClosed = true)
    (hmore : run step s more = some t) :
    (moved step moves s more).length ≤ 394 + 7 * more.countP elapses ∧
      (t.phase = .ended ∧ t.connection = .empty ∨ t.phase ≠ .ended ∧ t.Goes) := by
  have hkeep : ∀ s l t, s.uiClosed = true → step s l = some t → t.uiClosed = true := by
    intro s l t hs h
    cases hmoves : s.moves l with
    | true => exact (step_lowers hs h hmoves).closed
    | false => exact (step_keeps hs h hmoves).1
  constructor
  · have hmoved := moves_le_counted hkeep (fun s l t hs h hm => (step_lowers hs h hm).rest)
      (fun s l t hs h hm => (step_keeps hs h hm).2) hclosed hmore
    have hbound := rest_le hrun
    omega
  · have hidle : Idle t :=
      invariant (fun _ _ _ hs h => step_idle hs h) (idle_start onExit) (by
        rw [run_append, hrun]
        exact hmore)
    by_cases hphase : t.phase = .ended
    · exact .inl ⟨hphase, hidle (by rw [hphase]; rfl)⟩
    · exact .inr ⟨hphase, goes_on (invariant hkeep hclosed hmore) hphase⟩

/-- The pane is closed while a forward is being removed. -/
def closedWhileRemoving : List SessionLabel :=
  [.emit, .established, .emit, .shellOpened, .emit,
    .addForward ⟨1⟩ ⟨.remote, "", 8080, "web", 80⟩, .readControl, .removeForward ⟨1⟩,
    .readControl, .sendInput [97], .closePane]

/-- The removal is finished, the input written, and the session ends. -/
def windsUp : List SessionLabel :=
  [.forward .cancelled, .forward .reportClosed, .readInput true, .readInput true, .emit]

theorem session_ends_whileRemoving : ∃ s t, run step (start .prompt) closedWhileRemoving = some s ∧
    run step s windsUp = some t ∧ (moved step moves s windsUp).length ≤ 394 + 7 * 0 ∧
    t.phase = .ended := by
  have hrun : (run step (start .prompt) (closedWhileRemoving ++ windsUp)).map (·.phase) =
      some .ended := rfl
  have hstate : (run step (start .prompt) closedWhileRemoving).map (·.uiClosed) = some true := rfl
  obtain ⟨t, ht, hended⟩ := Option.map_eq_some_iff.mp hrun
  obtain ⟨s, hs, hclosed⟩ := Option.map_eq_some_iff.mp hstate
  rw [run_append, hs, Option.bind_some] at ht
  exact ⟨s, t, hs, ht, (session_ends hs hclosed ht).1, hended⟩

end Session

end PolyTerm
