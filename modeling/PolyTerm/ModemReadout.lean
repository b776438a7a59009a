import PolyTerm.SerialClosing

/-!
# The modem readout

A serial pane shows its modem lines as they were last reported to it. The loop
polls them, reports a change, and reports nothing while a poll fails; the pane
hides them when the link goes down. Events arrive in their order, so the readout
is the fold of the reports (`readout_current`): once the pane has taken what is
under way it shows what the latest poll of this connection read, and nothing
while there is no device.
-/

namespace PolyTerm

open Runs

/-- In this phase everything the loop knows of the lines has been reported. -/
def SerialPhase.reported : SerialPhase → Bool
  | .reporting | .waiting | .ended => false
  | _ => true

/-- A serial session, what is under way to its pane, and the readout. The lines
travel with the event that reports them. -/
structure ModemReadout where
  serial : Serial
  underWay : List (TransportEvent × Option ModemLines)
  /-- the pane's `modem` -/
  modem : Option ModemLines

namespace ModemReadout

/-- What the pane makes of an event. -/
def shows (modem : Option ModemLines) : TransportEvent × Option ModemLines → Option ModemLines
  | (.modemStatus, lines) => lines
  | (.disconnected _, _) => none
  | _ => modem

def start : ModemReadout := ⟨.start, [], none⟩

/-- What a step of the loop puts under way. -/
def sent (s : Serial) : List (TransportEvent × Option ModemLines) :=
  if s.pair.events.closed then [] else s.phase.announces.toList.map fun e => (e, s.lastModem)

/-- The step of the session has been taken. -/
def after (r : ModemReadout) (l : SerialLabel) (serial : Serial) : ModemReadout :=
  match l with
  | .ui .takeEvent =>
      { serial := serial
        underWay := r.underWay.tail
        modem := (r.underWay.head?.map (shows r.modem)).getD r.modem }
  | .ui .dropEvents => { r with serial := serial, underWay := [] }
  | .emit => { r with serial := serial, underWay := r.underWay ++ sent r.serial }
  | _ => { r with serial := serial }

def step (r : ModemReadout) (l : SerialLabel) : Option ModemReadout :=
  (r.serial.step l).map (r.after l)

/-- What a step reads of the lines: a poll that is due and succeeds, and nothing
of the old device on a fresh port. -/
def reads (r : ModemReadout) : SerialLabel → List (Option ModemLines)
  | .housekeep lines =>
      if r.serial.modemDeadline ≤ r.serial.now ∧ lines.isSome then [lines] else []
  | .awaitReconnect reopened =>
      if reopened ∧ r.serial.pair.control.queue.head? = some .reconnect then [none] else []
  | _ => []

/-- What the readout comes to with what is under way. -/
def pending (r : ModemReadout) : Option ModemLines := r.underWay.foldl shows r.modem

/-! ## What the loop knows -/

variable {r r' : ModemReadout} {l : SerialLabel}

theorem serial_step (h : r.step l = some r') : r.serial.step l = some r'.serial ∧
    r' = r.after l r'.serial := by
  obtain ⟨serial, hserial, rfl⟩ := Option.map_eq_some_iff.mp h
  have hafter : (r.after l serial).serial = serial := by
    unfold after
    split <;> rfl
  rw [hafter]
  exact ⟨hserial, rfl⟩

theorem pollModem_lastModem (s : Serial) (lines : Option ModemLines) :
    (s.pollModem lines).lastModem =
      if s.modemDeadline ≤ s.now ∧ lines.isSome then lines else s.lastModem := by
  unfold Serial.pollModem
  by_cases hdue : s.modemDeadline ≤ s.now
  · rw [if_pos hdue]
    dsimp only
    by_cases hsome : lines.isSome = true
    · by_cases hsame : s.lastModem = lines
      · simp [hdue, hsome, hsame]
      · simp [hdue, hsome, hsame]
    · simp [hdue, hsome]
  · simp [hdue]

/-- What the loop remembers is what it read last. -/
theorem lastModem_step (h : r.step l = some r') :
    r'.serial.lastModem = (r.reads l).getLast?.getD r.serial.lastModem := by
  obtain ⟨h, -⟩ := serial_step h
  generalize r'.serial = t at h ⊢
  cases l with
  | ui move =>
      obtain ⟨pair, -, rfl⟩ := Option.map_eq_some_iff.mp h
      rfl
  | tick elapsed => exact Option.some.inj h ▸ rfl
  | emit =>
      obtain ⟨e, pair, -, -, rfl⟩ := Serial.emit_cases h
      unfold Serial.announced
      split <;> rfl
  | readControl =>
      obtain ⟨-, heq⟩ := Option.ite_none_right_eq_some.mp h
      split at heq
      · rename_i msg control hrecv
        obtain rfl := Option.some.inj heq
        cases msg <;> rfl
      · obtain rfl := Option.some.inj heq
        split <;> rfl
  | housekeep lines =>
      obtain ⟨-, heq⟩ := Option.ite_none_right_eq_some.mp h
      obtain rfl := Option.some.inj heq
      have hclear : r.serial.clearBreak.lastModem = r.serial.lastModem ∧
          r.serial.clearBreak.modemDeadline = r.serial.modemDeadline ∧
          r.serial.clearBreak.now = r.serial.now := by
        unfold Serial.clearBreak
        split <;> exact ⟨rfl, rfl, rfl⟩
      rw [pollModem_lastModem, hclear.1, hclear.2.1, hclear.2.2, reads]
      split <;> rfl
  | readInput results =>
      obtain ⟨-, heq⟩ := Option.ite_none_right_eq_some.mp h
      split at heq
      · obtain ⟨w, -, rfl⟩ := Option.map_eq_some_iff.mp heq
        rfl
      · obtain rfl := Option.some.inj heq
        split <;> rfl
  | readLine result =>
      obtain ⟨-, heq⟩ := Option.ite_none_right_eq_some.mp h
      cases result with
      | data bytes =>
          dsimp only at heq
          split at heq
          · exact Option.some.inj heq ▸ rfl
          · obtain ⟨-, heq⟩ := Option.ite_none_right_eq_some.mp heq
            exact Option.some.inj heq ▸ rfl
      | timedOut | interrupted | failed => exact Option.some.inj heq ▸ rfl
  | relay =>
      simp only [Serial.step, Serial.relay] at h
      split at h
      · obtain ⟨d, -, rfl⟩ := Option.map_eq_some_iff.mp h
        split <;> rfl
      · cases h
  | awaitReconnect reopened =>
      obtain ⟨-, heq⟩ := Option.ite_none_right_eq_some.mp h
      rw [reads]
      split at heq
      · rename_i msg control hrecv
        obtain rfl := Option.some.inj heq
        rw [(Fifo.recv_some hrecv).1]
        cases msg with
        | reconnect => cases reopened <;> rfl
        | _ => simp [Serial.finish]
      · rename_i hrecv
        obtain ⟨-, heq⟩ := Option.ite_none_right_eq_some.mp heq
        rw [Fifo.recv_eq_none.mp hrecv]
        exact Option.some.inj heq ▸ by simp [Serial.finish]

/-- The latest of what was read. -/
def latest (readings : List (Option ModemLines)) : Option ModemLines := readings.getLast?.join

theorem lastModem_run {labels : List SerialLabel} (hrun : run step start labels = some r) :
    r.serial.lastModem = latest (outputs step reads start labels) := by
  induction labels using List.reverseRecOn generalizing r with
  | nil =>
      obtain rfl := Option.some.inj hrun
      rfl
  | append_singleton labels l ih =>
      obtain ⟨before, hbefore, hstep⟩ := run_concat.mp hrun
      rw [lastModem_step hstep, ih hbefore, outputs_concat hbefore hstep, latest, latest,
        List.getLast?_append]
      cases (before.reads l).getLast? <;> rfl

/-! ## What the pane is told -/

/-- With what is under way the pane knows what the loop knows. -/
structure Faithful (r : ModemReadout) : Prop where
  queue : r.underWay.map Prod.fst = r.serial.pair.events.queue
  waiting : r.serial.phase = .waiting → r.pending = none
  reported : r.serial.phase.reported = true → r.pending = r.serial.lastModem

theorem faithful_start : start.Faithful := ⟨rfl, nofun, fun _ => rfl⟩

/-- A step in the middle of a turn, which says nothing. -/
theorem Faithful.quiet {t : Serial} (hr : r.Faithful) (hquiet : Serial.Quiet r.serial t)
    (hreported : r.serial.phase.reported = true)
    (hmodem : t.phase.reported = true → t.lastModem = r.serial.lastModem) :
    ({ r with serial := t } : ModemReadout).Faithful where
  queue := hr.queue.trans (congrArg Fifo.queue hquiet.events.symm)
  waiting hwaiting := by
    have hturns := hquiet.turns
    generalize t.phase = phase at hturns hwaiting
    subst hwaiting
    generalize r.serial.phase = phase at hturns hreported
    cases hturns with
    | stays => cases hreported
    | works _ hresting => cases hresting
  reported hphase := (hr.reported hreported).trans (hmodem hphase).symm

/-- An event is sent, unless the pane is gone. -/
theorem Faithful.emit {t : Serial} (hr : r.Faithful) (h : r.serial.emit = some t)
    (hopen : t.pair.events.closed = false) :
    ({ r with serial := t, underWay := r.underWay ++ sent r.serial } : ModemReadout).Faithful := by
  obtain ⟨e, pair, he, hsend, rfl⟩ := Serial.emit_cases h
  have hclosed : r.serial.pair.events.closed = false ∧
      pair.events.queue = r.serial.pair.events.queue ++ [e] := by
    rw [(Serial.announced_same _).2] at hopen
    unfold TransportPair.send at hsend
    split at hsend
    · rename_i events htry
      obtain rfl := Option.some.inj hsend
      refine ⟨?_, (Fifo.trySend_ok htry).1⟩
      unfold Fifo.trySend at htry
      split at htry
      · cases htry
      · simpa using ‹¬r.serial.pair.events.closed = true›
    · cases hsend
    · rename_i htry
      obtain rfl := Option.some.inj hsend
      exact absurd htry (Fifo.trySend_ne_closed hopen)
  have hsent : sent r.serial = [(e, r.serial.lastModem)] := by
    rw [sent, hclosed.1, he]
    rfl
  have hpending : (r.underWay ++ sent r.serial).foldl shows r.modem =
      shows r.pending (e, r.serial.lastModem) := by
    rw [hsent, List.foldl_append]
    rfl
  have hqueue : (r.underWay ++ sent r.serial).map Prod.fst = pair.events.queue := by
    rw [hsent, List.map_append, hr.queue, hclosed.2]
    rfl
  have hsame := Serial.announced_same ({ r.serial with pair := pair } : Serial)
  refine ⟨hqueue.trans (congrArg Fifo.queue hsame.2.symm), fun hwaiting => ?_, fun hphase => ?_⟩
  · rw [pending, hpending]
    cases hp : r.serial.phase with
    | removed =>
        rw [hp] at he
        obtain rfl := Option.some.inj he
        rfl
    | opened | reporting | closing | reopened =>
        simp [Serial.announced, hp, Serial.finish] at hwaiting
    | _ =>
        rw [hp] at he
        cases he
  · rw [pending, hpending]
    cases hp : r.serial.phase with
    | opened | reopened =>
        rw [hp] at he
        obtain rfl := Option.some.inj he
        simp only [Serial.announced]
        exact hr.reported (by rw [hp]; rfl)
    | reporting =>
        rw [hp] at he
        obtain rfl := Option.some.inj he
        rfl
    | closing | removed =>
        simp [Serial.announced, hp, Serial.finish, SerialPhase.reported] at hphase
    | _ =>
        rw [hp] at he
        cases he

/-- What the pane's side does, but for hanging up. -/
theorem Faithful.ui {move : UiMove} {pair : TransportPair} (hr : r.Faithful)
    (h : r.serial.pair.ui move = some pair) (hopen : pair.events.closed = false) :
    (r.after (.ui move) { r.serial with pair := pair }).Faithful := by
  have hkept : ∀ pair : TransportPair, pair.events = r.serial.pair.events →
      ({ r with serial := { r.serial with pair := pair } } : ModemReadout).Faithful :=
    fun pair hevents =>
      ⟨hr.queue.trans (congrArg Fifo.queue hevents.symm), hr.waiting, hr.reported⟩
  cases move with
  | input bytes | control msg =>
      obtain ⟨-, h⟩ := Option.ite_none_left_eq_some.mp h
      split at h
      · obtain rfl := Option.some.inj h
        exact hkept _ rfl
      · cases h
  | takeOutput =>
      obtain ⟨d, -, rfl⟩ := Option.map_eq_some_iff.mp h
      exact hkept _ rfl
  | takeEvent =>
      obtain ⟨⟨e, events⟩, hrecv, rfl⟩ := Option.map_eq_some_iff.mp h
      obtain ⟨hqueue, -⟩ := Fifo.recv_some hrecv
      obtain ⟨serial, underWay, modem⟩ := r
      cases underWay with
      | nil =>
          have hnil := hr.queue
          rw [hqueue] at hnil
          cases hnil
      | cons first rest =>
          have htail : rest.map Prod.fst = events.queue :=
            (List.cons.inj (hr.queue.trans hqueue)).2
          exact ⟨htail, hr.waiting, hr.reported⟩
  | dropInput | dropControl | dropOutput =>
      obtain rfl := Option.some.inj h
      exact hkept _ rfl
  | dropEvents =>
      obtain rfl := Option.some.inj h
      cases hopen

theorem send_open {p q : TransportPair} {e : TransportEvent} (h : p.send e = some q)
    (hopen : q.events.closed = false) : p.events.closed = false := by
  cases hclosed : p.events.closed with
  | false => rfl
  | true =>
      have hsame : p.send e = some p := by
        rw [TransportPair.send, Fifo.trySend, if_pos hclosed]
      obtain rfl := Option.some.inj (h.symm.trans hsame)
      rw [hclosed] at hopen
      cases hopen

/-- A channel that was hung up stays so. -/
theorem open_before (h : r.serial.step l = some r'.serial)
    (hopen : r'.serial.pair.events.closed = false) : r.serial.pair.events.closed = false := by
  generalize r'.serial = t at h hopen
  have hquiet : Serial.Quiet r.serial t → r.serial.pair.events.closed = false :=
    fun hquiet => hquiet.events ▸ hopen
  cases l with
  | ui move =>
      obtain ⟨pair, hpair, rfl⟩ := Option.map_eq_some_iff.mp h
      cases move with
      | input bytes | control msg =>
          obtain ⟨-, hpair⟩ := Option.ite_none_left_eq_some.mp hpair
          split at hpair
          · obtain rfl := Option.some.inj hpair
            exact hopen
          · cases hpair
      | takeOutput =>
          obtain ⟨d, -, rfl⟩ := Option.map_eq_some_iff.mp hpair
          exact hopen
      | takeEvent =>
          obtain ⟨⟨e, events⟩, hrecv, rfl⟩ := Option.map_eq_some_iff.mp hpair
          exact (Fifo.recv_some hrecv).2.symm.trans hopen
      | dropInput | dropControl | dropOutput =>
          obtain rfl := Option.some.inj hpair
          exact hopen
      | dropEvents =>
          obtain rfl := Option.some.inj hpair
          cases hopen
  | tick elapsed =>
      obtain rfl := Option.some.inj h
      exact hopen
  | emit =>
      obtain ⟨e, pair, -, hsend, rfl⟩ := Serial.emit_cases h
      rw [(Serial.announced_same _).2] at hopen
      exact send_open hsend hopen
  | readControl => exact hquiet (Serial.readControl_quiet h)
  | housekeep lines => exact hquiet (Serial.housekeep_quiet h)
  | readInput results =>
      rcases (Serial.readInput_cases h).2 with ⟨bytes, input, w, -, -, rfl⟩ | ⟨-, hq⟩
      · exact hopen
      · exact hquiet hq
  | readLine result => exact hquiet (Serial.readLine_quiet h)
  | relay => exact hquiet (Serial.relay_quiet h)
  | awaitReconnect reopened => exact hquiet (Serial.awaitReconnect_quiet h)

/-- The wait for the device ends with nothing known of the lines. -/
theorem Faithful.awaitReconnect {reopened : Bool} {t : Serial} (hr : r.Faithful)
    (h : r.serial.awaitReconnect reopened = some t) :
    ({ r with serial := t } : ModemReadout).Faithful := by
  have hquiet := Serial.awaitReconnect_quiet h
  obtain ⟨hphase, heq⟩ := Option.ite_none_right_eq_some.mp h
  have hnone : r.pending = none := hr.waiting hphase
  refine ⟨hr.queue.trans (congrArg Fifo.queue hquiet.events.symm), fun _ => hnone, ?_⟩
  intro hreported
  split at heq
  · rename_i msg control hrecv
    obtain rfl := Option.some.inj heq
    cases msg with
    | reconnect =>
        cases reopened with
        | true => exact hnone
        | false =>
            simp only [Bool.false_eq_true, if_false, hphase] at hreported
            cases hreported
    | disconnect => cases hreported
    | _ =>
        simp only [hphase] at hreported
        cases hreported
  · obtain ⟨-, heq⟩ := Option.ite_none_right_eq_some.mp heq
    obtain rfl := Option.some.inj heq
    cases hreported

/-- A poll either reports what it read or read nothing new. -/
theorem housekeep_lastModem {lines : Option ModemLines} {s t : Serial}
    (h : s.housekeep lines = some t) (hreported : t.phase.reported = true) :
    t.lastModem = s.lastModem := by
  obtain ⟨-, heq⟩ := Option.ite_none_right_eq_some.mp h
  obtain rfl := Option.some.inj heq
  have hclear : s.clearBreak.lastModem = s.lastModem := by
    unfold Serial.clearBreak
    split <;> rfl
  unfold Serial.pollModem at hreported ⊢
  split at hreported
  · dsimp only at hreported ⊢
    split at hreported
    · cases hreported
    · rename_i hdue hsame
      rw [if_pos hdue, if_neg hsame]
      exact hclear
  · rename_i hdue
    rw [if_neg hdue]
    exact hclear

theorem faithful_step (h : r.step l = some r') (hopen : r'.serial.pair.events.closed = false)
    (hr : r.Faithful) : r'.Faithful := by
  have hmodem := lastModem_step h
  obtain ⟨hstep, hafter⟩ := serial_step h
  generalize r'.serial = t at *
  subst hafter
  cases l with
  | ui move =>
      obtain ⟨pair, hpair, rfl⟩ := Option.map_eq_some_iff.mp hstep
      exact hr.ui hpair hopen
  | tick elapsed =>
      obtain rfl := Option.some.inj hstep
      exact ⟨hr.queue, hr.waiting, hr.reported⟩
  | emit => exact hr.emit hstep hopen
  | readControl =>
      have hphase := (Option.ite_none_right_eq_some.mp hstep).1
      exact hr.quiet (Serial.readControl_quiet hstep) (by rw [hphase]; rfl) fun _ => hmodem
  | housekeep lines =>
      have hphase := (Option.ite_none_right_eq_some.mp hstep).1
      exact hr.quiet (Serial.housekeep_quiet hstep) (by rw [hphase]; rfl)
        (housekeep_lastModem hstep)
  | readInput results =>
      obtain ⟨hphase, ⟨bytes, input, w, -, -, rfl⟩ | ⟨-, hquiet⟩⟩ := Serial.readInput_cases hstep
      · exact ⟨hr.queue, hr.waiting, hr.reported⟩
      · exact hr.quiet hquiet (by rw [hphase]; rfl) fun _ => hmodem
  | readLine result =>
      have hphase := (Option.ite_none_right_eq_some.mp hstep).1
      exact hr.quiet (Serial.readLine_quiet hstep) (by rw [hphase]; rfl) fun _ => hmodem
  | relay =>
      have hphase : r.serial.phase.reported = true := by
        simp only [Serial.step, Serial.relay] at hstep
        split at hstep
        · rename_i hp
          rw [hp]
          rfl
        · cases hstep
      exact hr.quiet (Serial.relay_quiet hstep) hphase fun _ => hmodem
  | awaitReconnect reopened => exact hr.awaitReconnect hstep

theorem faithful_run {labels : List SerialLabel} (hrun : run step start labels = some r)
    (hopen : r.serial.pair.events.closed = false) : r.Faithful := by
  induction labels using List.reverseRecOn generalizing r with
  | nil =>
      obtain rfl := Option.some.inj hrun
      exact faithful_start
  | append_singleton labels l ih =>
      obtain ⟨before, hbefore, hstep⟩ := run_concat.mp hrun
      exact faithful_step hstep hopen (ih hbefore (open_before (serial_step hstep).1 hopen))

/-- A pane that has taken all events shows the lines as the latest poll of the
connection read them, unless a report is just due, and none while the device is
away. -/
theorem readout_current {labels : List SerialLabel} (hrun : run step start labels = some r)
    (hopen : r.serial.pair.events.closed = false) (hseen : r.serial.pair.events.queue = []) :
    (r.serial.phase = .waiting → r.modem = none) ∧
      (r.serial.phase.reported = true → r.modem = latest (outputs step reads start labels)) := by
  have hfaithful := faithful_run hrun hopen
  have hnone : r.underWay = [] := List.map_eq_nil_iff.mp (hfaithful.queue.trans hseen)
  have hpending : r.pending = r.modem := by rw [pending, hnone, List.foldl_nil]
  rw [← hpending, ← lastModem_run hrun]
  exact ⟨hfaithful.waiting, hfaithful.reported⟩

/-- A first poll, and a second one 200 ms later that fails; then the device is
unplugged. -/
def unplugged : List SerialLabel :=
  [.emit, .readControl, .housekeep (some ⟨true, false, true, false⟩), .emit, .readInput [],
    .readLine .timedOut, .tick 200, .readControl, .housekeep none, .ui .takeEvent,
    .ui .takeEvent, .readInput [], .readLine .failed, .emit, .ui .takeEvent]

theorem readout_current_unplugged :
    (∃ r, run step start (unplugged.take 12) = some r ∧
      r.modem = latest (outputs step reads start (unplugged.take 12)) ∧
      r.modem = some ⟨true, false, true, false⟩) ∧
    ∃ r, run step start unplugged = some r ∧ r.modem = none := by
  have hfirst : (run step start (unplugged.take 12)).map (fun r =>
      (r.serial.pair.events.closed, r.serial.pair.events.queue, r.serial.phase.reported,
        r.modem)) = some (false, [], true, some ⟨true, false, true, false⟩) := rfl
  have hsecond : (run step start unplugged).map (fun r =>
      (r.serial.pair.events.closed, r.serial.pair.events.queue, r.serial.phase)) =
        some (false, [], .waiting) := rfl
  obtain ⟨r, hr, hstate⟩ := Option.map_eq_some_iff.mp hfirst
  obtain ⟨q, hq, hstate'⟩ := Option.map_eq_some_iff.mp hsecond
  simp only [Prod.mk.injEq] at hstate hstate'
  obtain ⟨hopen, hqueue, hreported, hmodem⟩ := hstate
  obtain ⟨hopen', hqueue', hwaiting⟩ := hstate'
  exact ⟨⟨r, hr, (readout_current hr hopen hqueue).2 hreported, hmodem⟩,
    ⟨q, hq, (readout_current hq hopen' hqueue').1 hwaiting⟩⟩

end ModemReadout

end PolyTerm
