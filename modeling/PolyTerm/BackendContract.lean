import PolyTerm.PtyControl
import PolyTerm.SerialContract

/-!
# The contract across the backends

The controller of a local shell says that it is connected, and once that it is
not; it keeps the contract in every run. With the serial and the SSH session
that makes the three backends, and says exactly which of their runs keep it.
-/

namespace PolyTerm

open Runs

/-! ## The local shell -/

/-- What a step does to the phase, and what it says of the link. -/
inductive PtyPhase.Turns : PtyPhase → PtyPhase → List Life → Prop where
  | stays (phase : PtyPhase) : Turns phase phase []
  | breaks (reason : DisconnectReason) : Turns .selecting (.reaping reason) []
  | opens : Turns .opened .selecting [.connected]
  | closes (reason : DisconnectReason) : Turns (.reaping reason) .ended [.disconnected]

/-- Everything said of the link before the phase. -/
def PtyPhase.said : PtyPhase → List Life
  | .opened => []
  | .selecting | .reaping _ => [.connected]
  | .ended => [.connected, .disconnected]

theorem PtyPhase.Turns.said {phase phase' : PtyPhase} {ys : List Life}
    (h : Turns phase phase' ys) : phase.said ++ ys = phase'.said := by
  cases h with
  | stays => exact List.append_nil _
  | breaks | opens | closes => rfl

theorem PtyPhase.said_heralded (phase : PtyPhase) :
    Heralded .disconnected .connecting .connected phase.said := by
  have hup : Heralded .disconnected .connecting .connected [Life.connected] :=
    heralded_of_not_mem (by decide)
  cases phase with
  | opened => exact heralded_of_not_mem List.not_mem_nil
  | selecting | reaping => exact hup
  | ended =>
      have hne : Life.disconnected ≠ .connected := nofun
      exact (heralded_concat hne).mpr hup

namespace Pty

/-- The lifecycle event a step sends. -/
def lives (s : Pty) (l : PtyLabel) : List Life := (s.sends l).filterMap TransportEvent.life

/-- The step takes a `disconnect` off the control channel. -/
def TakesDisconnect (s : Pty) : PtyLabel → Prop
  | .readControl => s.pair.control.queue.head? = some .disconnect
  | _ => False

/-- What can be relied on to happen: the turns of the controller, the UI taking its events,
and the exit of a shell that was told to exit. -/
def Assured (s : Pty) : PtyLabel → Prop
  | .ui move => move = .takeEvent
  | .shellExits => s.killed = true
  | .emit | .readControl | .readExit => True

def service : Service Pty PtyLabel Life where
  step := step
  out := lives
  asks := TakesDisconnect
  answer := .disconnected
  ended := fun s => s.phase = .ended
  owed := Assured

variable {s t : Pty} {l : PtyLabel}

theorem emit_turns (h : s.emit = some t) :
    s.phase.Turns t.phase (s.lives .emit) ∧ (s.pair.Standard → t.pair.Standard) := by
  unfold emit at h
  split at h
  · rename_i hphase
    obtain ⟨pair, hpair, rfl⟩ := Option.map_eq_some_iff.mp h
    refine ⟨?_, fun hs => hs.send hpair⟩
    simp only [lives, sends, hphase]
    exact .opens
  · rename_i reason hphase
    obtain ⟨-, heq⟩ := Option.ite_none_right_eq_some.mp h
    obtain ⟨pair, hpair, rfl⟩ := Option.map_eq_some_iff.mp heq
    have hkeep : s.pair.Standard → pair.Standard := fun hs => hs.send hpair
    refine ⟨?_, hkeep⟩
    simp only [lives, sends, hphase]
    exact .closes reason
  · cases h

theorem readControl_turns (h : s.readControl = some t) :
    s.phase.Turns t.phase [] ∧ t.pair.events = s.pair.events := by
  obtain ⟨hphase, heq⟩ := Option.ite_none_right_eq_some.mp h
  split at heq
  · rename_i msg control hrecv
    obtain rfl := Option.some.inj heq
    cases msg with
    | disconnect => exact ⟨hphase ▸ .breaks _, rfl⟩
    | _ => exact ⟨.stays _, rfl⟩
  · obtain ⟨-, heq⟩ := Option.ite_none_right_eq_some.mp heq
    exact Option.some.inj heq ▸ ⟨hphase ▸ .breaks _, rfl⟩

theorem step_turns (h : s.step l = some t) :
    s.phase.Turns t.phase (s.lives l) ∧ (s.pair.Standard → t.pair.Standard) := by
  cases l with
  | emit => exact emit_turns h
  | ui move =>
      obtain ⟨pair, hpair, rfl⟩ := Option.map_eq_some_iff.mp h
      exact ⟨.stays _, fun hs => hs.ui hpair⟩
  | shellExits => exact Option.some.inj h ▸ ⟨.stays _, id⟩
  | readControl =>
      exact (readControl_turns h).imp id fun heq hs => (congrArg Fifo.capacity heq).trans hs
  | readExit =>
      obtain ⟨⟨hphase, -⟩, heq⟩ := Option.ite_none_right_eq_some.mp h
      exact Option.some.inj heq ▸ ⟨hphase ▸ .breaks _, id⟩

theorem run_said {labels : List PtyLabel} (hrun : run step start labels = some t) :
    outputs step lives start labels = t.phase.said := by
  induction labels using List.reverseRecOn generalizing t with
  | nil => exact Option.some.inj hrun ▸ rfl
  | append_singleton labels l ih =>
      obtain ⟨r, hr, hstep⟩ := run_concat.mp hrun
      rw [outputs_concat hr hstep, ih hr]
      exact (step_turns hstep).1.said

/-- The `disconnected` of a `disconnect` is to be sent, and the shell was told to exit. -/
structure Due (s : Pty) : Prop where
  phase : s.phase = .reaping .local
  killed : s.killed = true
  standard : s.pair.Standard

/-- What the shell was told is not taken back. -/
theorem step_killed (hs : s.killed = true) (h : s.step l = some t) : t.killed = true := by
  cases l with
  | ui move =>
      obtain ⟨pair, -, rfl⟩ := Option.map_eq_some_iff.mp h
      exact hs
  | shellExits => exact Option.some.inj h ▸ hs
  | emit =>
      change s.emit = some t at h
      unfold emit at h
      split at h
      · obtain ⟨pair, -, rfl⟩ := Option.map_eq_some_iff.mp h
        exact hs
      · obtain ⟨-, heq⟩ := Option.ite_none_right_eq_some.mp h
        obtain ⟨pair, -, rfl⟩ := Option.map_eq_some_iff.mp heq
        exact hs
      · cases h
  | readControl =>
      obtain ⟨-, heq⟩ := Option.ite_none_right_eq_some.mp h
      split at heq
      · rename_i msg control hrecv
        obtain rfl := Option.some.inj heq
        cases msg with
        | disconnect => rfl
        | _ => exact hs
      · obtain ⟨-, heq⟩ := Option.ite_none_right_eq_some.mp heq
        exact Option.some.inj heq ▸ rfl
  | readExit =>
      obtain ⟨-, heq⟩ := Option.ite_none_right_eq_some.mp h
      exact Option.some.inj heq ▸ hs

theorem due_step (hs : s.Due) (h : s.step l = some t) :
    (s.lives l = [] ∧ t.Due) ∨ (s.lives l = [.disconnected] ∧ t.phase = .ended) := by
  obtain ⟨hturns, hkeep⟩ := step_turns h
  have hkilled := step_killed hs.killed h
  have hstandard := hkeep hs.standard
  rw [hs.phase] at hturns
  generalize hphase : t.phase = phase, s.lives l = ys at hturns ⊢
  cases hturns with
  | stays => exact Or.inl ⟨rfl, hphase, hkilled, hstandard⟩
  | closes => exact Or.inr ⟨rfl, rfl⟩

theorem ended_step (hs : s.phase = .ended) (h : s.step l = some t) :
    s.lives l = [] ∧ t.phase = .ended := by
  have hturns := (step_turns h).1
  rw [hs] at hturns
  generalize t.phase = phase, s.lives l = ys at hturns ⊢
  cases hturns
  exact ⟨rfl, rfl⟩

/-- Once the shell is reaped and there is room for it, the `disconnected` goes out. -/
theorem emit_ends {pair : TransportPair} (hphase : s.phase = .reaping .local)
    (hreaped : s.reaped = true) (hsend : s.pair.send (.disconnected .local) = some pair) :
    service.CanEnd s := by
  have hemit : s.step .emit = some ({ s with pair := pair } : Pty).finish := by
    simp only [step, emit, hphase, hreaped, hsend, if_true, Option.map_some]
  have hended : service.ended ({ s with pair := pair } : Pty).finish := rfl
  exact .of_step (b := service) (a := .emit) trivial hemit (.of_ended hended)

/-- The shell that was told to exit is reaped, and the `disconnected` goes out. -/
theorem due_ends (hs : s.Due) : service.CanEnd s := by
  refine .of_step (b := service) (a := .shellExits) hs.killed rfl ?_
  cases hsend : s.pair.send (.disconnected .local) with
  | some pair => exact emit_ends (s := { s with reaped := true }) hs.phase rfl hsend
  | none =>
      obtain ⟨q, pair, hq, hpair⟩ := TransportPair.send_waits hs.standard hsend
      have htaken : ({ s with reaped := true } : Pty).step (.ui .takeEvent) =
          some { s with reaped := true, pair := q } := by
        rw [step, hq]
        rfl
      refine .of_step (b := service) (a := .ui .takeEvent) rfl htaken ?_
      exact emit_ends (s := { s with reaped := true, pair := q }) hs.phase rfl hpair

theorem service_ends : service.Ends Due where
  due_step _ _ _ := due_step
  ended_step _ _ _ := ended_step
  due_open s hs hended := by
    have hphase : s.phase = .ended := hended
    rw [hs.phase] at hphase
    cases hphase
  due_ends _ := due_ends

/-- A `disconnect` that is taken tells the shell to exit. -/
theorem takesDisconnect_step (hasks : s.TakesDisconnect l) (h : s.step l = some t) :
    t.phase = .reaping .local ∧ t.killed = true := by
  cases l with
  | readControl =>
      obtain ⟨control, hrecv⟩ := Fifo.recv_of_head hasks
      obtain ⟨-, heq⟩ := Option.ite_none_right_eq_some.mp h
      rw [hrecv] at heq
      exact Option.some.inj heq ▸ ⟨rfl, rfl⟩
  | _ => cases hasks

theorem contract {labels : List PtyLabel} (hrun : run step start labels = some t) :
    Contract service start labels := by
  have hstart : start.pair.Standard := TransportPair.standard_newPair
  have hanswered : service.Answered start labels ↔ _ :=
    service_ends.answered_iff (fun s => s.pair.Standard) (fun _ => False)
      (fun s l t hs h => (step_turns h).2 hs)
      (fun s l t hs h hasks _ =>
        have ⟨hphase, hkilled⟩ := takesDisconnect_step hasks h
        ⟨hphase, hkilled, (step_turns h).2 hs⟩)
      (fun s l t _ _ hwaits => hwaits.elim) hstart hrun
  refine ⟨?_, hanswered.mpr (along_true.mono fun _ _ _ h => h.2)⟩
  have hsaid : outputs service.step service.out start labels = t.phase.said := run_said hrun
  rw [hsaid]
  exact t.phase.said_heralded

end Pty

/-! ## All three -/

/-- Which runs keep the contract: of the serial session those that neither
report a reopened port nor take a `disconnect` while waiting for it, of the
local shell all, of the SSH session those that take no `disconnect` while
backing off. -/
theorem backends_keep_contract {onExit : ExitAction} {serialLabels : List SerialLabel}
    {ptyLabels : List PtyLabel} {sshLabels : List HandleLabel} {s : Serial} {p : Pty} {x : Session}
    (hserial : run Serial.step Serial.start serialLabels = some s)
    (hpty : run Pty.step Pty.start ptyLabels = some p)
    (hssh : run Session.handleStep (Session.start onExit) sshLabels = some x) :
    (Contract Serial.service Serial.start serialLabels ↔
        Along Serial.step Serial.Regular Serial.start serialLabels) ∧
      Contract Pty.service Pty.start ptyLabels ∧
      (Contract Session.service (Session.start onExit) sshLabels ↔
        Along Session.handleStep (fun s l => ¬(s.TakesDisconnect l ∧ s.phase = .waiting))
          (Session.start onExit) sshLabels) :=
  ⟨Serial.contract_iff hserial, Pty.contract hpty, Session.contract_iff hssh⟩

/-- A session is connected. -/
def Session.connect : List HandleLabel :=
  [.session .emit, .session .established, .session .emit, .session .shellOpened, .session .emit]

def Serial.disconnectAtOnce : List SerialLabel :=
  [.emit, .ui (.control .disconnect), .readControl, .emit]

def Pty.disconnectAtOnce : List PtyLabel :=
  [.emit, .ui (.control .disconnect), .readControl, .shellExits, .emit]

def Session.disconnectAtOnce : List HandleLabel :=
  connect ++ [.control .disconnect, .session .readControl, .session .emit]

/-- Each of them is told to disconnect while it is connected. -/
theorem backends_keep_contract_disconnect :
    Contract Serial.service Serial.start Serial.disconnectAtOnce ∧
      Contract Pty.service Pty.start Pty.disconnectAtOnce ∧
      Contract Session.service (Session.start .prompt) Session.disconnectAtOnce := by
  have hserial : ∃ s, run Serial.step Serial.start Serial.disconnectAtOnce = some s := ⟨_, rfl⟩
  have hpty : ∃ p, run Pty.step Pty.start Pty.disconnectAtOnce = some p := ⟨_, rfl⟩
  have hssh : ∃ x, run Session.handleStep (Session.start .prompt) Session.disconnectAtOnce =
    some x := ⟨_, rfl⟩
  obtain ⟨⟨s, hserial⟩, ⟨p, hpty⟩, ⟨x, hssh⟩⟩ := And.intro hserial (And.intro hpty hssh)
  obtain ⟨hs, hp, hx⟩ := backends_keep_contract hserial hpty hssh
  exact ⟨hs.mpr (by decide), hp, hx.mpr (by decide)⟩

/-- An adapter is pulled out. -/
def Serial.unplug : List SerialLabel :=
  [.emit, .readControl, .housekeep none, .readInput [], .readLine .failed, .emit]

/-- It is put back, and the user reconnects. -/
def Serial.replug : List SerialLabel :=
  unplug ++ [.ui (.control .reconnect), .awaitReconnect true, .emit]

/-- The user gives the session up instead. -/
def Serial.giveUp : List SerialLabel :=
  unplug ++ [.ui (.control .disconnect), .awaitReconnect false]

/-- The link drops, and the user gives up while the session backs off. -/
def Session.giveUp : List HandleLabel :=
  connect ++ [.session (.channel .gone), .session .emit, .control .disconnect,
    .session .readControl]

/-- Both backends that reconnect break the contract. -/
theorem contract_broken :
    (outputs Serial.step Serial.lives Serial.start Serial.replug =
        [.connected, .disconnected, .connected] ∧
      ¬Contract Serial.service Serial.start Serial.replug) ∧
    (outputs Serial.step Serial.lives Serial.start Serial.giveUp = [.connected, .disconnected] ∧
      ¬Contract Serial.service Serial.start Serial.giveUp) ∧
    ¬Contract Session.service (Session.start .prompt) Session.giveUp := by
  refine ⟨⟨rfl, ?_⟩, ⟨rfl, ?_⟩, ?_⟩
  · have hrun : ∃ s, run Serial.step Serial.start Serial.replug = some s := ⟨_, rfl⟩
    obtain ⟨s, hrun⟩ := hrun
    rw [Serial.contract_iff hrun]
    decide
  · have hrun : ∃ s, run Serial.step Serial.start Serial.giveUp = some s := ⟨_, rfl⟩
    obtain ⟨s, hrun⟩ := hrun
    rw [Serial.contract_iff hrun]
    decide
  · have hrun : ∃ s, run Session.handleStep (Session.start .prompt) Session.giveUp = some s :=
      ⟨_, rfl⟩
    obtain ⟨s, hrun⟩ := hrun
    rw [Session.contract_iff hrun]
    decide

end PolyTerm
