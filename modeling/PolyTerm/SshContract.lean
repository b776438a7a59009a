import PolyTerm.Lifecycle
import PolyTerm.Service

/-!
# The contract of a backend

What the UI may rely on, whichever backend runs a session: after a
`disconnected`, a `connecting` comes before the next `connected`; and a
`disconnect` is answered with one `disconnected`, with which the backend ends.

The SSH session always keeps the first. It keeps the second unless it takes the
`disconnect` while backing off: it then ends without a word. The pane of the
model never asks for a disconnect, so here the control channel also takes what
anyone else who holds it sends.
-/

namespace PolyTerm

open Runs

/-- The lifecycle contract, of one run. -/
structure Contract {σ α : Type*} (b : Service σ α Life) (s : σ) (as : List α) : Prop where
  heralded : Heralded .disconnected .connecting .connected (outputs b.step b.out s as)
  answered : b.Answered s as

/-- In order, `connected` does not come up again by itself. -/
theorem Life.Ordered.heralded {last : Option Life} {xs : List Life} (h : Ordered last xs) :
    Heralded .disconnected .connecting .connected xs := by
  rintro pre mid post rfl
  obtain ⟨-, -, hrest⟩ := ordered_append.mp h
  cases mid with
  | nil => cases hrest.1
  | cons x mid =>
      have hx : Follows (some .disconnected) x := hrest.1
      cases x with
      | connecting => exact List.mem_cons_self
      | authenticated | connected => cases hx
      | disconnected => exact absurd rfl hx.2

/-! ## The SSH session -/

inductive HandleLabel where
  | session (l : SessionLabel)
  /-- a control message from whoever holds the handle -/
  | control (msg : ControlMsg)

namespace Session

def handleStep (s : Session) : HandleLabel → Option Session
  | .session l => s.step l
  | .control msg => s.onPane fun p =>
      { p with control := (p.control.trySend msg).toOption.getD p.control }

def handleLives (s : Session) : HandleLabel → List Life
  | .session l => s.lives l
  | .control _ => []

/-- The step takes a `disconnect` off the control channel. -/
def TakesDisconnect (s : Session) : HandleLabel → Prop
  | .session .readControl => s.pane.control.queue.head? = some .disconnect
  | _ => False

instance (s : Session) : ∀ l, Decidable (s.TakesDisconnect l)
  | .session .readControl => inferInstanceAs (Decidable (_ = _))
  | .session (.sendInput _) | .session (.sendBestEffort _) | .session (.pumpPane _)
  | .session (.addForward _ _) | .session (.removeForward _) | .session (.resize _ _)
  | .session .closePane | .session .relay | .session .relayEnds | .session (.prompt _)
  | .session (.agentError _) | .session .established | .session (.establishFailed _)
  | .session .shellOpened | .session (.shellFailed _) | .session .emit
  | .session (.readInput _) | .session (.channel _) | .session .backoffElapsed
  | .session (.forward _) | .session (.earlierReply _ _) | .session (.earlierReport _)
  | .control _ => .isFalse id

/-- What can be relied on to happen: the next event goes out, and the relay makes room for it. -/
def Assured (_ : Session) : HandleLabel → Prop
  | .session .emit | .session .relay => True
  | _ => False

def service : Service Session HandleLabel Life where
  step := handleStep
  out := handleLives
  asks := TakesDisconnect
  answer := .disconnected
  ended := fun s => s.phase = .ended
  owed := Assured

variable {s t : Session} {l : HandleLabel} {last : Option Life}

theorem lives_of_ne {l : SessionLabel} (hl : l ≠ .emit) : s.lives l = [] := by
  unfold lives
  split
  · exact absurd rfl hl
  · rfl

/-- Only `emit` says anything; every other step moves the phase. -/
theorem handleStep_cases (h : s.handleStep l = some t) :
    (l = .session .emit ∧ s.emit = some t) ∨
      (s.handleLives l = [] ∧ Phase.Moves s.phase t.phase) := by
  cases l with
  | control msg =>
      simp only [handleStep] at h
      exact Or.inr ⟨rfl, onPane_moves h⟩
  | session l =>
      by_cases hl : l = .emit
      · subst hl
        exact Or.inl ⟨rfl, h⟩
      · exact Or.inr ⟨lives_of_ne hl, step_moves hl h⟩

theorem handleStep_lives (hlast : s.phase.After last) (h : s.handleStep l = some t) :
    Life.Ordered last (s.handleLives l) ∧
      t.phase.After (Life.latest last (s.handleLives l)) := by
  rcases handleStep_cases h with ⟨rfl, hemit⟩ | ⟨hnone, hmoves⟩
  · exact emit_lives hlast hemit
  · rw [hnone]
    exact ⟨trivial, hmoves.after hlast⟩

/-! ### The events channel -/

/-- What a step can do to the events channel. -/
inductive EventsMove (s t : Session) : Prop where
  | same (h : t.events = s.events)
  | sent {e : TransportEvent} {u : Session} (hsend : s.send e = some u) (h : t.events = u.events)
  | taken {e : TransportEvent} (h : s.events.recv = some (e, t.events))

theorem EventsMove.of_send {e : TransportEvent} (h : s.send e = some t) : EventsMove s t :=
  .sent h rfl

theorem onPane_events {f : LivePane → LivePane} (h : s.onPane f = some t) :
    t.events = s.events := by
  obtain ⟨-, rfl⟩ := onPane_open h
  rfl

theorem readInput_events {written : Bool} (h : s.readInput written = some t) :
    t.events = s.events := by
  cases readInput_reads h <;> rfl

theorem readControl_events (h : s.readControl = some t) : t.events = s.events := by
  cases readControl_reads h with
  | pumped msg | backedOff msg => cases msg <;> rfl
  | closed | gaveUp => rfl

theorem readChannel_events {msg : ChannelMsg} (h : s.readChannel msg = some t) :
    t.events = s.events := by
  cases readChannel_reads h <;> rfl

theorem forwardStep_events {op : ForwardOp} (h : s.forwardStep op = some t) : EventsMove s t := by
  obtain ⟨-, -, c, -, ⟨status, u, -, hsend, rfl⟩ | ⟨-, rfl⟩⟩ := forwardStep_cases h
  · exact .sent hsend rfl
  · exact .same rfl

theorem step_events {l : SessionLabel} (h : s.step l = some t) : EventsMove s t := by
  cases l with
  | emit =>
      obtain ⟨e, u, -, hsend, hevents⟩ := emit_sends h
      exact .sent hsend hevents
  | sendInput | sendBestEffort | pumpPane | resize =>
      simp only [step] at h
      exact .same (onPane_events h)
  | addForward id spec =>
      simp only [step] at h
      split at h
      · cases h
      · have hsame : t.events = ({ s with minted := id :: s.minted } : Session).events :=
          onPane_events h
        exact .same hsame
  | removeForward id =>
      obtain ⟨-, h⟩ := Option.ite_none_right_eq_some.mp h
      exact .same (onPane_events h)
  | readInput written => exact .same (readInput_events h)
  | readControl => exact .same (readControl_events h)
  | channel msg => exact .same (readChannel_events h)
  | forward op => exact forwardStep_events h
  | earlierReply id refused =>
      obtain ⟨spec, -, rfl⟩ := earlierReply_cases h
      exact .same rfl
  | earlierReport id =>
      obtain ⟨spec, outcome, u, -, hsend, rfl⟩ := earlierReport_cases h
      exact .sent hsend rfl
  | relay =>
      simp only [step] at h
      split at h
      · rename_i e events hrecv
        obtain rfl := Option.some.inj h
        exact .taken hrecv
      · cases h
  | prompt | agentError =>
      simp only [step] at h
      split at h
      · exact .of_send h
      · cases h
  | closePane | relayEnds =>
      simp only [step] at h
      split at h <;> first | cases h; done | exact .same (Option.some.inj h ▸ rfl)
  | established | establishFailed | shellOpened | shellFailed | backoffElapsed =>
      obtain ⟨-, heq⟩ := Option.ite_none_right_eq_some.mp h
      exact .same (Option.some.inj heq ▸ rfl)

/-- The events channel is open, at its standard capacity. -/
def Standard (s : Session) : Prop :=
  s.events.capacity = eventChannelCapacity ∧ s.events.closed = false

theorem Standard.of_events (hs : s.Standard) (h : t.events = s.events) : t.Standard := by
  unfold Standard
  rw [h]
  exact hs

theorem Standard.send {e : TransportEvent} (hs : s.Standard) (h : s.send e = some t) :
    t.Standard := by
  unfold Session.send at h
  split at h
  · exact Option.some.inj h ▸ hs
  · split at h
    · rename_i events hsend
      obtain rfl := Option.some.inj h
      exact ⟨(Fifo.trySend_capacity hsend).trans hs.1, (Fifo.trySend_ok hsend).2⟩
    · cases h

theorem Standard.handleStep (hs : s.Standard) (h : s.handleStep l = some t) : t.Standard := by
  have hmove : EventsMove s t := by
    cases l with
    | session l => exact step_events h
    | control msg =>
        simp only [Session.handleStep] at h
        exact .same (onPane_events h)
  cases hmove with
  | same heq => exact hs.of_events heq
  | sent hsend heq => exact (hs.send hsend).of_events heq
  | taken hrecv =>
      exact ⟨(Fifo.recv_capacity hrecv).trans hs.1, (Fifo.recv_some hrecv).2.trans hs.2⟩

/-- A send that waits can go on once the relay has taken an event. -/
theorem send_waits {e : TransportEvent} (hs : s.Standard) (h : s.send e = none) :
    ∃ r u, s.step .relay = some r ∧ r.phase = s.phase ∧ r.send e = some u := by
  unfold send at h
  split at h
  case isTrue => cases h
  case isFalse hopen =>
    split at h
    · cases h
    · rename_i err hsend
      cases err with
      | closed => exact absurd hsend (Fifo.trySend_ne_closed hs.2)
      | full =>
          have hpos : 0 < s.events.capacity := by rw [hs.1]; decide
          obtain ⟨y, d, hrecv, events, hroom⟩ := Fifo.trySend_full hsend hpos
          obtain ⟨r, hr, hphase, hclosed, hevents⟩ : ∃ r, s.step .relay = some r ∧
              r.phase = s.phase ∧ r.uiClosed = s.uiClosed ∧ r.events = d := by
            simp only [step, hrecv]
            exact ⟨_, rfl, rfl, rfl, rfl⟩
          exact ⟨r, { r with events := events }, hr, hphase,
            by rw [send, hclosed, if_neg hopen, hevents, hroom]⟩

/-! ### The answer -/

/-- The `disconnected` of a `disconnect` is to be sent. -/
def Due (s : Session) : Prop := s.phase = .closing .local ∧ s.Standard

theorem due_step (hs : s.Due) (h : s.handleStep l = some t) :
    (s.handleLives l = [] ∧ t.Due) ∨ (s.handleLives l = [.disconnected] ∧ t.phase = .ended) := by
  obtain ⟨hphase, hstandard⟩ := hs
  have hstandard' := hstandard.handleStep h
  rcases handleStep_cases h with ⟨rfl, hemit⟩ | ⟨hnone, hmoves⟩
  · right
    refine ⟨by simp [handleLives, lives, hphase, Phase.announces, TransportEvent.life], ?_⟩
    cases emit_emits hemit with
    | closing reason u hclosing =>
        obtain rfl := Phase.closing.inj (hphase.symm.trans hclosing)
        rfl
    | connecting u hother | failing message u hother | authenticated u hother | opened u hother =>
        cases hphase.symm.trans hother
  · left
    refine ⟨hnone, ?_, hstandard'⟩
    rw [hphase] at hmoves
    generalize t.phase = phase at hmoves
    cases hmoves
    rfl

theorem ended_step (hs : s.phase = .ended) (h : s.handleStep l = some t) :
    s.handleLives l = [] ∧ t.phase = .ended := by
  rcases handleStep_cases h with ⟨rfl, hemit⟩ | ⟨hnone, hmoves⟩
  · obtain ⟨e, u, he, -⟩ := emit_sends hemit
    rw [hs] at he
    cases he
  · refine ⟨hnone, ?_⟩
    rw [hs] at hmoves
    generalize t.phase = phase at hmoves
    cases hmoves
    rfl

/-- With room for it, the `disconnected` goes out. -/
theorem emit_ends (hphase : s.phase = .closing .local)
    (hsend : s.send (.disconnected .local) = some t) : service.CanEnd s := by
  have hemit : s.handleStep (.session .emit) =
      some ({ t with linkDown := true } : Session).finish := by
    have heq : s.emit = (s.send (.disconnected .local)).map fun s =>
        ({ s with linkDown := true } : Session).finish := by
      unfold emit
      rw [hphase]
      rfl
    rw [handleStep, step, heq, hsend]
    rfl
  have hended : service.ended ({ t with linkDown := true } : Session).finish := rfl
  exact .of_step (b := service) (a := .session .emit) trivial hemit (.of_ended hended)

theorem due_ends (hs : s.Due) : service.CanEnd s := by
  obtain ⟨hphase, hstandard⟩ := hs
  cases hsend : s.send (.disconnected .local) with
  | some u => exact emit_ends hphase hsend
  | none =>
      obtain ⟨r, u, hr, hsame, hu⟩ := send_waits hstandard hsend
      exact .of_step (b := service) (a := .session .relay) trivial hr
        (emit_ends (hsame.trans hphase) hu)

theorem service_ends : service.Ends Due where
  due_step _ _ _ := due_step
  ended_step _ _ _ := ended_step
  due_open s hs hended := by
    have hphase : s.phase = .ended := hended
    rw [hs.1] at hphase
    cases hphase
  due_ends _ := due_ends

/-- A `disconnect` taken by the pump is answered, one taken while backing off
ends the session. -/
theorem takesDisconnect_step (hasks : s.TakesDisconnect l) (h : s.handleStep l = some t) :
    (s.phase ≠ .waiting → t.phase = .closing .local) ∧ (s.phase = .waiting → t.phase = .ended) := by
  cases l with
  | control msg => cases hasks
  | session l =>
      cases l with
      | readControl =>
          obtain ⟨control, hrecv⟩ := Fifo.recv_of_head hasks
          cases readControl_reads h with
          | pumped msg control' hsel hrecv' =>
              obtain ⟨rfl, rfl⟩ := Prod.mk.inj (Option.some.inj (hrecv.symm.trans hrecv'))
              refine ⟨fun _ => rfl, fun hwait => ?_⟩
              rw [selecting, hwait] at hsel
              cases hsel
          | backedOff msg control' hsel hphase hrecv' =>
              obtain ⟨rfl, rfl⟩ := Prod.mk.inj (Option.some.inj (hrecv.symm.trans hrecv'))
              exact ⟨fun hnot => absurd hphase hnot, fun _ => rfl⟩
          | closed hsel hrecv' | gaveUp hsel hphase hrecv' => cases hrecv.symm.trans hrecv'
      | _ => cases hasks

/-- A session keeps the contract exactly when it takes no `disconnect` while
backing off. -/
theorem contract_iff {onExit : ExitAction} {labels : List HandleLabel}
    (hrun : run handleStep (start onExit) labels = some t) :
    Contract service (start onExit) labels ↔
      Along handleStep (fun s l => ¬(s.TakesDisconnect l ∧ s.phase = .waiting)) (start onExit)
        labels := by
  have hlives := Life.ordered_run (fun last s => s.phase.After last)
    (fun _ _ _ _ => handleStep_lives) (Or.inl rfl) hrun
  have hstart : (start onExit).Standard := ⟨rfl, rfl⟩
  have hanswered : service.Answered (start onExit) labels ↔ _ :=
    service_ends.answered_iff Standard (fun s => s.phase = .waiting)
      (fun s l t hs h => hs.handleStep h)
      (fun s l t hs h hasks hopen => ⟨(takesDisconnect_step hasks h).1 hopen, hs.handleStep h⟩)
      (fun s l t h hasks hwaits => (takesDisconnect_step hasks h).2 hwaits)
      hstart hrun
  exact ⟨fun h => hanswered.mp h.answered, fun h => ⟨hlives.1.heralded, hanswered.mpr h⟩⟩

end Session

end PolyTerm
