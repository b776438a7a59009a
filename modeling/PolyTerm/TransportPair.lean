import PolyTerm.Pane

/-!
# Both ends of a session's channels

The four channels of a session at their standard capacities. The UI's end may
do anything, in any order and at any time, its senders and receivers can be
dropped one by one; the backend's moves are the backend models' own.
-/

namespace PolyTerm

def outputChannelCapacity : Nat := 64

structure TransportPair where
  output : Fifo Bytes
  input : Fifo Bytes
  control : Fifo ControlMsg
  events : Fifo TransportEvent
  /-- the UI's sender of `input` was dropped -/
  inputEnded : Bool
  /-- the UI's sender of `control` was dropped -/
  controlEnded : Bool

/-- What the UI's end can do. A send that is refused is no move. -/
inductive UiMove where
  | input (bytes : Bytes)
  | control (msg : ControlMsg)
  | takeOutput
  | takeEvent
  | dropInput
  | dropControl
  | dropOutput
  | dropEvents
deriving DecidableEq, Repr

namespace TransportPair

def newPair : TransportPair where
  output := .empty outputChannelCapacity
  input := .empty inputChannelCapacity
  control := .empty controlChannelCapacity
  events := .empty eventChannelCapacity
  inputEnded := false
  controlEnded := false

def ui (p : TransportPair) : UiMove → Option TransportPair
  | .input bytes =>
      if p.inputEnded then none
      else match p.input.trySend bytes with
        | .ok input => some { p with input := input }
        | .error _ => none
  | .control msg =>
      if p.controlEnded then none
      else match p.control.trySend msg with
        | .ok control => some { p with control := control }
        | .error _ => none
  | .takeOutput => p.output.recv.map fun r => { p with output := r.2 }
  | .takeEvent => p.events.recv.map fun r => { p with events := r.2 }
  | .dropInput => some { p with inputEnded := true }
  | .dropControl => some { p with controlEnded := true }
  | .dropOutput => some { p with output := p.output.close }
  | .dropEvents => some { p with events := p.events.close }

/-- Send an event: it waits while the channel is full, and the error of a
channel without a receiver is ignored. -/
def send (p : TransportPair) (e : TransportEvent) : Option TransportPair :=
  match p.events.trySend e with
  | .ok events => some { p with events := events }
  | .error .full => none
  | .error .closed => some p

/-- Send output, and whether there is still a receiver: it waits while the
channel is full. -/
def deliver (p : TransportPair) (bytes : Bytes) : Option (TransportPair × Bool) :=
  match p.output.trySend bytes with
  | .ok output => some ({ p with output := output }, true)
  | .error .full => none
  | .error .closed => some (p, false)

/-- The backend's receivers are dropped. -/
def finish (p : TransportPair) : TransportPair :=
  { p with input := p.input.close, control := p.control.close }

/-! ## The events -/

/-- The events channel is one of `newPair`, whatever is in it. -/
def Standard (p : TransportPair) : Prop := p.events.capacity = eventChannelCapacity

theorem standard_newPair : newPair.Standard := rfl

theorem Standard.ui {p q : TransportPair} {m : UiMove} (hp : p.Standard) (h : p.ui m = some q) :
    q.Standard := by
  cases m with
  | input | control =>
      simp only [TransportPair.ui] at h
      split at h
      · cases h
      · split at h
        · exact Option.some.inj h ▸ hp
        · cases h
  | takeOutput =>
      obtain ⟨r, -, rfl⟩ := Option.map_eq_some_iff.mp h
      exact hp
  | takeEvent =>
      obtain ⟨⟨e, events⟩, hrecv, rfl⟩ := Option.map_eq_some_iff.mp h
      exact (Fifo.recv_capacity hrecv).trans hp
  | dropInput | dropControl | dropOutput | dropEvents => exact Option.some.inj h ▸ hp

/-- A send changes the events channel only. -/
theorem send_eq {p q : TransportPair} {e : TransportEvent} (h : p.send e = some q) :
    ∃ events, q = { p with events := events } ∧ events.capacity = p.events.capacity := by
  unfold send at h
  split at h
  · rename_i events hsend
    exact ⟨events, (Option.some.inj h).symm, Fifo.trySend_capacity hsend⟩
  · cases h
  · exact ⟨p.events, (Option.some.inj h).symm, rfl⟩

theorem Standard.send {p q : TransportPair} {e : TransportEvent} (hp : p.Standard)
    (h : p.send e = some q) : q.Standard := by
  obtain ⟨events, rfl, hcapacity⟩ := send_eq h
  exact hcapacity.trans hp

/-- Output does not touch the events. -/
theorem deliver_events {p : TransportPair} {bytes : Bytes} {r : TransportPair × Bool}
    (h : p.deliver bytes = some r) : r.1.events = p.events := by
  unfold deliver at h
  split at h
  · exact Option.some.inj h ▸ rfl
  · cases h
  · exact Option.some.inj h ▸ rfl

/-- A send that waits can go on once the UI has taken an event. -/
theorem send_waits {p : TransportPair} {e : TransportEvent} (hp : p.Standard)
    (h : p.send e = none) : ∃ q r, p.ui .takeEvent = some q ∧ q.send e = some r := by
  unfold TransportPair.send at h
  split at h
  case h_1 => cases h
  case h_3 => cases h
  case h_2 hfull =>
    have hpos : 0 < p.events.capacity := by rw [hp]; decide
    obtain ⟨y, d, hrecv, events, hsend⟩ := Fifo.trySend_full hfull hpos
    exact ⟨{ p with events := d }, { p with events := events },
      by rw [TransportPair.ui, hrecv]; rfl, by rw [TransportPair.send, hsend]⟩

end TransportPair

end PolyTerm
