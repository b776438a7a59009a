import PolyTerm.Backlog
import PolyTerm.Pane
import PolyTerm.Runs

/-!
# The input line of a pane

What a pane writes toward the far end goes over one bounded channel. Typing
and pastes go through `sendInput`, which is a backlog's `send`; mouse reports
and the terminal's replies are sent now or lost. `Line` runs the pane beside
the same backlog over numbered chunks, the number being a chunk's place in the
order the pane produced them; `Holds` ties the two, so what is proved of
numbers is a fact about the pane's own queues.
-/

namespace PolyTerm

open Runs

namespace LivePane

/-! ## The pane's queues are a backlog -/

/-- A mouse report that encodes to nothing is not sent. -/
def reportMouse (p : LivePane) (out : Bytes) : LivePane :=
  if out.isEmpty then p else p.sendBestEffort out

/-- A pump between its drain and its replies. -/
def absorb (p : LivePane) (fed : Fed) : LivePane :=
  let p := p.events.foldl applyEvent p
  { p with
    events := []
    finished := p.finished || p.eventsEnded
    snapshot := fed.snapshot
    bracketedPaste := fed.bracketedPaste }

theorem pump_eq (p : LivePane) (fed : Fed) :
    (p.pump fed).1 = fed.replies.foldl sendBestEffort (p.drainInput.absorb fed) := rfl

/-- The input channel, the pending queue and the mark are those of `b`. -/
structure Holds (p : LivePane) (b : Backlog Bytes) : Prop where
  input : p.input = b.channel
  pending : p.pendingInput = b.pending
  dropping : p.droppingInput = b.dropping
  cap : b.cap = inputPendingCap

theorem flush_eq (pending : List Bytes) (input : Fifo Bytes) :
    flush input pending = Backlog.flush input pending := by
  induction pending generalizing input with
  | nil => rfl
  | cons front rest ih =>
      rw [flush, Backlog.flush]
      cases input.trySend front with
      | ok input' => exact ih input'
      | error e => cases e <;> rfl

section Holds

variable {p : LivePane} {b : Backlog Bytes}

theorem Holds.enqueueInput (h : p.Holds b) (data : Bytes) :
    (p.enqueueInput data).Holds (b.enqueue data) := by
  unfold LivePane.enqueueInput Backlog.enqueue
  rw [h.pending, ← h.cap]
  by_cases hroom : b.pending.length < b.cap
  · rw [if_neg (Nat.not_le.mpr hroom), dif_pos hroom]
    exact ⟨h.input, rfl, h.dropping, h.cap⟩
  · rw [if_pos (Nat.not_lt.mp hroom), dif_neg hroom]
    exact ⟨h.input, rfl, rfl, h.cap⟩

theorem Holds.sendInput (h : p.Holds b) {bytes : Bytes} (hbytes : bytes.isEmpty = false) :
    (p.sendInput bytes).Holds (b.send bytes) := by
  unfold LivePane.sendInput Backlog.send
  rw [hbytes, h.pending, h.input]
  cases b.pending.isEmpty with
  | false => exact h.enqueueInput bytes
  | true =>
      cases b.channel.trySend bytes with
      | ok input => exact ⟨rfl, rfl, h.dropping, h.cap⟩
      | error e =>
          cases e with
          | full => exact h.enqueueInput bytes
          | closed => exact h

theorem sendInput_empty {bytes : Bytes} (hbytes : bytes.isEmpty = true) :
    p.sendInput bytes = p := by
  unfold LivePane.sendInput
  rw [hbytes]
  rfl

theorem Holds.sendBestEffort (h : p.Holds b) (bytes : Bytes) :
    (p.sendBestEffort bytes).Holds (b.sendNow bytes) := by
  unfold LivePane.sendBestEffort Backlog.sendNow
  rw [h.input]
  cases b.channel.trySend bytes with
  | ok input => exact ⟨rfl, h.pending, h.dropping, h.cap⟩
  | error e => exact h

theorem Holds.drainInput (h : p.Holds b) : p.drainInput.Holds b.drain := by
  have hflush : flush p.input p.pendingInput = Backlog.flush b.channel b.pending := by
    rw [flush_eq, h.input, h.pending]
  refine ⟨congrArg Prod.fst hflush, congrArg (·.2.1) hflush, ?_, h.cap⟩
  simp only [LivePane.drainInput, Backlog.drain, hflush, h.dropping]
  cases (Backlog.flush b.channel b.pending).2.2 <;> rfl

theorem foldl_applyEvent_pending (events : List TransportEvent) (p : LivePane) :
    (events.foldl applyEvent p).pendingInput = p.pendingInput ∧
      (events.foldl applyEvent p).droppingInput = p.droppingInput := by
  induction events generalizing p with
  | nil => exact ⟨rfl, rfl⟩
  | cons e events ih =>
      have happly : (p.applyEvent e).pendingInput = p.pendingInput ∧
          (p.applyEvent e).droppingInput = p.droppingInput := by
        cases e <;> exact ⟨rfl, rfl⟩
      rw [List.foldl_cons, (ih _).1, (ih _).2]
      exact happly

theorem Holds.absorb (h : p.Holds b) (fed : Fed) : (p.absorb fed).Holds b := by
  have hqueues := foldl_applyEvent_pending p.events p
  exact ⟨(foldl_applyEvent_input p.events p).trans h.input, hqueues.1.trans h.pending,
    hqueues.2.trans h.dropping, h.cap⟩

theorem holds_new (onExit : ExitAction) :
    (new onExit).Holds (.empty inputChannelCapacity inputPendingCap) := ⟨rfl, rfl, rfl, rfl⟩

end Holds

end LivePane

/-! ## The line -/

inductive LineLabel where
  /-- keystrokes and text -/
  | input (bytes : Bytes)
  | paste (text : Bytes)
  | mouse (out : Bytes)
  /-- a pump: its drain, the events and the output, one reply after the other -/
  | drain
  | absorb (fed : LivePane.Fed)
  | reply (bytes : Bytes)
  | relay (e : TransportEvent)
  /-- the backend takes a chunk -/
  | take
  /-- the backend drops its receiver -/
  | hangUp

structure Line where
  pane : LivePane
  /-- the pane's queues, each chunk with its number -/
  numbered : Backlog (Nat × Bytes)
  /-- what the backend took, oldest first -/
  received : List (Nat × Bytes)
  /-- how many chunks the pane has produced -/
  produced : Nat

namespace Line

def start (onExit : ExitAction) : Line :=
  ⟨.new onExit, .empty inputChannelCapacity inputPendingCap, [], 0⟩

/-- The pane, now `pane`, was given `bytes` to send in their turn. -/
def typed (s : Line) (bytes : Bytes) (pane : LivePane) : Line :=
  if bytes.isEmpty then { s with pane := pane }
  else { s with
    pane := pane
    numbered := s.numbered.send (s.produced, bytes)
    produced := s.produced + 1 }

/-- The pane, now `pane`, sent `bytes` or lost them. -/
def direct (s : Line) (bytes : Bytes) (pane : LivePane) : Line :=
  { s with
    pane := pane
    numbered := s.numbered.sendNow (s.produced, bytes)
    produced := s.produced + 1 }

def step (s : Line) : LineLabel → Option Line
  | .input bytes => some (s.typed bytes (s.pane.sendInput bytes))
  | .paste text =>
      some (s.typed (LivePane.wrapPaste text s.pane.bracketedPaste) (s.pane.sendPaste text))
  | .mouse out =>
      some (if out.isEmpty then { s with pane := s.pane.reportMouse out }
        else s.direct out (s.pane.reportMouse out))
  | .drain => some { s with pane := s.pane.drainInput, numbered := s.numbered.drain }
  | .absorb fed => some { s with pane := s.pane.absorb fed }
  | .reply bytes => some (s.direct bytes (s.pane.sendBestEffort bytes))
  | .relay e => some { s with pane := { s.pane with events := s.pane.events ++ [e] } }
  | .take =>
      s.pane.input.recv.bind fun got => s.numbered.recv.map fun took =>
        { s with
          pane := { s.pane with input := got.2 }
          numbered := took.2
          received := s.received ++ [(took.1.1, got.1)] }
  | .hangUp =>
      some { s with
        pane := { s.pane with input := s.pane.input.close }
        numbered := s.numbered.close }

/-- The pane's queues hold the bytes of the numbered chunks. -/
def Agrees (s : Line) : Prop := s.pane.Holds (s.numbered.map Prod.snd)

theorem agrees_start (onExit : ExitAction) : (start onExit).Agrees := LivePane.holds_new onExit

theorem typed_agrees {s : Line} (h : s.Agrees) (bytes : Bytes) :
    (s.typed bytes (s.pane.sendInput bytes)).Agrees := by
  unfold typed
  split
  · rename_i hbytes
    rw [LivePane.sendInput_empty hbytes]
    exact h
  · rename_i hbytes
    have hsent := LivePane.Holds.sendInput h (Bool.eq_false_iff.mpr hbytes)
    rw [← Backlog.map_send Prod.snd s.numbered (s.produced, bytes)] at hsent
    exact hsent

theorem direct_agrees {s : Line} (h : s.Agrees) (bytes : Bytes) :
    (s.direct bytes (s.pane.sendBestEffort bytes)).Agrees := by
  have hsent := LivePane.Holds.sendBestEffort h bytes
  rw [← Backlog.map_sendNow Prod.snd s.numbered (s.produced, bytes)] at hsent
  exact hsent

theorem hangUp_agrees {s : Line} (h : s.Agrees) :
    LivePane.Holds { s.pane with input := s.pane.input.close }
      (s.numbered.close.map Prod.snd) :=
  ⟨congrArg Fifo.close h.input, h.pending, h.dropping, h.cap⟩

/-- What a take does: the pane and the numbered queues give up the same
chunk. -/
theorem take_cases {s t : Line} (h : s.Agrees) (hstep : s.step .take = some t) :
    ∃ n bytes, t.received = s.received ++ [(n, bytes)] ∧
      s.numbered.content = (n, bytes) :: t.numbered.content ∧
      t.numbered.pending = s.numbered.pending ∧ t.numbered.dropping = s.numbered.dropping ∧
      t.numbered.channel.closed = s.numbered.channel.closed ∧ t.produced = s.produced ∧
      t.Agrees := by
  obtain ⟨⟨bytes, input⟩, hrecv, htake⟩ := Option.bind_eq_some_iff.mp hstep
  obtain ⟨⟨⟨n, bytes'⟩, numbered⟩, hnumbered, rfl⟩ := Option.map_eq_some_iff.mp htake
  obtain ⟨⟨⟨m, bytes''⟩, channel⟩, hchannel, heq⟩ := Option.map_eq_some_iff.mp hnumbered
  obtain ⟨hmn, rfl⟩ := Prod.mk.inj heq
  obtain ⟨rfl, rfl⟩ := Prod.mk.inj hmn
  have hsame : some (bytes, input) = some (bytes'', channel.map Prod.snd) := by
    rw [← hrecv, h.input, Backlog.map_channel, Fifo.map_recv, hchannel]
    rfl
  obtain ⟨rfl, rfl⟩ := Prod.mk.inj (Option.some.inj hsame)
  exact ⟨m, bytes, rfl, Backlog.recv_content hnumbered, rfl, rfl,
    (Fifo.recv_some hchannel).2, rfl, rfl, h.pending, h.dropping, h.cap⟩

theorem step_agrees {s t : Line} {l : LineLabel} (h : s.Agrees) (hstep : s.step l = some t) :
    t.Agrees := by
  cases l with
  | input bytes => exact Option.some.inj hstep ▸ typed_agrees h bytes
  | paste text =>
      exact Option.some.inj hstep ▸ typed_agrees h (LivePane.wrapPaste text s.pane.bracketedPaste)
  | mouse out =>
      obtain rfl := Option.some.inj hstep
      unfold LivePane.reportMouse
      split
      · exact h
      · exact direct_agrees h out
  | drain =>
      obtain rfl := Option.some.inj hstep
      have hdrained := LivePane.Holds.drainInput h
      rw [← Backlog.map_drain] at hdrained
      exact hdrained
  | absorb fed => exact Option.some.inj hstep ▸ LivePane.Holds.absorb h fed
  | reply bytes => exact Option.some.inj hstep ▸ direct_agrees h bytes
  | relay e => exact Option.some.inj hstep ▸ ⟨h.input, h.pending, h.dropping, h.cap⟩
  | take =>
      obtain ⟨_, _, _, _, _, _, _, _, hagrees⟩ := take_cases h hstep
      exact hagrees
  | hangUp => exact Option.some.inj hstep ▸ hangUp_agrees h

theorem run_agrees {onExit : ExitAction} {as : List LineLabel} {s : Line}
    (hrun : run step (start onExit) as = some s) : s.Agrees :=
  Runs.invariant (fun _ _ _ h hstep => step_agrees h hstep) (agrees_start onExit) hrun

/-! ### A pump is a run -/

theorem replies_run (replies : List Bytes) (s : Line) :
    ∃ t, run step s (replies.map .reply) = some t ∧
      t.pane = replies.foldl LivePane.sendBestEffort s.pane ∧ t.received = s.received := by
  induction replies generalizing s with
  | nil => exact ⟨s, rfl, rfl, rfl⟩
  | cons bytes replies ih =>
      obtain ⟨t, hrun, hpane, hreceived⟩ := ih (s.direct bytes (s.pane.sendBestEffort bytes))
      exact ⟨t, hrun, hpane, hreceived⟩

/-- The pane's pump is its drain, the events and the output, then the replies;
in between the backend may take chunks. -/
theorem pump_run (s : Line) (fed : LivePane.Fed) :
    ∃ t, run step s (.drain :: .absorb fed :: fed.replies.map .reply) = some t ∧
      t.pane = (s.pane.pump fed).1 ∧ t.received = s.received :=
  replies_run fed.replies { s with
    pane := s.pane.drainInput.absorb fed, numbered := s.numbered.drain }

end Line

end PolyTerm
