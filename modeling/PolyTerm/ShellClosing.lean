import PolyTerm.ShellTraffic

/-!
# Closing the pane of a local shell

The tasks of a local shell wait for each other through full and empty channels,
and for the shell and its PTY. `closing_ends` says that once the pane is dropped
they all come to an end: a bounded number of steps is left to them, and as long
as one of them runs there is a step that is owed, by one of the tasks or by a
shell that was told to exit and its PTY.
-/

namespace PolyTerm

open Runs

def PtyPhase.rank : PtyPhase → Nat
  | .opened => 9
  | .selecting => 5
  | .reaping _ => 4
  | .ended => 0

namespace LocalShell

/-- The pane is dropped: its senders and its receivers. -/
structure Abandoned (s : LocalShell) : Prop where
  input : s.pty.pair.inputEnded = true
  control : s.pty.pair.controlEnded = true
  output : s.output.closed = true
  events : s.eventsDropped = true

/-- Every task has ended. -/
structure Over (s : LocalShell) : Prop where
  reader : s.reader = .ended
  writer : s.writer = .ended
  outputRelay : s.outputRelay = .ended
  eventsRelay : s.eventsRelay = .ended
  controller : s.pty.phase = .ended

/-- The steps that bring the end nearer: not those of a pane that is gone, nor a read
that was interrupted. -/
def moves (s : LocalShell) : ShellLabel → Bool
  | .pane _ | .read .interrupted => false
  | .controller .shellExits => !s.pty.reaped
  | _ => true

/-- What can be relied on to happen: the turns of the tasks, the exit of a shell that was
told to exit, and once it is reaped, the end of its PTY and an answer to a write. -/
def Owed (s : LocalShell) : ShellLabel → Prop
  | .pane _ => False
  | .controller .shellExits => s.pty.killed = true
  | .read result => result = .data [] ∧ s.pty.reaped = true
  | .write _ => s.pty.reaped = true
  | _ => True

def outputRest (s : LocalShell) : Nat :=
  s.reader.rank + 3 * s.pty.pair.output.free + 4 * s.outputRelay.rank

def inputRest (s : LocalShell) : Nat :=
  s.writer.drainRank + 2 * s.pty.pair.input.queue.length

def controlRest (s : LocalShell) : Nat :=
  s.pty.pair.control.queue.length + s.pty.phase.rank + (!s.pty.reaped).toNat

def eventsRest (s : LocalShell) : Nat :=
  3 * s.pty.pair.events.queue.length + s.eventsRelay.rank

def rest (s : LocalShell) : Nat := s.outputRest + s.inputRest + (s.controlRest + s.eventsRest)

variable {s t : LocalShell} {l : ShellLabel} {labels : List ShellLabel}

theorem Did.abandoned (h : s.Did l t) (hs : s.Abandoned) : t.Abandoned := by
  obtain ⟨hinput, hcontrol, houtput, hevents⟩ := hs
  cases h with
  | fed bytes output hrecv =>
      exact ⟨hinput, hcontrol, (Fifo.recv_some hrecv).2.trans houtput, hevents⟩
  | controlled l pty hdid =>
      obtain ⟨-, hi, hc⟩ := hdid.input
      exact ⟨hi.trans hinput, hc.trans hcontrol, houtput, hevents⟩
  | gaveOutput bytes output _ hsent => simp [Fifo.trySend, houtput] at hsent
  | droppedInput => exact ⟨rfl, hcontrol, houtput, hevents⟩
  | droppedControl => exact ⟨hinput, rfl, houtput, hevents⟩
  | droppedOutput => exact ⟨hinput, hcontrol, rfl, hevents⟩
  | droppedEvents => exact ⟨hinput, hcontrol, houtput, rfl⟩
  | _ => exact ⟨hinput, hcontrol, houtput, hevents⟩

/-! ## Every step brings the end nearer -/

/-- A step of the controller: an event costs the relay less than the phase is worth. -/
theorem Did.controlled_lowers {l : PtyLabel} {pty : Pty} (h : s.pty.Did l pty)
    (hmoves : s.moves (.controller l) = true) :
    pty.pair.control.queue.length + pty.phase.rank + (!pty.reaped).toNat +
        3 * pty.pair.events.queue.length <
      s.controlRest + 3 * s.pty.pair.events.queue.length := by
  have hsent : ∀ {pair : TransportPair} {e : TransportEvent}, s.pty.pair.send e = some pair →
      pair.control = s.pty.pair.control ∧
        pair.events.queue.length ≤ s.pty.pair.events.queue.length + 1 := by
    intro pair e hsend
    rcases TransportPair.send_cases hsend with ⟨events, hok, rfl⟩ | ⟨-, rfl⟩
    · exact ⟨rfl, by simp [(Fifo.trySend_ok hok).1]⟩
    · exact ⟨rfl, Nat.le_succ _⟩
  cases h with
  | exited =>
      have hreaped : s.pty.reaped = false := by simpa [moves] using hmoves
      simp [controlRest, hreaped]
  | connected pair hphase hsend =>
      obtain ⟨hcontrol, hevents⟩ := hsent hsend
      simp only [controlRest, hcontrol, hphase, PtyPhase.rank]
      omega
  | disconnected reason pair hphase hreaped hsend =>
      obtain ⟨-, hevents⟩ := hsent hsend
      simp only [controlRest, Pty.finish, hphase, hreaped, PtyPhase.rank, Fifo.close_queue,
        List.length_nil]
      omega
  | handled msg control size _ hrecv =>
      simp only [controlRest, (Fifo.recv_some hrecv).1, List.length_cons]
      omega
  | told control hphase hrecv =>
      simp only [controlRest, Pty.kill, hphase, (Fifo.recv_some hrecv).1, List.length_cons,
        PtyPhase.rank]
      omega
  | abandoned hphase | gone hphase =>
      simp only [controlRest, Pty.kill, hphase, PtyPhase.rank]
      omega

/-- A step on the way of the output. -/
theorem rest_lt_of_output (houtput : t.outputRest < s.outputRest)
    (hinput : t.inputRest = s.inputRest) (hcontrol : t.controlRest = s.controlRest)
    (hevents : t.eventsRest = s.eventsRest) : t.rest < s.rest := by
  unfold rest
  omega

/-- A step on the way of the input. -/
theorem rest_lt_of_input (hinput : t.inputRest < s.inputRest)
    (houtput : t.outputRest = s.outputRest) (hcontrol : t.controlRest = s.controlRest)
    (hevents : t.eventsRest = s.eventsRest) : t.rest < s.rest := by
  unfold rest
  omega

/-- A step of the controller, or on the way of the events. -/
theorem rest_lt_of_control
    (hcontrol : t.controlRest + t.eventsRest < s.controlRest + s.eventsRest)
    (houtput : t.outputRest = s.outputRest) (hinput : t.inputRest = s.inputRest) :
    t.rest < s.rest := by
  unfold rest
  omega

/-- A step that brings the end nearer lowers what is left. -/
theorem Did.lowers (h : s.Did l t) (habandoned : s.Abandoned)
    (hmoves : s.moves l = true) : t.rest < s.rest := by
  cases h with
  | sentInput | sentControl | fed | saw | droppedInput | droppedControl | droppedOutput
  | droppedEvents | interrupted => cases hmoves
  | controlled l pty hdid =>
      have hless := controlled_lowers hdid hmoves
      obtain ⟨hinput, -⟩ := hdid.input
      refine rest_lt_of_control ?_ ?_ ?_
      · simp only [controlRest, eventsRest] at hless ⊢
        omega
      · simp only [outputRest, hdid.output]
      · simp only [inputRest, hinput]
  | read bytes hreceiving | readOver result hreceiving =>
      refine rest_lt_of_output ?_ rfl rfl rfl
      simp only [outputRest, hreceiving, Relay.rank_receiving, Relay.rank_sending,
        Relay.rank_ended]
      omega
  | sentOutput bytes output hsending hsent =>
      have hfree := Fifo.free_trySend hsent
      refine rest_lt_of_output ?_ rfl rfl rfl
      simp only [outputRest, setPair, hsending, Relay.rank_receiving, Relay.rank_sending]
      omega
  | unsentOutput bytes hsending =>
      refine rest_lt_of_output ?_ rfl rfl rfl
      simp only [outputRest, hsending, Relay.rank_sending, Relay.rank_ended]
      omega
  | tookInput bytes input hreceiving hrecv =>
      refine rest_lt_of_input ?_ rfl rfl rfl
      simp only [inputRest, setPair, hreceiving, (Fifo.recv_some hrecv).1, List.length_cons,
        Relay.drainRank_receiving, Relay.drainRank_sending]
      omega
  | inputOver hreceiving =>
      refine rest_lt_of_input ?_ rfl rfl rfl
      simp only [inputRest, setPair, hreceiving, Fifo.close_queue, List.length_nil,
        Relay.drainRank_receiving, Relay.drainRank_ended]
      omega
  | wrote _ _ _ hsending | writeFailed _ _ _ hsending =>
      refine rest_lt_of_input ?_ rfl rfl rfl
      simp only [inputRest, setPair, hsending, Fifo.close_queue, List.length_nil,
        Relay.drainRank_sending, Relay.drainRank_receiving, Relay.drainRank_ended]
      omega
  | tookOutput bytes output hreceiving hrecv =>
      have hfree := Fifo.free_recv hrecv
      refine rest_lt_of_output ?_ rfl rfl rfl
      simp only [outputRest, setPair, hreceiving, Relay.rank_receiving, Relay.rank_sending]
      omega
  | outputOver hreceiving =>
      refine rest_lt_of_output ?_ rfl rfl rfl
      simp only [outputRest, setPair, hreceiving, Fifo.free_close, Relay.rank_receiving,
        Relay.rank_ended]
      omega
  | refusedOutput bytes hsending =>
      refine rest_lt_of_output ?_ rfl rfl rfl
      simp only [outputRest, setPair, hsending, Fifo.free_close, Relay.rank_sending,
        Relay.rank_ended]
      omega
  | gaveOutput bytes output _ hsent => simp [Fifo.trySend, habandoned.output] at hsent
  | tookEvent e events hreceiving hrecv =>
      refine rest_lt_of_control (Nat.add_lt_add_left ?_ _) rfl rfl
      simp only [eventsRest, setPair, hreceiving, (Fifo.recv_some hrecv).1, List.length_cons,
        Relay.rank_receiving, Relay.rank_sending]
      omega
  | eventsOver hreceiving =>
      refine rest_lt_of_control (Nat.add_lt_add_left ?_ _) rfl rfl
      simp only [eventsRest, setPair, hreceiving, Fifo.close_queue, List.length_nil,
        Relay.rank_receiving, Relay.rank_ended]
      omega
  | refusedEvent e hsending =>
      refine rest_lt_of_control (Nat.add_lt_add_left ?_ _) rfl rfl
      simp only [eventsRest, setPair, hsending, Fifo.close_queue, List.length_nil,
        Relay.rank_sending, Relay.rank_ended]
      omega
  | gaveEvent e _ hkept =>
      rw [habandoned.events] at hkept
      cases hkept

/-- The others do not raise it. -/
theorem Did.idles (h : s.Did l t) (hs : s.Sound) (habandoned : s.Abandoned)
    (hmoves : s.moves l = false) : t.rest ≤ s.rest := by
  cases h with
  | sentInput _ _ hmore =>
      rw [habandoned.input] at hmore
      cases hmore
  | sentControl _ _ hmore =>
      rw [habandoned.control] at hmore
      cases hmore
  | fed bytes output hrecv =>
      obtain ⟨hqueue, -⟩ := Fifo.recv_some hrecv
      rw [hs.unfed habandoned.output] at hqueue
      cases hqueue
  | saw e rest hsaw =>
      rw [hs.unseen habandoned.events] at hsaw
      cases hsaw
  | droppedInput | droppedControl | droppedOutput | droppedEvents | interrupted => exact Nat.le_refl _
  | controlled l pty hdid =>
      cases hdid with
      | exited =>
          have hreaped : s.pty.reaped = true := by simpa [moves] using hmoves
          simp [rest, outputRest, inputRest, controlRest, eventsRest, hreaped]
      | _ => cases hmoves
  | readOver result _ hgoes =>
      cases result with
      | interrupted => exact absurd rfl hgoes
      | _ => cases hmoves
  | _ => cases hmoves

/-! ## There is always one -/

/-- Some step that brings the end nearer is owed. -/
def Goes (s : LocalShell) : Prop := ∃ l, s.Owed l ∧ s.moves l = true ∧ (s.step l).isSome = true

/-- The relay of the output, once the pane is gone, ends with its next chunk. -/
theorem goes_of_output (habandoned : s.Abandoned) (hrelay : s.outputRelay ≠ .ended)
    (hwaits : s.reader = .ended ∨ s.pty.pair.output.queue ≠ []) : s.Goes := by
  cases houtput : s.outputRelay with
  | ended => exact absurd houtput hrelay
  | sending bytes =>
      have hgive := Relay.give_ends (x := bytes) habandoned.output
      exact ⟨.giveOutput, trivial, rfl, by simp [step, giveOutput, houtput, hgive]⟩
  | receiving =>
      refine ⟨.takeOutput, trivial, rfl, ?_⟩
      by_cases hempty : s.pty.pair.output.queue = []
      · have hreader := hwaits.resolve_right (not_not.mpr hempty)
        simp [step, takeOutput, houtput, hreader, Relay.take_ends hempty]
      · obtain ⟨x, d, htake, -⟩ := Relay.take_some s.reader.isEnded hempty
        simp [step, takeOutput, houtput, htake]

/-- And so does the relay of the events. -/
theorem goes_of_events (habandoned : s.Abandoned) (hrelay : s.eventsRelay ≠ .ended)
    (hwaits : s.pty.phase = .ended ∨ s.pty.pair.events.queue ≠ []) : s.Goes := by
  cases hevents : s.eventsRelay with
  | ended => exact absurd hevents hrelay
  | sending e =>
      exact ⟨.giveEvent, trivial, rfl, by simp [step, giveEvent, hevents, habandoned.events]⟩
  | receiving =>
      refine ⟨.takeEvent, trivial, rfl, ?_⟩
      by_cases hempty : s.pty.pair.events.queue = []
      · have hphase := hwaits.resolve_right (not_not.mpr hempty)
        simp [step, takeEvent, hevents, hphase, Relay.take_ends hempty]
      · obtain ⟨x, d, htake, -⟩ := Relay.take_some (s.pty.phase = .ended) hempty
        simp [step, takeEvent, hevents, htake]

/-- An event waits to be sent only while others wait to be relayed. -/
theorem goes_of_send (hs : s.Sound) (habandoned : s.Abandoned) {e : TransportEvent}
    (h : s.pty.pair.send e = none) : s.Goes := by
  have hgive : (Relay.sending e).give s.pty.pair.events = none := by
    unfold TransportPair.send at h
    simp only [Relay.give]
    split at h
    · cases h
    · rename_i hfull
      rw [hfull]
    · cases h
  obtain ⟨hopen, hfull⟩ := Relay.give_waits hgive
  refine goes_of_events habandoned (fun hended => ?_) (.inr fun hempty => ?_)
  · rw [hs.events.closed, hended] at hopen
    cases hopen
  · rw [hs.standard, hempty] at hfull
    exact absurd hfull (by decide)

/-- The controller only waits for its events to be relayed, and for a shell that was told
to exit. -/
theorem goes_of_controller (hs : s.Sound) (habandoned : s.Abandoned)
    (hphase : s.pty.phase ≠ .ended) : s.Goes := by
  cases hpty : s.pty.phase with
  | ended => exact absurd hpty hphase
  | opened =>
      cases hsend : s.pty.pair.send .connected with
      | none => exact goes_of_send hs habandoned hsend
      | some pair =>
          exact ⟨.controller .emit, trivial, rfl,
            by simp [step, controller, Pty.step, Pty.emit, hpty, hsend]⟩
  | selecting =>
      refine ⟨.controller .readControl, trivial, rfl, ?_⟩
      cases hrecv : s.pty.pair.control.recv with
      | none => simp [step, controller, Pty.step, Pty.readControl, hpty, hrecv, habandoned.control]
      | some r => simp [step, controller, Pty.step, Pty.readControl, hpty, hrecv]
  | reaping reason =>
      cases hreaped : s.pty.reaped with
      | true =>
          cases hsend : s.pty.pair.send (.disconnected reason) with
          | none => exact goes_of_send hs habandoned hsend
          | some pair =>
              exact ⟨.controller .emit, trivial, rfl,
                by simp [step, controller, Pty.step, Pty.emit, hpty, hreaped, hsend]⟩
      | false =>
          have hkilled : s.pty.killed = true := by
            by_contra halive
            have hremote := hs.pty.reaping reason hpty
            rw [if_neg halive] at hremote
            have hgone := hs.pty.reaped (.inl (hremote ▸ hpty))
            rw [hreaped] at hgone
            cases hgone
          exact ⟨.controller .shellExits, hkilled, by simp [moves, hreaped], rfl⟩

/-- The reader only waits for its output to be relayed, and for the PTY of a shell that was
reaped. -/
theorem goes_of_reader (hs : s.Sound) (habandoned : s.Abandoned) (hreaped : s.pty.reaped = true)
    (hreader : s.reader ≠ .ended) : s.Goes := by
  cases hread : s.reader with
  | ended => exact absurd hread hreader
  | receiving =>
      exact ⟨.read (.data []), ⟨rfl, hreaped⟩, rfl, by simp [step, read, hread]⟩
  | sending bytes =>
      cases hgive : (Relay.sending bytes).give s.pty.pair.output with
      | some r => exact ⟨.sendOutput, trivial, rfl, by simp [step, sendOutput, hread, hgive]⟩
      | none =>
          obtain ⟨hopen, hfull⟩ := Relay.give_waits hgive
          refine goes_of_output habandoned (fun hended => ?_) (.inr fun hempty => ?_)
          · rw [hs.outputs.closed, hended] at hopen
            cases hopen
          · rw [hs.room.1, hempty] at hfull
            exact absurd hfull (by decide)

/-- The writer only waits for the PTY. -/
theorem goes_of_writer (habandoned : s.Abandoned) (hreaped : s.pty.reaped = true)
    (hwriter : s.writer ≠ .ended) : s.Goes := by
  cases hwrite : s.writer with
  | ended => exact absurd hwrite hwriter
  | receiving =>
      refine ⟨.takeInput, trivial, rfl, ?_⟩
      by_cases hempty : s.pty.pair.input.queue = []
      · simp [step, takeInput, hwrite, habandoned.input, Relay.take_ends hempty]
      · obtain ⟨x, d, htake, -⟩ := Relay.take_some s.pty.pair.inputEnded hempty
        simp [step, takeInput, hwrite, htake]
  | sending bytes =>
      cases bytes with
      | nil => exact ⟨.write [], hreaped, rfl, by simp [step, write, hwrite, writeAll]⟩
      | cons b bytes =>
          exact ⟨.write [.failed], hreaped, rfl,
            by simp [step, write, hwrite, writeAll, WriteResult.goesOn]⟩

theorem goes_on (hs : s.Sound) (habandoned : s.Abandoned) (hover : ¬s.Over) : s.Goes := by
  by_cases hphase : s.pty.phase = .ended
  · have hreaped := hs.pty.reaped (.inr hphase)
    by_cases hreader : s.reader = .ended
    · by_cases hwriter : s.writer = .ended
      · by_cases hrelay : s.outputRelay = .ended
        · by_cases hevents : s.eventsRelay = .ended
          · exact absurd ⟨hreader, hwriter, hrelay, hevents, hphase⟩ hover
          · exact goes_of_events habandoned hevents (.inl hphase)
        · exact goes_of_output habandoned hrelay (.inl hreader)
      · exact goes_of_writer habandoned hreaped hwriter
    · exact goes_of_reader hs habandoned hreaped hreader
  · exact goes_of_controller hs habandoned hphase

/-! ## The end -/

/-- The channels of input and control have the capacities they were made with. -/
def Standard (s : LocalShell) : Prop :=
  s.pty.pair.input.capacity = inputChannelCapacity ∧
    s.pty.pair.control.capacity = controlChannelCapacity

theorem Did.standard (h : s.Did l t) (hs : s.Standard) : t.Standard := by
  obtain ⟨hinput, hcontrol⟩ := hs
  cases h with
  | sentInput bytes input _ hsent => exact ⟨(Fifo.trySend_capacity hsent).trans hinput, hcontrol⟩
  | sentControl msg control _ hsent =>
      exact ⟨hinput, (Fifo.trySend_capacity hsent).trans hcontrol⟩
  | tookInput bytes input _ hrecv => exact ⟨(Fifo.recv_capacity hrecv).trans hinput, hcontrol⟩
  | controlled l pty hdid =>
      refine ⟨hdid.input.1 ▸ hinput, ?_⟩
      cases hdid with
      | connected pair _ hsend | disconnected _ pair _ _ hsend =>
          obtain ⟨events, rfl, -⟩ := TransportPair.send_eq hsend
          exact hcontrol
      | handled _ control _ _ hrecv | told control _ hrecv =>
          exact (Fifo.recv_capacity hrecv).trans hcontrol
      | _ => exact hcontrol
  | _ => exact ⟨hinput, hcontrol⟩

theorem rest_le (hs : s.Sound) (hstandard : s.Standard) : s.rest ≤ 840 := by
  have hreader := s.reader.rank_le
  have hwriter := s.writer.drainRank_le
  have houtput := s.outputRelay.rank_le
  have hevents := s.eventsRelay.rank_le
  have hfree := s.pty.pair.output.free_le
  have hinputs := s.pty.pair.input.bounded
  have hcontrols := s.pty.pair.control.bounded
  have hevs := s.pty.pair.events.bounded
  have hreaped : (!s.pty.reaped).toNat ≤ 1 := Bool.toNat_le _
  have hphase : s.pty.phase.rank ≤ 9 := by
    cases s.pty.phase <;> simp [PtyPhase.rank]
  rw [hs.room.1, outputChannelCapacity] at hfree
  rw [hstandard.1, inputChannelCapacity] at hinputs
  rw [hstandard.2, controlChannelCapacity] at hcontrols
  rw [hs.standard, eventChannelCapacity] at hevs
  simp only [rest, outputRest, inputRest, controlRest, eventsRest]
  omega

/-- Once the pane is dropped, whatever the tasks were doing, no more than 840 steps are left
to them but for reads that are interrupted. As long as one of the tasks runs, a step
is owed, and owed steps end them all: nothing waits for ever. -/
theorem closing_ends (hrun : run step start labels = some s) (habandoned : s.Abandoned)
    {more : List ShellLabel} (hmore : run step s more = some t) :
    (moved step moves s more).length ≤ 840 ∧ (t.Over ∨ t.Goes) ∧
      ∃ ending u, run step t ending = some u ∧ Along step Owed t ending ∧ u.Over := by
  let Left : LocalShell → Prop := fun s => s.Sound ∧ s.Abandoned
  have hkeep : ∀ s l t, Left s → step s l = some t → Left t := fun s l t hs h =>
    ⟨step_sound hs.1 h, (did_of_step h).abandoned hs.2⟩
  have hsound : s.Sound := invariant (fun _ _ _ hs h => step_sound hs h) sound_start hrun
  have hstandard : s.Standard :=
    invariant (fun _ _ _ hs h => (did_of_step h).standard hs) ⟨rfl, rfl⟩ hrun
  have hleft : Left t := invariant hkeep ⟨hsound, habandoned⟩ hmore
  have hgo : ∀ s, Left s → ¬s.Over →
      ∃ l u, s.Owed l ∧ step s l = some u ∧ Left u ∧ u.rest < s.rest := by
    intro s hs hover
    obtain ⟨l, howed, hmoves, hsome⟩ := goes_on hs.1 hs.2 hover
    obtain ⟨u, hu⟩ := Option.isSome_iff_exists.mp hsome
    exact ⟨l, u, howed, hu, hkeep s l u hs hu, (did_of_step hu).lowers hs.2 hmoves⟩
  refine ⟨?_, ?_, ?_⟩
  · have hmoved := moves_le hkeep (fun s l t hs h => (did_of_step h).lowers hs.2)
      (fun s l t hs h => (did_of_step h).idles hs.1 hs.2) ⟨hsound, habandoned⟩ hmore
    have hbound := rest_le hsound hstandard
    omega
  · by_cases hover : t.Over
    · exact .inl hover
    · exact .inr (goes_on hleft.1 hleft.2 hover)
  · obtain ⟨ending, u, hending, howed, -, hover⟩ := exists_final hgo hleft
    exact ⟨ending, u, hending, howed, hover⟩

/-- The pane is closed while its shell runs. -/
def closedInUse : List ShellLabel :=
  [.controller .emit, .read (.data [98, 99]), .sendOutput, .takeOutput, .pane (.input [97]),
    .pane .dropInput, .pane .dropControl, .pane .dropOutput, .pane .dropEvents]

/-- The shell is killed, its PTY ends, and the tasks find their channels gone. -/
def lastSteps : List ShellLabel :=
  [.giveOutput, .read (.data [100]), .sendOutput, .takeInput, .controller .readControl,
    .controller .shellExits, .write [.failed], .controller .emit, .takeEvent, .giveEvent]

theorem closing_ends_inUse : ∃ s t, run step start closedInUse = some s ∧
    run step s lastSteps = some t ∧ (moved step moves s lastSteps).length ≤ 840 ∧
    (t.Over ∨ t.Goes) := by
  have hrun : (run step start (closedInUse ++ lastSteps)).isSome = true := rfl
  have hstate : (run step start closedInUse).map (fun s => (s.pty.pair.inputEnded,
      s.pty.pair.controlEnded, s.output.closed, s.eventsDropped)) =
      some (true, true, true, true) := rfl
  obtain ⟨t, ht⟩ := Option.isSome_iff_exists.mp hrun
  obtain ⟨s, hs, hall⟩ := Option.map_eq_some_iff.mp hstate
  rw [run_append, hs, Option.bind_some] at ht
  have habandoned : s.Abandoned := by
    simp only [Prod.mk.injEq] at hall
    exact ⟨hall.1, hall.2.1, hall.2.2.1, hall.2.2.2⟩
  obtain ⟨hbound, hgoes, -⟩ := closing_ends hs habandoned ht
  exact ⟨s, t, hs, ht, hbound, hgoes⟩

end LocalShell

end PolyTerm
