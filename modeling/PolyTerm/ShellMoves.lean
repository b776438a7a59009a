import PolyTerm.LocalShell

/-!
# What a step of a local shell does

One constructor for each way a step can come out, with what the task found; the
properties of the shell's runs are case analyses over these.
-/

namespace PolyTerm

/-- An event that is sent goes to the receiver, if there is one. -/
theorem TransportPair.send_cases {p q : TransportPair} {e : TransportEvent}
    (h : p.send e = some q) :
    (∃ events, p.events.trySend e = .ok events ∧ q = { p with events := events }) ∨
      (p.events.closed = true ∧ q = p) := by
  unfold TransportPair.send at h
  split at h
  · rename_i events hsent
    exact .inl ⟨events, hsent, (Option.some.inj h).symm⟩
  · cases h
  · rename_i hclosed
    refine .inr ⟨?_, (Option.some.inj h).symm⟩
    by_contra hopen
    exact Fifo.trySend_ne_closed (by simpa using hopen) hclosed

/-- The steps of the controller. -/
inductive Pty.Did (s : Pty) : PtyLabel → Pty → Prop
  | exited : Did s .shellExits { s with reaped := true }
  | connected (pair) (opened : s.phase = .opened) (sent : s.pair.send .connected = some pair) :
      Did s .emit { s with pair := pair, phase := .selecting }
  | disconnected (reason pair) (reaping : s.phase = .reaping reason) (reaped : s.reaped = true)
      (sent : s.pair.send (.disconnected reason) = some pair) :
      Did s .emit ({ s with pair := pair } : Pty).finish
  | handled (msg control size) (selecting : s.phase = .selecting)
      (recv : s.pair.control.recv = some (msg, control)) (goes : msg ≠ .disconnect) :
      Did s .readControl { s with pair := { s.pair with control := control }, size := size }
  | told (control) (selecting : s.phase = .selecting)
      (recv : s.pair.control.recv = some (.disconnect, control)) :
      Did s .readControl ({ s with pair := { s.pair with control := control } } : Pty).kill
  | abandoned (selecting : s.phase = .selecting) (empty : s.pair.control.queue = [])
      (last : s.pair.controlEnded = true) : Did s .readControl s.kill
  | gone (selecting : s.phase = .selecting) (reaped : s.reaped = true) :
      Did s .readExit { s with phase := .reaping .remote }

theorem Pty.did_of_step {s t : Pty} {l : PtyLabel} (hown : ∀ move, l ≠ .ui move)
    (h : s.step l = some t) : s.Did l t := by
  cases l with
  | ui move => exact absurd rfl (hown move)
  | shellExits => exact Option.some.inj h ▸ .exited
  | emit =>
      unfold step emit at h
      dsimp only at h
      split at h
      · rename_i hphase
        obtain ⟨pair, hsent, rfl⟩ := Option.map_eq_some_iff.mp h
        exact .connected pair hphase hsent
      · rename_i reason hphase
        obtain ⟨hreaped, heq⟩ := Option.ite_none_right_eq_some.mp h
        obtain ⟨pair, hsent, rfl⟩ := Option.map_eq_some_iff.mp heq
        exact .disconnected reason pair hphase hreaped hsent
      · cases h
  | readControl =>
      obtain ⟨hphase, heq⟩ := Option.ite_none_right_eq_some.mp h
      split at heq
      · rename_i msg control hrecv
        obtain rfl := Option.some.inj heq
        cases msg with
        | disconnect => exact .told control hphase hrecv
        | resize cols rows => exact .handled _ control (cols, rows) hphase hrecv nofun
        | _ => exact .handled _ control s.size hphase hrecv nofun
      · rename_i hrecv
        obtain ⟨hover, heq⟩ := Option.ite_none_right_eq_some.mp heq
        exact Option.some.inj heq ▸ .abandoned hphase (Fifo.recv_eq_none.mp hrecv) hover
  | readExit =>
      obtain ⟨⟨hphase, hreaped⟩, heq⟩ := Option.ite_none_right_eq_some.mp h
      exact Option.some.inj heq ▸ .gone hphase hreaped

namespace LocalShell

/-- The steps of all the tasks, and the moves of the pane. -/
inductive Did (s : LocalShell) : ShellLabel → LocalShell → Prop
  | sentInput (bytes input) (more : s.pty.pair.inputEnded = false)
      (sent : s.pty.pair.input.trySend bytes = .ok input) :
      Did s (.pane (.input bytes)) (s.setPair { s.pty.pair with input := input })
  | sentControl (msg control) (more : s.pty.pair.controlEnded = false)
      (sent : s.pty.pair.control.trySend msg = .ok control) :
      Did s (.pane (.control msg)) (s.setPair { s.pty.pair with control := control })
  | fed (bytes output) (recv : s.output.recv = some (bytes, output)) :
      Did s (.pane .takeOutput) { s with output := output }
  | saw (e rest) (events : s.events = e :: rest) :
      Did s (.pane .takeEvent) { s with events := rest }
  | droppedInput : Did s (.pane .dropInput) (s.setPair { s.pty.pair with inputEnded := true })
  | droppedControl :
      Did s (.pane .dropControl) (s.setPair { s.pty.pair with controlEnded := true })
  | droppedOutput : Did s (.pane .dropOutput) { s with output := s.output.close }
  | droppedEvents : Did s (.pane .dropEvents) { s with events := [], eventsDropped := true }
  | controlled (l pty) (did : s.pty.Did l pty) : Did s (.controller l) { s with pty := pty }
  | read (bytes) (receiving : s.reader = .receiving) (ne : bytes ≠ [])
      (chunk : bytes.length ≤ readChunk) :
      Did s (.read (.data bytes)) { s with reader := .sending bytes }
  | interrupted (receiving : s.reader = .receiving) : Did s (.read .interrupted) s
  | readOver (result) (receiving : s.reader = .receiving) (goes : result ≠ .interrupted)
      (last : s.reads (.read result) = []) :
      Did s (.read result) { s with reader := .ended }
  | sentOutput (bytes output) (sending : s.reader = .sending bytes)
      (sent : s.pty.pair.output.trySend bytes = .ok output) :
      Did s .sendOutput { s.setPair { s.pty.pair with output := output } with reader := .receiving }
  | unsentOutput (bytes) (sending : s.reader = .sending bytes)
      (closed : s.pty.pair.output.closed = true) :
      Did s .sendOutput { s with reader := .ended }
  | tookInput (bytes input) (receiving : s.writer = .receiving)
      (recv : s.pty.pair.input.recv = some (bytes, input)) :
      Did s .takeInput
        { s.setPair { s.pty.pair with input := input } with writer := .sending bytes }
  | inputOver (receiving : s.writer = .receiving) (empty : s.pty.pair.input.queue = [])
      (last : s.pty.pair.inputEnded = true) :
      Did s .takeInput
        { s.setPair { s.pty.pair with input := s.pty.pair.input.close } with writer := .ended }
  | wrote (bytes written results) (sending : s.writer = .sending bytes)
      (all : writeAll bytes results = some (written, true)) :
      Did s (.write results) { s with writer := .receiving }
  | writeFailed (bytes written results) (sending : s.writer = .sending bytes)
      (cut : writeAll bytes results = some (written, false)) :
      Did s (.write results)
        { s.setPair { s.pty.pair with input := s.pty.pair.input.close } with writer := .ended }
  | tookOutput (bytes output) (receiving : s.outputRelay = .receiving)
      (recv : s.pty.pair.output.recv = some (bytes, output)) :
      Did s .takeOutput
        { s.setPair { s.pty.pair with output := output } with outputRelay := .sending bytes }
  | outputOver (receiving : s.outputRelay = .receiving) (empty : s.pty.pair.output.queue = [])
      (last : s.reader = .ended) :
      Did s .takeOutput
        { s.setPair { s.pty.pair with output := s.pty.pair.output.close } with
          outputRelay := .ended }
  | gaveOutput (bytes output) (sending : s.outputRelay = .sending bytes)
      (sent : s.output.trySend bytes = .ok output) :
      Did s .giveOutput { s with outputRelay := .receiving, output := output }
  | refusedOutput (bytes) (sending : s.outputRelay = .sending bytes)
      (closed : s.output.closed = true) :
      Did s .giveOutput
        { s.setPair { s.pty.pair with output := s.pty.pair.output.close } with
          outputRelay := .ended }
  | tookEvent (e events) (receiving : s.eventsRelay = .receiving)
      (recv : s.pty.pair.events.recv = some (e, events)) :
      Did s .takeEvent
        { s.setPair { s.pty.pair with events := events } with eventsRelay := .sending e }
  | eventsOver (receiving : s.eventsRelay = .receiving) (empty : s.pty.pair.events.queue = [])
      (last : s.pty.phase = .ended) :
      Did s .takeEvent
        { s.setPair { s.pty.pair with events := s.pty.pair.events.close } with
          eventsRelay := .ended }
  | gaveEvent (e) (sending : s.eventsRelay = .sending e) (kept : s.eventsDropped = false) :
      Did s .giveEvent { s with eventsRelay := .receiving, events := s.events ++ [e] }
  | refusedEvent (e) (sending : s.eventsRelay = .sending e) (dropped : s.eventsDropped = true) :
      Did s .giveEvent
        { s.setPair { s.pty.pair with events := s.pty.pair.events.close } with
          eventsRelay := .ended }

variable {s t : LocalShell} {l : ShellLabel}

theorem did_of_pane {move : UiMove} (h : s.pane move = some t) : s.Did (.pane move) t := by
  cases move with
  | input bytes =>
      obtain ⟨pair, hpair, rfl⟩ := Option.map_eq_some_iff.mp h
      obtain ⟨hmore, heq⟩ := Option.ite_none_left_eq_some.mp hpair
      split at heq
      · rename_i input hsent
        exact Option.some.inj heq ▸ .sentInput bytes input (by simpa using hmore) hsent
      · cases heq
  | control msg =>
      obtain ⟨pair, hpair, rfl⟩ := Option.map_eq_some_iff.mp h
      obtain ⟨hmore, heq⟩ := Option.ite_none_left_eq_some.mp hpair
      split at heq
      · rename_i control hsent
        exact Option.some.inj heq ▸ .sentControl msg control (by simpa using hmore) hsent
      · cases heq
  | takeOutput =>
      obtain ⟨⟨bytes, output⟩, hrecv, rfl⟩ := Option.map_eq_some_iff.mp h
      exact .fed bytes output hrecv
  | takeEvent =>
      unfold pane at h
      dsimp only at h
      split at h
      · cases h
      · rename_i e rest hevents
        exact Option.some.inj h ▸ .saw e rest hevents
  | dropInput => exact Option.some.inj h ▸ .droppedInput
  | dropControl => exact Option.some.inj h ▸ .droppedControl
  | dropOutput => exact Option.some.inj h ▸ .droppedOutput
  | dropEvents => exact Option.some.inj h ▸ .droppedEvents

theorem did_of_read {result : ReadResult} (h : s.read result = some t) :
    s.Did (.read result) t := by
  obtain ⟨hreceiving, heq⟩ := Option.ite_none_right_eq_some.mp h
  cases result with
  | data bytes =>
      dsimp only at heq
      split at heq
      · rename_i hnil
        exact Option.some.inj heq ▸ .readOver _ hreceiving nofun (if_pos hnil)
      · rename_i hne
        obtain ⟨hchunk, heq⟩ := Option.ite_none_right_eq_some.mp heq
        exact Option.some.inj heq ▸ .read bytes hreceiving hne hchunk
  | interrupted => exact Option.some.inj heq ▸ .interrupted hreceiving
  | timedOut | failed => exact Option.some.inj heq ▸ .readOver _ hreceiving nofun rfl

theorem did_of_write {results : List WriteResult} (h : s.write results = some t) :
    s.Did (.write results) t := by
  unfold write at h
  split at h
  · rename_i bytes hsending
    obtain ⟨⟨written, all⟩, hwritten, rfl⟩ := Option.map_eq_some_iff.mp h
    cases all with
    | true => exact .wrote bytes written results hsending hwritten
    | false => exact .writeFailed bytes written results hsending hwritten
  · cases h

theorem did_of_giveEvent (h : s.giveEvent = some t) : s.Did .giveEvent t := by
  unfold giveEvent at h
  split at h
  · rename_i e hsending
    split at h
    · rename_i hdropped
      exact Option.some.inj h ▸ .refusedEvent e hsending hdropped
    · rename_i hkept
      exact Option.some.inj h ▸ .gaveEvent e hsending (by simpa using hkept)
  · cases h

theorem did_of_step (h : s.step l = some t) : s.Did l t := by
  cases l with
  | pane move => exact did_of_pane h
  | controller label =>
      cases label with
      | ui move => cases h
      | shellExits => exact Option.some.inj h ▸ .controlled _ _ .exited
      | _ =>
          obtain ⟨pty, hpty, rfl⟩ := Option.map_eq_some_iff.mp h
          exact .controlled _ pty (Pty.did_of_step nofun hpty)
  | read result => exact did_of_read h
  | write results => exact did_of_write h
  | giveEvent => exact did_of_giveEvent h
  | sendOutput =>
      obtain ⟨⟨reader, output⟩, hgive, rfl⟩ := Option.map_eq_some_iff.mp h
      obtain ⟨bytes, hsending, ⟨rfl, hsent⟩ | ⟨rfl, hclosed, rfl⟩⟩ := Relay.give_cases hgive
      · exact .sentOutput bytes output hsending hsent
      · exact .unsentOutput bytes hsending hclosed
  | takeInput =>
      obtain ⟨⟨writer, input⟩, htake, rfl⟩ := Option.map_eq_some_iff.mp h
      obtain ⟨hreceiving, ⟨bytes, rfl, hrecv⟩ | ⟨rfl, hempty, hover, rfl⟩⟩ := Relay.take_cases htake
      · exact .tookInput bytes input hreceiving hrecv
      · exact .inputOver hreceiving hempty hover
  | takeOutput =>
      obtain ⟨⟨relay, output⟩, htake, rfl⟩ := Option.map_eq_some_iff.mp h
      obtain ⟨hreceiving, ⟨bytes, rfl, hrecv⟩ | ⟨rfl, hempty, hover, rfl⟩⟩ := Relay.take_cases htake
      · exact .tookOutput bytes output hreceiving hrecv
      · exact .outputOver hreceiving hempty (Relay.isEnded_iff.mp hover)
  | giveOutput =>
      obtain ⟨⟨relay, output⟩, hgive, rfl⟩ := Option.map_eq_some_iff.mp h
      obtain ⟨bytes, hsending, ⟨rfl, hsent⟩ | ⟨rfl, hclosed, rfl⟩⟩ := Relay.give_cases hgive
      · exact .gaveOutput bytes output hsending hsent
      · exact .refusedOutput bytes hsending hclosed
  | takeEvent =>
      obtain ⟨⟨relay, events⟩, htake, rfl⟩ := Option.map_eq_some_iff.mp h
      obtain ⟨hreceiving, ⟨e, rfl, hrecv⟩ | ⟨rfl, hempty, hover, rfl⟩⟩ := Relay.take_cases htake
      · exact .tookEvent e events hreceiving hrecv
      · exact .eventsOver hreceiving hempty (of_decide_eq_true hover)

end LocalShell

end PolyTerm
