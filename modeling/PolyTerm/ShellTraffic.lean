import PolyTerm.Settling
import PolyTerm.SerialLine
import PolyTerm.ShellMoves

/-!
# What passes through a local shell

Whatever the tasks of a local shell do in whatever order, output reaches the
terminal as it was read, input reaches the PTY as it was typed, and the pane is
told that the session is over once, and last. In each direction there is only
so much under way, and what is lost is lost at the end: output when the pane is
gone, input when a write fails.
-/

namespace PolyTerm

open Runs

/-! ## The controller -/

/-- A shell is told to exit only where its end is then `local`, and its end is
reported only once it is reaped. -/
structure PtyPhase.Consistent (phase : PtyPhase) (killed reaped : Bool) : Prop where
  alive : phase = .opened ∨ phase = .selecting → killed = false
  reaping : ∀ reason, phase = .reaping reason → reason = if killed then .local else .remote
  reaped : phase = .reaping .remote ∨ phase = .ended → reaped = true

namespace Pty

/-- What was posted so far. -/
def posted (s : Pty) : List TransportEvent :=
  match s.phase with
  | .opened => []
  | .selecting | .reaping _ => [.connected]
  | .ended => [.connected, .disconnected (if s.killed then .local else .remote)]

variable {s t : Pty} {l : PtyLabel}

theorem Did.output (h : s.Did l t) : t.pair.output = s.pair.output := by
  cases h with
  | connected pair _ hsent | disconnected _ pair _ _ hsent =>
      obtain ⟨events, rfl, -⟩ := TransportPair.send_eq hsent
      rfl
  | _ => rfl

theorem Did.input (h : s.Did l t) : t.pair.input = s.pair.input ∧
    t.pair.inputEnded = s.pair.inputEnded ∧ t.pair.controlEnded = s.pair.controlEnded := by
  cases h with
  | connected pair _ hsent | disconnected _ pair _ _ hsent =>
      obtain ⟨events, rfl, -⟩ := TransportPair.send_eq hsent
      exact ⟨rfl, rfl, rfl⟩
  | _ => exact ⟨rfl, rfl, rfl⟩

theorem Did.standard (h : s.Did l t) (hs : s.pair.Standard) : t.pair.Standard := by
  cases h with
  | connected pair _ hsent => exact hs.send hsent
  | disconnected reason pair _ _ hsent =>
      have hstandard : pair.Standard := hs.send hsent
      exact hstandard
  | _ => exact hs

theorem Did.consistent (h : s.Did l t) (hs : s.phase.Consistent s.killed s.reaped) :
    t.phase.Consistent t.killed t.reaped := by
  cases h with
  | exited => exact ⟨hs.alive, hs.reaping, fun _ => rfl⟩
  | connected pair hphase =>
      exact ⟨fun _ => hs.alive (.inl hphase), nofun, fun h => h.elim nofun nofun⟩
  | disconnected reason pair hphase hreaped =>
      exact ⟨fun h => h.elim nofun nofun, nofun, fun _ => hreaped⟩
  | handled => exact hs
  | told | abandoned =>
      exact ⟨fun h => h.elim nofun nofun, fun reason h => (PtyPhase.reaping.inj h).symm,
        fun h => h.elim nofun nofun⟩
  | gone hphase hreaped =>
      refine ⟨fun h => h.elim nofun nofun, fun reason h => ?_, fun _ => hreaped⟩
      rw [hs.alive (.inr hphase)]
      exact (PtyPhase.reaping.inj h).symm

/-- A step posts what its state then has posted. -/
theorem Did.posted (h : s.Did l t) (hs : s.phase.Consistent s.killed s.reaped) :
    t.posted = s.posted ++ s.sends l := by
  cases h with
  | exited => exact (List.append_nil _).symm
  | connected pair hphase => simp [Pty.posted, sends, hphase, PtyPhase.announces]
  | disconnected reason pair hphase =>
      have hreason := hs.reaping reason hphase
      simp only [Pty.posted, sends, finish, hphase, PtyPhase.announces, hreason]
      rfl
  | handled => exact (List.append_nil _).symm
  | told control hphase | abandoned hphase | gone hphase =>
      simp [Pty.posted, sends, kill, hphase]

/-- What a step posts goes to whoever still receives it. -/
theorem Did.events (h : s.Did l t) :
    (t.pair.events = s.pair.events ∧ (s.sends l = [] ∨ s.pair.events.closed = true)) ∨
      ∃ e, s.sends l = [e] ∧ s.pair.events.trySend e = .ok t.pair.events := by
  cases h with
  | connected pair hphase hsent =>
      rcases TransportPair.send_cases hsent with ⟨events, hok, rfl⟩ | ⟨hclosed, rfl⟩
      · exact .inr ⟨_, by simp [sends, hphase, PtyPhase.announces], hok⟩
      · exact .inl ⟨rfl, .inr hclosed⟩
  | disconnected reason pair hphase _ hsent =>
      rcases TransportPair.send_cases hsent with ⟨events, hok, rfl⟩ | ⟨hclosed, rfl⟩
      · exact .inr ⟨_, by simp [sends, hphase, PtyPhase.announces], hok⟩
      · exact .inl ⟨rfl, .inr hclosed⟩
  | _ => exact .inl ⟨rfl, .inl rfl⟩

/-- The controller that has ended makes no step but the shell's exit. -/
theorem Did.ended (h : s.Did l t) (hs : s.phase = .ended) : t.phase = .ended ∧ s.sends l = [] := by
  cases h with
  | exited => exact ⟨hs, rfl⟩
  | connected _ hphase | disconnected _ _ hphase | handled _ _ _ hphase | told _ hphase
  | abandoned hphase | gone hphase =>
      rw [hs] at hphase
      cases hphase

end Pty

/-- The pane asks for the end of the session, or hangs up. -/
def ShellLabel.Asks : ShellLabel → Prop
  | .pane (.control .disconnect) | .pane .dropControl => True
  | _ => False

namespace LocalShell

variable {s t : LocalShell} {l : ShellLabel} {labels : List ShellLabel}

/-! ## Channels and receivers -/

/-- Each channel has the capacity it was made with, and lost its receiver only when
its task ended. -/
structure Sound (s : LocalShell) : Prop where
  pty : s.pty.phase.Consistent s.pty.killed s.pty.reaped
  outputs : Relay.Serves s.reader.isEnded s.pty.pair.output s.outputRelay s.output.closed
  events : Relay.Serves (s.pty.phase = .ended) s.pty.pair.events s.eventsRelay s.eventsDropped
  inputs : Relay.Serves s.pty.pair.inputEnded s.pty.pair.input s.writer true
  room : s.pty.pair.output.capacity = outputChannelCapacity ∧
    s.output.capacity = uiOutputCapacity
  standard : s.pty.pair.Standard
  unfed : s.output.closed = true → s.output.queue = []
  unseen : s.eventsDropped = true → s.events = []

theorem sound_start : start.Sound :=
  ⟨⟨fun _ => rfl, nofun, fun h => h.elim nofun nofun⟩, .fresh _, .fresh _, .fresh _, ⟨rfl, rfl⟩,
    TransportPair.standard_newPair, nofun, nofun⟩

theorem Did.sound (h : s.Did l t) (hs : s.Sound) : t.Sound := by
  obtain ⟨hpty, hout, hevents, hin, hroom, hstandard, hunfed, hunseen⟩ := hs
  cases h with
  | sentInput bytes input _ hsent =>
      exact ⟨hpty, hout, hevents, hin.sent hsent, hroom, hstandard, hunfed, hunseen⟩
  | sentControl =>
      exact ⟨hpty, hout, hevents, hin, hroom, hstandard, hunfed, hunseen⟩
  | fed bytes output hrecv =>
      obtain ⟨hqueue, hclosed⟩ := Fifo.recv_some hrecv
      refine ⟨hpty, hout.mono id fun h => hclosed.trans h, hevents, hin,
        ⟨hroom.1, (Fifo.recv_capacity hrecv).trans hroom.2⟩, hstandard, fun h => ?_, hunseen⟩
      rw [hunfed (hclosed.symm.trans h)] at hqueue
      cases hqueue
  | saw e rest hsaw =>
      refine ⟨hpty, hout, hevents, hin, hroom, hstandard, hunfed, fun h => ?_⟩
      rw [hunseen h] at hsaw
      cases hsaw
  | droppedInput =>
      exact ⟨hpty, hout, hevents, hin.mono (fun _ => rfl) id, hroom, hstandard,
        hunfed, hunseen⟩
  | droppedControl =>
      exact ⟨hpty, hout, hevents, hin, hroom, hstandard, hunfed, hunseen⟩
  | droppedOutput =>
      exact ⟨hpty, hout.mono id fun _ => rfl, hevents, hin, hroom, hstandard, fun _ => rfl, hunseen⟩
  | droppedEvents =>
      exact ⟨hpty, hout, hevents.mono id fun _ => rfl, hin, hroom, hstandard, hunfed, fun _ => rfl⟩
  | controlled l pty hdid =>
      obtain ⟨hinput, hended, -⟩ := hdid.input
      have hserves : Relay.Serves (pty.phase = .ended) pty.pair.events s.eventsRelay
          s.eventsDropped := by
        have hlater : decide (s.pty.phase = .ended) = true → decide (pty.phase = .ended) = true :=
          fun h => decide_eq_true (hdid.ended (of_decide_eq_true h)).1
        rcases hdid.events with ⟨hsame, -⟩ | ⟨e, -, hsent⟩
        · exact hsame ▸ hevents.mono hlater id
        · exact (hevents.sent hsent).mono hlater id
      rw [← hdid.output] at hout hroom
      rw [← hinput, ← hended] at hin
      exact ⟨hdid.consistent hpty, hout, hserves, hin, hroom, hdid.standard hstandard, hunfed, hunseen⟩
  | read bytes hreceiving =>
      rw [hreceiving] at hout
      exact ⟨hpty, hout.mono nofun id, hevents, hin, hroom, hstandard, hunfed, hunseen⟩
  | interrupted => exact ⟨hpty, hout, hevents, hin, hroom, hstandard, hunfed, hunseen⟩
  | readOver => exact ⟨hpty, hout.mono (fun _ => rfl) id, hevents, hin, hroom, hstandard, hunfed, hunseen⟩
  | sentOutput bytes output hsending hsent =>
      rw [hsending] at hout
      exact ⟨hpty, (hout.sent hsent).mono nofun id, hevents, hin,
        ⟨(Fifo.trySend_capacity hsent).trans hroom.1, hroom.2⟩, hstandard, hunfed, hunseen⟩
  | unsentOutput =>
      exact ⟨hpty, hout.mono (fun _ => rfl) id, hevents, hin, hroom, hstandard, hunfed, hunseen⟩
  | tookInput bytes input hreceiving hrecv =>
      rw [hreceiving] at hin
      exact ⟨hpty, hout, hevents, hin.took hrecv, hroom, hstandard, hunfed, hunseen⟩
  | inputOver | writeFailed =>
      exact ⟨hpty, hout, hevents, .hungUp (.inl rfl), hroom, hstandard, hunfed,
        hunseen⟩
  | wrote bytes written results hsending =>
      rw [hsending] at hin
      exact ⟨hpty, hout, hevents, hin.gave, hroom, hstandard, hunfed, hunseen⟩
  | tookOutput bytes output hreceiving hrecv =>
      rw [hreceiving] at hout
      exact ⟨hpty, hout.took hrecv, hevents, hin,
        ⟨(Fifo.recv_capacity hrecv).trans hroom.1, hroom.2⟩, hstandard, hunfed, hunseen⟩
  | outputOver _ _ hover =>
      exact ⟨hpty, .hungUp (.inr (Relay.isEnded_iff.mpr hover)), hevents,
        hin, hroom, hstandard, hunfed, hunseen⟩
  | gaveOutput bytes output hsending hsent =>
      rw [hsending] at hout
      obtain ⟨-, hopen⟩ := Fifo.trySend_ok hsent
      refine ⟨hpty, ⟨hout.closed, hout.empty, nofun⟩, hevents, hin,
        ⟨hroom.1, (Fifo.trySend_capacity hsent).trans hroom.2⟩, hstandard, fun h => ?_, hunseen⟩
      rw [hopen] at h
      cases h
  | refusedOutput bytes _ hclosed =>
      exact ⟨hpty, .hungUp (.inl hclosed), hevents, hin, hroom, hstandard, hunfed,
        hunseen⟩
  | tookEvent e events hreceiving hrecv =>
      rw [hreceiving] at hevents
      exact ⟨hpty, hout, hevents.took hrecv, hin, hroom,
        (Fifo.recv_capacity hrecv).trans hstandard, hunfed, hunseen⟩
  | eventsOver _ _ hover =>
      exact ⟨hpty, hout, .hungUp (.inr (decide_eq_true hover)), hin, hroom, hstandard,
        hunfed, hunseen⟩
  | gaveEvent e hsending hkept =>
      rw [hsending] at hevents
      refine ⟨hpty, hout, hevents.gave, hin, hroom, hstandard, hunfed, fun h => ?_⟩
      rw [hkept] at h
      cases h
  | refusedEvent e _ hdropped =>
      exact ⟨hpty, hout, .hungUp (.inl hdropped), hin, hroom, hstandard, hunfed,
        hunseen⟩

theorem step_sound (hs : s.Sound) (h : s.step l = some t) : t.Sound := (did_of_step h).sound hs

/-! ## Output -/

/-- The steps that neither read nor feed. -/
theorem Did.flow_same (h : s.inFlight = t.inFlight) (hreads : s.reads l = [])
    (hfeeds : s.feeds l = []) :
    ∃ rest, s.inFlight ++ s.reads l = s.feeds l ++ rest ∧
      (t.output.closed = false → rest = t.inFlight) :=
  ⟨s.inFlight, by rw [hreads, hfeeds, List.append_nil, List.nil_append], fun _ => h⟩

/-- As long as the pane receives, nothing is lost and nothing overtakes. -/
theorem Did.flow (h : s.Did l t) (hs : s.Sound) (hopen : s.output.closed = false) :
    ∃ rest, s.inFlight ++ s.reads l = s.feeds l ++ rest ∧
      (t.output.closed = false → rest = t.inFlight) := by
  have hreader : s.pty.pair.output.closed = true → s.reader = .ended := by
    intro hclosed
    rw [hs.outputs.closed] at hclosed
    rcases hs.outputs.ended (Relay.isEnded_iff.mp hclosed) with hshut | hgone
    · rw [hopen] at hshut
      cases hshut
    · exact Relay.isEnded_iff.mp hgone
  cases h with
  | fed bytes output hrecv =>
      obtain ⟨hqueue, -⟩ := Fifo.recv_some hrecv
      refine ⟨output.queue ++ s.outputRelay.held ++ s.pty.pair.output.queue ++ s.reader.held, ?_,
        fun _ => rfl⟩
      simp [inFlight, reads, feeds, hqueue]
  | droppedOutput => exact ⟨s.inFlight, List.append_nil _, nofun⟩
  | controlled l pty hdid =>
      refine flow_same ?_ rfl rfl
      simp [inFlight, hdid.output]
  | read bytes hreceiving hne =>
      refine ⟨s.inFlight ++ [bytes], by simp [reads, feeds, hne], fun _ => ?_⟩
      simp [inFlight, hreceiving]
  | readOver result hreceiving _ hover =>
      refine flow_same ?_ hover rfl
      simp [inFlight, hreceiving]
  | sentOutput bytes output hsending hsent =>
      refine flow_same ?_ rfl rfl
      simp [inFlight, setPair, hsending, (Fifo.trySend_ok hsent).1]
  | unsentOutput bytes hsending hclosed =>
      rw [hreader hclosed] at hsending
      cases hsending
  | tookOutput bytes output hreceiving hrecv =>
      refine flow_same ?_ rfl rfl
      simp [inFlight, setPair, hreceiving, (Fifo.recv_some hrecv).1]
  | outputOver hreceiving hempty =>
      refine flow_same ?_ rfl rfl
      simp [inFlight, setPair, hreceiving, hempty]
  | gaveOutput bytes output hsending hsent =>
      refine flow_same ?_ rfl rfl
      simp [inFlight, hsending, (Fifo.trySend_ok hsent).1]
  | refusedOutput bytes _ hclosed =>
      rw [hopen] at hclosed
      cases hclosed
  | _ => exact flow_same rfl rfl rfl

/-- A pane that is gone is fed nothing. -/
theorem Did.unfed (h : s.Did l t) (hs : s.Sound) (hclosed : s.output.closed = true) :
    t.output.closed = true ∧ s.feeds l = [] := by
  cases h with
  | fed bytes output hrecv =>
      obtain ⟨hqueue, -⟩ := Fifo.recv_some hrecv
      rw [hs.unfed hclosed] at hqueue
      cases hqueue
  | droppedOutput => exact ⟨rfl, rfl⟩
  | gaveOutput bytes output _ hsent => simp [Fifo.trySend, hclosed] at hsent
  | _ => exact ⟨hclosed, rfl⟩

theorem Sound.inFlight_le (hs : s.Sound) :
    s.inFlight.length ≤ uiOutputCapacity + outputChannelCapacity + 2 := by
  have houter := s.output.bounded
  have hinner := s.pty.pair.output.bounded
  have hrelay := s.outputRelay.held_length_le
  have hreader := s.reader.held_length_le
  rw [hs.room.1] at hinner
  rw [hs.room.2] at houter
  simp only [inFlight, List.length_append]
  omega

/-- Whatever the order of the steps, the terminal is fed what was read from the PTY in
the order it was read; what is missing is under way as long as the pane receives,
and no more than 322 chunks are. -/
theorem output_in_order (hrun : run step start labels = some t) :
    outputs step feeds start labels <+: outputs step reads start labels ∧
      (t.output.closed = false →
        outputs step reads start labels = outputs step feeds start labels ++ t.inFlight) ∧
      t.inFlight.length ≤ 322 := by
  have hsound : t.Sound := invariant (fun _ _ _ hs h => step_sound hs h) sound_start hrun
  obtain ⟨rest, hbooks, hrest⟩ :
      ∃ rest, outputs step reads start labels = outputs step feeds start labels ++ rest ∧
        (t.output.closed = false → rest = t.inFlight) := by
    refine balanced_until (fun _ _ _ hs h => step_sound hs h)
      (fun _ _ _ hs hopen h => (did_of_step h).flow hs hopen) (fun _ _ _ hs hshut h => ?_)
      sound_start hrun
    obtain ⟨hstill, hnone⟩ := (did_of_step h).unfed hs (eq_true_of_ne_false hshut)
    exact ⟨by rw [hstill]; exact Bool.noConfusion, hnone⟩
  exact ⟨⟨rest, hbooks.symm⟩, fun hopen => hrest hopen ▸ hbooks, hsound.inFlight_le⟩

/-- The steps that take output on its way. -/
def PassesOutput (_ : LocalShell) (l : ShellLabel) : Prop :=
  l = .sendOutput ∨ l = .takeOutput ∨ l = .giveOutput ∨ l = .pane .takeOutput

/-- Each chunk counts the steps it has before it. -/
def outputRank (s : LocalShell) : Nat :=
  4 * s.reader.held.length + 3 * s.pty.pair.output.queue.length +
    2 * s.outputRelay.held.length + s.output.queue.length

/-- Output under way can be taken on: the chunk that is nearest to the pane. -/
theorem Sound.passes (hs : s.Sound) (hopen : s.output.closed = false) (hne : s.inFlight ≠ []) :
    ∃ l t, s.PassesOutput l ∧ s.step l = some t ∧ t.output.closed = false ∧
      t.outputRank < s.outputRank := by
  cases hout : s.output.recv with
  | some r =>
      obtain ⟨bytes, output⟩ := r
      obtain ⟨hqueue, hsame⟩ := Fifo.recv_some hout
      refine ⟨.pane .takeOutput, { s with output := output }, by simp [PassesOutput],
        by simp [step, pane, hout], hsame.trans hopen, ?_⟩
      simp [outputRank, hqueue]
  | none =>
      have hempty := Fifo.recv_eq_none.mp hout
      have hserves := hs.outputs
      have hhop := hs.room.1
      cases hrelay : s.outputRelay with
      | sending bytes =>
          have hroom : s.output.queue.length < s.output.capacity := by
            rw [hempty, hs.room.2]
            decide
          obtain ⟨d, hgive, hsend⟩ := Relay.give_some (x := bytes) hopen hroom
          obtain ⟨hqueue, hstill⟩ := Fifo.trySend_ok hsend
          refine ⟨.giveOutput, _, by simp [PassesOutput],
            by rw [step, giveOutput, hrelay, hgive]; rfl, hstill, ?_⟩
          simp [outputRank, setPair, hrelay, hqueue, hempty]
      | receiving =>
          cases hinner : s.pty.pair.output.queue with
          | cons bytes rest =>
              obtain ⟨x, d, htake, hqueue⟩ := Relay.take_some s.reader.isEnded
                (c := s.pty.pair.output) (by simp [hinner])
              refine ⟨.takeOutput,
                { s.setPair { s.pty.pair with output := d } with outputRelay := .sending x },
                by simp [PassesOutput],
                by rw [step, takeOutput, hrelay, htake]; rfl, hopen, ?_⟩
              simp only [outputRank, setPair, hrelay, hqueue, hempty, Relay.held_sending,
                Relay.held_receiving, List.length_cons, List.length_nil]
              omega
          | nil =>
              obtain ⟨bytes, hreader⟩ : ∃ bytes, s.reader = .sending bytes := by
                cases hreader : s.reader with
                | sending bytes => exact ⟨bytes, rfl⟩
                | receiving | ended => simp [inFlight, hempty, hrelay, hinner, hreader] at hne
              have hfree : s.pty.pair.output.closed = false := by
                rw [hserves.closed, hrelay]
                rfl
              have hroom : s.pty.pair.output.queue.length < s.pty.pair.output.capacity := by
                rw [hinner, hhop]
                decide
              obtain ⟨d, hgive, hsend⟩ := Relay.give_some (x := bytes) hfree hroom
              refine ⟨.sendOutput,
                { s.setPair { s.pty.pair with output := d } with reader := .receiving },
                by simp [PassesOutput],
                by rw [step, sendOutput, hreader, hgive]; rfl, hopen, ?_⟩
              simp [outputRank, setPair, hreader, hinner, (Fifo.trySend_ok hsend).1]
      | ended =>
          -- nobody reads any more, and the channel is empty: nothing is under way
          rw [hrelay] at hserves
          have hinner := hserves.empty hserves.closed
          have hreader : s.reader = .ended := by
            rcases hserves.ended rfl with hshut | hgone
            · rw [hopen] at hshut
              cases hshut
            · exact Relay.isEnded_iff.mp hgone
          simp [inFlight, hempty, hrelay, hinner, hreader] at hne

/-- Whatever the tasks have done, the output under way gets to the terminal without
another read: none of the relays waits for another for ever. -/
theorem output_arrives (hrun : run step start labels = some t) (hopen : t.output.closed = false) :
    ∃ more u, run step t more = some u ∧ Along step PassesOutput t more ∧
      outputs step feeds start (labels ++ more) = outputs step reads start labels := by
  have hsound : t.Sound := invariant (fun _ _ _ hs h => step_sound hs h) sound_start hrun
  have hgo : ∀ s : LocalShell, s.Sound ∧ s.output.closed = false → ¬s.inFlight = [] →
      ∃ l u, s.PassesOutput l ∧ step s l = some u ∧ (u.Sound ∧ u.output.closed = false) ∧
        u.outputRank < s.outputRank := by
    intro s hs hne
    obtain ⟨l, u, hpasses, hstep, hstill, hrank⟩ := hs.1.passes hs.2 hne
    exact ⟨l, u, hpasses, hstep, ⟨step_sound hs.1 hstep, hstill⟩, hrank⟩
  obtain ⟨more, u, hmore, halong, ⟨-, hstill⟩, hempty⟩ := exists_final hgo ⟨hsound, hopen⟩
  have hall : run step start (labels ++ more) = some u := by
    rw [run_append, hrun]
    exact hmore
  refine ⟨more, u, hmore, halong, ?_⟩
  obtain ⟨-, hbooks, -⟩ := output_in_order hall
  have hnone : outputs step reads t more = [] := by
    refine List.eq_nil_iff_forall_not_mem.mpr ?_
    refine outputs_all (I := fun _ => True) (fun _ _ _ _ _ _ => trivial) ?_ trivial halong
    rintro s l u - (rfl | rfl | rfl | rfl) - x hx <;> cases hx
  rw [hempty, List.append_nil] at hbooks
  rw [← hbooks hstill, outputs_append hrun, hnone, List.append_nil]

/-- A shell that exits while its last output is under way. -/
def lastWords : List ShellLabel :=
  [.controller .emit, .pane (.input [97]), .takeInput, .write [.interrupted, .wrote 1],
    .read (.data [98, 99]), .sendOutput, .takeOutput, .giveOutput, .read (.data [100]),
    .pane .takeOutput, .sendOutput, .controller .shellExits, .controller .readExit,
    .controller .emit, .takeEvent, .giveEvent, .takeEvent, .giveEvent, .takeEvent,
    .pane .takeEvent, .pane .takeEvent]

theorem output_in_order_lastWords : ∃ t, run step start lastWords = some t ∧
    t.inFlight = [[100]] ∧
    outputs step reads start lastWords = outputs step feeds start lastWords ++ t.inFlight := by
  have hend : (run step start lastWords).map (fun t => (t.inFlight, t.output.closed)) =
      some ([[100]], false) := rfl
  obtain ⟨t, hrun, ht⟩ := Option.map_eq_some_iff.mp hend
  obtain ⟨hflight, hopen⟩ := Prod.mk.injEq .. |>.mp ht
  exact ⟨t, hrun, hflight, (output_in_order hrun).2.1 hopen⟩

theorem output_arrives_lastWords :
    ∃ t more u, run step start lastWords = some t ∧ run step t more = some u ∧
      outputs step feeds start (lastWords ++ more) = outputs step reads start lastWords := by
  have hend : (run step start lastWords).map (·.output.closed) = some false := rfl
  obtain ⟨t, hrun, hopen⟩ := Option.map_eq_some_iff.mp hend
  obtain ⟨more, u, hmore, -, hall⟩ := output_arrives hrun hopen
  exact ⟨t, more, u, hrun, hmore, hall⟩

/-! ## Input -/

/-- The step does not fail to write what it took. -/
def Completes (_ : LocalShell) : ShellLabel → Prop
  | .write results => results.all (·.goesOn) = true
  | _ => True

instance (s : LocalShell) : ∀ l, Decidable (s.Completes l)
  | .write _ => inferInstanceAs (Decidable (_ = _))
  | .pane _ | .controller _ | .read _ | .sendOutput | .takeInput | .takeOutput | .giveOutput
  | .takeEvent | .giveEvent => inferInstanceAs (Decidable True)

/-- What is written of a chunk is a beginning of it; all of it when the call goes on
after each answer. -/
theorem writeAll_start {buf : Bytes} {results : List WriteResult} {r : Bytes × Bool}
    (h : writeAll buf results = some r) : r.1 <+: buf ∧ r.2 = results.all (·.goesOn) := by
  induction results generalizing buf r with
  | nil =>
      cases buf with
      | nil => exact Option.some.inj h ▸ ⟨List.prefix_refl _, rfl⟩
      | cons b rest => cases h
  | cons result results ih =>
      cases buf with
      | nil => cases h
      | cons b rest =>
          rw [List.all_cons]
          unfold writeAll at h
          split at h
          · rename_i hon
            rw [hon, Bool.true_and]
            split at h
            · rename_i n
              obtain ⟨-, heq⟩ := Option.ite_none_right_eq_some.mp h
              obtain ⟨r', hr', rfl⟩ := Option.map_eq_some_iff.mp heq
              obtain ⟨⟨left, hleft⟩, hall⟩ := ih hr'
              refine ⟨⟨left, ?_⟩, hall⟩
              dsimp only
              rw [List.append_assoc, hleft, List.take_append_drop]
            · exact ih h
          · rename_i hoff
            obtain ⟨-, heq⟩ := Option.ite_none_right_eq_some.mp h
            rw [Bool.eq_false_iff.mpr hoff, Bool.false_and]
            exact Option.some.inj heq ▸ ⟨List.nil_prefix, rfl⟩

/-- The steps that neither accept input nor write. -/
theorem Did.ink_same (h : s.unwritten = t.unwritten) (haccepts : s.accepts l = [])
    (hwrites : s.writes l = []) (hcompletes : s.Completes l) :
    ∃ rest, s.unwritten ++ s.accepts l = s.writes l ++ rest ∧
      (s.Completes l → rest = t.unwritten) ∧ (t.writer ≠ .ended → s.Completes l) :=
  ⟨s.unwritten, by rw [haccepts, hwrites, List.append_nil, List.nil_append], fun _ => h,
    fun _ => hcompletes⟩

/-- A step writes what was accepted first. It drops input only with a write that fails,
and then the task has ended. -/
theorem Did.ink (h : s.Did l t) :
    ∃ rest, s.unwritten ++ s.accepts l = s.writes l ++ rest ∧
      (s.Completes l → rest = t.unwritten) ∧ (t.writer ≠ .ended → s.Completes l) := by
  cases h with
  | sentInput bytes input _ hsent =>
      refine ⟨s.unwritten ++ bytes, rfl, fun _ => ?_, fun _ => trivial⟩
      simp [unwritten, setPair, (Fifo.trySend_ok hsent).1]
  | controlled l pty hdid =>
      refine ink_same ?_ rfl rfl trivial
      simp [unwritten, hdid.input]
  | tookInput bytes input hreceiving hrecv =>
      refine ink_same ?_ rfl rfl trivial
      simp [unwritten, setPair, hreceiving, (Fifo.recv_some hrecv).1]
  | inputOver hreceiving hempty =>
      refine ink_same ?_ rfl rfl trivial
      simp [unwritten, setPair, hreceiving, hempty]
  | wrote bytes written results hsending hall =>
      obtain ⟨⟨left, hleft⟩, hgoes⟩ := writeAll_start hall
      obtain ⟨hwhole, -⟩ := writeAll_spec hall
      have hcompletes : s.Completes (.write results) := hgoes.symm
      have hbytes : written = bytes := hwhole hgoes.symm
      refine ⟨s.pty.pair.input.queue.flatten, ?_, fun _ => rfl, fun _ => hcompletes⟩
      simp [unwritten, accepts, writes, hsending, hall, hbytes]
  | writeFailed bytes written results hsending hcut =>
      obtain ⟨⟨left, hleft⟩, hgoes⟩ := writeAll_start hcut
      refine ⟨left ++ s.pty.pair.input.queue.flatten, ?_, fun hcompletes => ?_,
        fun hne => absurd rfl hne⟩
      · have hbytes : written ++ left = bytes := hleft
        simp [unwritten, accepts, writes, hsending, hcut, ← List.append_assoc, hbytes]
      · have hall : results.all (·.goesOn) = true := hcompletes
        rw [hall] at hgoes
        cases hgoes
  | _ => exact ink_same rfl rfl rfl trivial

/-- A task that has ended writes nothing. -/
theorem Did.dry (h : s.Did l t) (hended : s.writer = .ended) :
    t.writer = .ended ∧ s.writes l = [] := by
  cases h with
  | wrote _ _ _ hsending | writeFailed _ _ _ hsending =>
      rw [hended] at hsending
      cases hsending
  | tookInput _ _ hreceiving | inputOver hreceiving =>
      rw [hended] at hreceiving
      cases hreceiving
  | _ => exact ⟨hended, rfl⟩

/-- While the task writes, no write has failed. -/
theorem along_completes (hrun : run step s labels = some t) (hwriter : t.writer ≠ .ended) :
    Along step Completes s labels := by
  induction labels using List.reverseRecOn generalizing t with
  | nil => trivial
  | append_singleton labels l ih =>
      obtain ⟨r, hr, ht⟩ := run_concat.mp hrun
      obtain ⟨-, -, -, hcompletes⟩ := (did_of_step ht).ink
      refine along_concat.mpr ⟨ih hr fun hended => hwriter ((did_of_step ht).dry hended).1, ?_⟩
      intro r' hr'
      obtain rfl := Option.some.inj (hr.symm.trans hr')
      exact hcompletes hwriter

/-- Whatever the order of the steps, the PTY is given what the pane sent, in order and
without a gap, and unless a write failed, what is missing waits to be written. A
write that fails is the last. -/
theorem input_in_order (hrun : run step start labels = some t) :
    outputs step writes start labels <+: outputs step accepts start labels ∧
      (Along step Completes start labels →
        outputs step accepts start labels = outputs step writes start labels ++ t.unwritten) ∧
      (t.writer ≠ .ended → Along step Completes start labels) := by
  have hlive : ∀ s l t, True → s.writer ≠ .ended → step s l = some t →
      ∃ rest, s.unwritten ++ s.accepts l = s.writes l ++ rest ∧
        (t.writer ≠ .ended → rest = t.unwritten) := by
    intro s l t _ _ h
    obtain ⟨rest, hbooks, hrest, hcompletes⟩ := (did_of_step h).ink
    exact ⟨rest, hbooks, fun hwriter => hrest (hcompletes hwriter)⟩
  have hdead : ∀ s l t, True → ¬s.writer ≠ .ended → step s l = some t →
      ¬t.writer ≠ .ended ∧ s.writes l = [] := by
    intro s l t _ hdead h
    obtain ⟨hended, hnone⟩ := (did_of_step h).dry (not_not.mp hdead)
    exact ⟨not_not.mpr hended, hnone⟩
  have hsteps : ∀ s l t, s.Completes l → step s l = some t →
      s.unwritten ++ s.accepts l = s.writes l ++ t.unwritten := by
    intro s l t hcompletes h
    obtain ⟨rest, hbooks, hrest, -⟩ := (did_of_step h).ink
    rw [hbooks, hrest hcompletes]
  obtain ⟨rest, hbooks, -⟩ :=
    balanced_until (fun _ _ _ _ _ => trivial) hlive hdead trivial hrun
  exact ⟨⟨rest, hbooks.symm⟩, fun halong => balanced hsteps halong hrun, along_completes hrun⟩

theorem input_in_order_lastWords : ∃ t, run step start lastWords = some t ∧
    outputs step writes start lastWords = [97] ∧
    outputs step accepts start lastWords = outputs step writes start lastWords ++ t.unwritten := by
  have hend : (run step start lastWords).isSome = true := rfl
  obtain ⟨t, hrun⟩ := Option.isSome_iff_exists.mp hend
  exact ⟨t, hrun, rfl, (input_in_order hrun).2.1 (by decide)⟩

/-! ## Events -/

/-- The steps that neither post nor show an event. -/
theorem Did.news_same (h : s.unseen = t.unseen) (hposts : s.posts l = [])
    (hsees : s.sees l = []) :
    ∃ rest, s.unseen ++ s.posts l = s.sees l ++ rest ∧
      (t.eventsDropped = false → rest = t.unseen) :=
  ⟨s.unseen, by rw [hposts, hsees, List.append_nil, List.nil_append], fun _ => h⟩

/-- As long as the pane receives events, none is lost and none overtakes. -/
theorem Did.news (h : s.Did l t) (hs : s.Sound) (hkept : s.eventsDropped = false) :
    ∃ rest, s.unseen ++ s.posts l = s.sees l ++ rest ∧
      (t.eventsDropped = false → rest = t.unseen) := by
  cases h with
  | saw e rest hsaw =>
      refine ⟨rest ++ s.eventsRelay.held ++ s.pty.pair.events.queue, ?_, fun _ => rfl⟩
      simp [unseen, posts, sees, hsaw]
  | droppedEvents => exact ⟨s.unseen, List.append_nil _, nofun⟩
  | controlled l pty hdid =>
      rcases hdid.events with ⟨hsame, hsends | hclosed⟩ | ⟨e, hsends, hsent⟩
      · refine news_same ?_ hsends rfl
        simp [unseen, hsame]
      · -- the events lose their receiver only once the controller has ended
        rw [hs.events.closed] at hclosed
        have hended : s.pty.phase = .ended := by
          rcases hs.events.ended (Relay.isEnded_iff.mp hclosed) with hdropped | hgone
          · rw [hkept] at hdropped
            cases hdropped
          · exact of_decide_eq_true hgone
        refine news_same ?_ (hdid.ended hended).2 rfl
        simp [unseen, hsame]
      · refine ⟨s.unseen ++ [e], by simp [posts, sees, hsends], fun _ => ?_⟩
        simp [unseen, (Fifo.trySend_ok hsent).1]
  | tookEvent e events hreceiving hrecv =>
      refine news_same ?_ rfl rfl
      simp [unseen, setPair, hreceiving, (Fifo.recv_some hrecv).1]
  | eventsOver hreceiving hempty =>
      refine news_same ?_ rfl rfl
      simp [unseen, setPair, hreceiving, hempty]
  | gaveEvent e hsending =>
      refine news_same ?_ rfl rfl
      simp [unseen, hsending]
  | refusedEvent e _ hdropped =>
      rw [hkept] at hdropped
      cases hdropped
  | _ => exact news_same rfl rfl rfl

/-- A pane that dropped its receiver sees nothing. -/
theorem Did.blind (h : s.Did l t) (hs : s.Sound) (hdropped : s.eventsDropped = true) :
    t.eventsDropped = true ∧ s.sees l = [] := by
  cases h with
  | saw e rest hsaw =>
      rw [hs.unseen hdropped] at hsaw
      cases hsaw
  | droppedEvents => exact ⟨rfl, rfl⟩
  | _ => exact ⟨hdropped, rfl⟩

theorem Did.posted (h : s.Did l t) (hs : s.Sound) : t.pty.posted = s.pty.posted ++ s.posts l := by
  cases h with
  | controlled l pty hdid => exact hdid.posted hs.pty
  | _ => exact (List.append_nil _).symm

theorem run_posted (hrun : run step start labels = some t) :
    outputs step posts start labels = t.pty.posted := by
  induction labels using List.reverseRecOn generalizing t with
  | nil => exact Option.some.inj hrun ▸ rfl
  | append_singleton labels l ih =>
      obtain ⟨r, hr, ht⟩ := run_concat.mp hrun
      have hsound : r.Sound := invariant (fun _ _ _ hs h => step_sound hs h) sound_start hr
      rw [outputs_concat hr ht, ih hr, (did_of_step ht).posted hsound]

/-- The pane's next look at its events finds that their sender is gone: it marks the
session as finished. -/
def Finished (s : LocalShell) : Prop :=
  s.events = [] ∧ s.eventsRelay = .ended ∧ s.eventsDropped = false

/-- The events of a shell that was told to exit, or was not. -/
def story (killed : Bool) : List TransportEvent :=
  [.connected, .disconnected (if killed then .local else .remote)]

theorem posted_story (p : Pty) : p.posted <+: story p.killed := by
  unfold Pty.posted story
  split
  · exact List.nil_prefix
  · exact List.prefix_append [_] _
  · exact List.prefix_append [_] _
  · exact List.prefix_refl _

/-- Nobody asked for the end of the session. -/
structure Unasked (s : LocalShell) : Prop where
  quiet : .disconnect ∉ s.pty.pair.control.queue
  held : s.pty.pair.controlEnded = false
  alive : s.pty.killed = false

theorem Did.unasked (h : s.Did l t) (hl : ¬l.Asks) (hs : s.Unasked) : t.Unasked := by
  cases h with
  | sentControl msg control _ hsent =>
      refine ⟨?_, hs.held, hs.alive⟩
      rintro hmem
      have hqueue : .disconnect ∈ s.pty.pair.control.queue ++ [msg] :=
        (Fifo.trySend_ok hsent).1 ▸ hmem
      rcases List.mem_append.mp hqueue with hold | hnew
      · exact hs.quiet hold
      · obtain rfl := List.mem_singleton.mp hnew
        exact hl trivial
  | droppedControl => exact absurd trivial hl
  | controlled l pty hdid =>
      cases hdid with
      | connected pair _ hsent =>
          obtain ⟨events, rfl, -⟩ := TransportPair.send_eq hsent
          exact ⟨hs.quiet, hs.held, hs.alive⟩
      | disconnected reason pair _ _ hsent =>
          obtain ⟨events, rfl, -⟩ := TransportPair.send_eq hsent
          exact ⟨List.not_mem_nil, hs.held, hs.alive⟩
      | handled msg control size _ hrecv =>
          refine ⟨fun hmem => hs.quiet ?_, hs.held, hs.alive⟩
          rw [(Fifo.recv_some hrecv).1]
          exact List.mem_cons_of_mem _ hmem
      | told control _ hrecv =>
          refine absurd ?_ hs.quiet
          rw [(Fifo.recv_some hrecv).1]
          exact List.mem_cons_self
      | abandoned _ _ hover =>
          rw [hs.held] at hover
          cases hover
      | exited | gone => exact ⟨hs.quiet, hs.held, hs.alive⟩
  | _ => exact ⟨hs.quiet, hs.held, hs.alive⟩

theorem asked_of_killed (hrun : run step start labels = some t) (hkilled : t.pty.killed = true) :
    ∃ l ∈ labels, l.Asks := by
  by_contra hnone
  push Not at hnone
  have halong : Along step (fun _ l => ¬l.Asks) start labels :=
    along_iff_split.mpr fun _ l _ _ hsplit _ => hnone l (by simp [hsplit])
  have hunasked : t.Unasked :=
    run_invariant (fun _ _ _ hs hl h => (did_of_step h).unasked hl hs)
      ⟨List.not_mem_nil, rfl, rfl⟩ halong hrun
  rw [hunasked.alive] at hkilled
  cases hkilled

/-- Whatever the order of the steps, the pane sees that the shell is connected and
then that it is not: `local` only if it asked for the end. A session it marks as
finished is one that it saw end, and whose shell was reaped. -/
theorem events_in_order (hrun : run step start labels = some t) :
    outputs step sees start labels <+: story t.pty.killed ∧
      (t.pty.killed = true → ∃ l ∈ labels, l.Asks) ∧
      (t.Finished →
        outputs step sees start labels = story t.pty.killed ∧ t.pty.reaped = true) := by
  have hsound : t.Sound := invariant (fun _ _ _ hs h => step_sound hs h) sound_start hrun
  have hdead : ∀ s l t, s.Sound → ¬s.eventsDropped = false → step s l = some t →
      ¬t.eventsDropped = false ∧ s.sees l = [] := by
    intro s l t hs hdropped h
    obtain ⟨hstill, hnone⟩ := (did_of_step h).blind hs (eq_true_of_ne_false hdropped)
    exact ⟨by rw [hstill]; exact Bool.noConfusion, hnone⟩
  obtain ⟨rest, hbooks, hrest⟩ :
      ∃ rest, outputs step posts start labels = outputs step sees start labels ++ rest ∧
        (t.eventsDropped = false → rest = t.unseen) :=
    balanced_until (fun _ _ _ hs h => step_sound hs h)
      (fun _ _ _ hs hkept h => (did_of_step h).news hs hkept) hdead sound_start hrun
  rw [run_posted hrun] at hbooks
  refine ⟨List.IsPrefix.trans ⟨rest, hbooks.symm⟩ (posted_story t.pty), asked_of_killed hrun, ?_⟩
  rintro ⟨hnone, hrelay, hkept⟩
  have hended : t.pty.phase = .ended := by
    rcases hsound.events.ended hrelay with hdropped | hgone
    · rw [hkept] at hdropped
      cases hdropped
    · exact of_decide_eq_true hgone
  have hempty : t.unseen = [] := by
    have hclosed := hsound.events.closed
    rw [hrelay] at hclosed
    simp [unseen, hnone, hrelay, hsound.events.empty hclosed]
  refine ⟨?_, hsound.pty.reaped (.inr hended)⟩
  rw [hrest hkept, hempty, List.append_nil] at hbooks
  rw [← hbooks, Pty.posted, hended, story]

theorem events_in_order_lastWords : ∃ t, run step start lastWords = some t ∧
    outputs step sees start lastWords = story t.pty.killed ∧ t.pty.reaped = true := by
  have hend : (run step start lastWords).map
      (fun t => (t.events, t.eventsRelay, t.eventsDropped)) = some ([], .ended, false) := rfl
  obtain ⟨t, hrun, ht⟩ := Option.map_eq_some_iff.mp hend
  obtain ⟨hnone, hrelay, hkept⟩ : t.Finished := by simpa [Finished, Prod.mk.injEq] using ht
  exact ⟨t, hrun, (events_in_order hrun).2.2 ⟨hnone, hrelay, hkept⟩⟩

end LocalShell

end PolyTerm
