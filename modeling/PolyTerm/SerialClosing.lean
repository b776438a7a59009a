import PolyTerm.SerialContract
import PolyTerm.Settling

/-!
# Closing the pane of a serial session

The loop runs on a thread of its own, and nothing tells it that its pane is
gone but the channels. Once the pane's senders are dropped it works off what
was sent before and ends where it next looks at its control channel. On the
way it waits for nothing but room in the channels to the pane, which the relays
make, so the thread is not left behind (`line_ends`).
-/

namespace PolyTerm

open Runs

/-! ## The channels -/

namespace TransportPair

variable {p q : TransportPair}

/-- The four channels are as large as before. -/
structure SameRoom (p q : TransportPair) : Prop where
  output : q.output.capacity = p.output.capacity
  input : q.input.capacity = p.input.capacity
  control : q.control.capacity = p.control.capacity
  events : q.events.capacity = p.events.capacity

theorem SameRoom.refl (p : TransportPair) : SameRoom p p := ⟨rfl, rfl, rfl, rfl⟩

theorem ui_room {move : UiMove} (h : p.ui move = some q) : SameRoom p q := by
  cases move with
  | input bytes =>
      obtain ⟨-, h⟩ := Option.ite_none_left_eq_some.mp h
      split at h
      · rename_i input hsend
        obtain rfl := Option.some.inj h
        exact ⟨rfl, Fifo.trySend_capacity hsend, rfl, rfl⟩
      · cases h
  | control msg =>
      obtain ⟨-, h⟩ := Option.ite_none_left_eq_some.mp h
      split at h
      · rename_i control hsend
        obtain rfl := Option.some.inj h
        exact ⟨rfl, rfl, Fifo.trySend_capacity hsend, rfl⟩
      · cases h
  | takeOutput =>
      obtain ⟨⟨bytes, output⟩, hrecv, rfl⟩ := Option.map_eq_some_iff.mp h
      exact ⟨Fifo.recv_capacity hrecv, rfl, rfl, rfl⟩
  | takeEvent =>
      obtain ⟨⟨e, events⟩, hrecv, rfl⟩ := Option.map_eq_some_iff.mp h
      exact ⟨rfl, rfl, rfl, Fifo.recv_capacity hrecv⟩
  | dropInput | dropControl | dropOutput | dropEvents =>
      obtain rfl := Option.some.inj h
      exact ⟨rfl, rfl, rfl, rfl⟩

theorem send_room {e : TransportEvent} (h : p.send e = some q) : SameRoom p q := by
  obtain ⟨events, rfl, hcapacity⟩ := send_eq h
  exact ⟨rfl, rfl, rfl, hcapacity⟩

theorem deliver_room {bytes : Bytes} {r : TransportPair × Bool} (h : p.deliver bytes = some r) :
    SameRoom p r.1 := by
  unfold deliver at h
  split at h
  · rename_i output hsend
    obtain rfl := Option.some.inj h
    exact ⟨Fifo.trySend_capacity hsend, rfl, rfl, rfl⟩
  · cases h
  · obtain rfl := Option.some.inj h
    exact .refl p

theorem send_length {e : TransportEvent} (h : p.send e = some q) :
    q.events.queue.length ≤ p.events.queue.length + 1 := by
  unfold send at h
  split at h
  · rename_i events hsend
    obtain rfl := Option.some.inj h
    rw [(Fifo.trySend_ok hsend).1, List.length_append, List.length_singleton]
  · cases h
  · obtain rfl := Option.some.inj h
    exact Nat.le_succ _

/-- Output that was delivered is in its channel, or there was nobody left to
deliver it to. -/
theorem deliver_cases {bytes : Bytes} {r : TransportPair × Bool} (h : p.deliver bytes = some r) :
    (∃ output, r = ({ p with output := output }, true) ∧
        output.queue = p.output.queue ++ [bytes]) ∨
      r = (p, false) := by
  unfold deliver at h
  split at h
  · rename_i output hsend
    exact .inl ⟨output, (Option.some.inj h).symm, (Fifo.trySend_ok hsend).1⟩
  · cases h
  · exact .inr (Option.some.inj h).symm

/-- A delivery that waits can go on once a relay has taken a chunk. -/
theorem deliver_waits {bytes : Bytes} (hpos : 0 < p.output.capacity)
    (h : p.deliver bytes = none) : ∃ q, p.ui .takeOutput = some q := by
  unfold deliver at h
  split at h
  case h_1 => cases h
  case h_3 => cases h
  case h_2 hfull =>
    obtain ⟨chunk, output, hrecv, -⟩ := Fifo.trySend_full hfull hpos
    exact ⟨{ p with output := output }, by rw [ui, hrecv]; rfl⟩

end TransportPair

/-! ## The loop -/

/-- The steps from the phase to the end, if nothing was sent to the loop. -/
def SerialPhase.rank : SerialPhase → Nat
  | .ended => 0
  | .closing | .waiting => 1
  | .control | .removed => 2
  | .opened | .reopened | .relaying _ => 3
  | .reading => 4
  | .input => 5
  | .reporting => 6
  | .housekeeping => 7

namespace Serial

variable {s t : Serial} {l : SerialLabel}

/-- The pane is gone: its senders were dropped. -/
structure Dropped (s : Serial) : Prop where
  control : s.pair.controlEnded = true
  input : s.pair.inputEnded = true

/-- A step of the loop's own. -/
def moves (_ : Serial) : SerialLabel → Bool
  | .ui _ | .tick _ => false
  | _ => true

/-- What is left to the loop. A control message can reopen the port, which takes
three more steps. -/
def rest (s : Serial) : Nat :=
  s.phase.rank + 4 * s.pair.control.queue.length + s.pair.input.queue.length

/-- What the relays have not taken yet. -/
def untaken (s : Serial) : Nat := s.pair.output.queue.length + s.pair.events.queue.length

theorem rest_pos (h : 0 < s.phase.rank) : 0 < s.rest := by
  unfold rest
  omega

/-- What a step of the loop does to a session whose pane is gone. -/
structure Lowers (s t : Serial) : Prop where
  dropped : t.Dropped
  rest : t.rest < s.rest
  untaken : t.untaken ≤ s.untaken + 1

theorem finish_lowers (hs : s.Dropped) (h : 0 < s.phase.rank) : Lowers s s.finish :=
  ⟨⟨hs.control, hs.input⟩, rest_pos h, Nat.le_succ _⟩

theorem emit_lowers (hs : s.Dropped) (h : s.emit = some t) : Lowers s t := by
  obtain ⟨e, pair, he, hsend, rfl⟩ := emit_cases h
  have hlength := TransportPair.send_length hsend
  obtain ⟨events, rfl, -⟩ := TransportPair.send_eq hsend
  obtain ⟨hcontrol, hinput⟩ := hs
  have huntaken : s.pair.output.queue.length + events.queue.length ≤ s.untaken + 1 := by
    simp only at hlength
    unfold untaken
    omega
  cases hphase : s.phase with
  | opened | reporting | removed | reopened =>
      simp only [announced]
      refine ⟨⟨hcontrol, hinput⟩, ?_, huntaken⟩
      simp [rest, hphase, SerialPhase.rank]
  | closing =>
      simp only [announced]
      exact ⟨⟨hcontrol, hinput⟩, rest_pos (by rw [hphase]; decide), huntaken⟩
  | _ =>
      rw [hphase] at he
      cases he

theorem readControl_lowers (hs : s.Dropped) (h : s.readControl = some t) : Lowers s t := by
  obtain ⟨hphase, heq⟩ := Option.ite_none_right_eq_some.mp h
  split at heq
  · rename_i msg control hrecv
    obtain rfl := Option.some.inj heq
    have hqueue := congrArg List.length (Fifo.recv_some hrecv).1
    rw [List.length_cons] at hqueue
    cases msg with
    | disconnect =>
        refine ⟨⟨hs.control, hs.input⟩, ?_, Nat.le_succ _⟩
        simp only [rest, handleControl, SerialPhase.rank, hphase]
        omega
    | _ =>
        refine ⟨⟨hs.control, hs.input⟩, ?_, Nat.le_succ _⟩
        simp only [rest, handleControl, hphase]
        omega
  · obtain rfl := Option.some.inj heq
    rw [if_pos hs.control]
    exact finish_lowers hs (by rw [hphase]; decide)

theorem clearBreak_eq (s : Serial) :
    s.clearBreak.pair = s.pair ∧ s.clearBreak.phase = s.phase := by
  unfold clearBreak
  split <;> exact ⟨rfl, rfl⟩

theorem pollModem_eq (s : Serial) (lines : Option ModemLines) :
    (s.pollModem lines).pair = s.pair ∧
      ((s.pollModem lines).phase = .reporting ∨ (s.pollModem lines).phase = .input) := by
  unfold pollModem
  split
  · dsimp only
    split
    · exact ⟨rfl, .inl rfl⟩
    · exact ⟨rfl, .inr rfl⟩
  · exact ⟨rfl, .inr rfl⟩

theorem housekeep_lowers {lines : Option ModemLines} (hs : s.Dropped)
    (h : s.housekeep lines = some t) : Lowers s t := by
  obtain ⟨hphase, heq⟩ := Option.ite_none_right_eq_some.mp h
  obtain rfl := Option.some.inj heq
  obtain ⟨hpair, hnext⟩ := pollModem_eq s.clearBreak lines
  rw [(clearBreak_eq s).1] at hpair
  have hrank : (s.clearBreak.pollModem lines).phase.rank < s.phase.rank := by
    rw [hphase]
    rcases hnext with hnext | hnext <;> rw [hnext] <;> decide
  refine ⟨⟨hpair ▸ hs.control, hpair ▸ hs.input⟩, ?_, ?_⟩
  · simp only [rest, hpair]
    omega
  · simp [untaken, hpair]

theorem readInput_lowers {results : List WriteResult} (hs : s.Dropped)
    (h : s.readInput results = some t) : Lowers s t := by
  obtain ⟨hphase, heq⟩ := Option.ite_none_right_eq_some.mp h
  split at heq
  · rename_i bytes input hrecv
    obtain ⟨r, -, rfl⟩ := Option.map_eq_some_iff.mp heq
    have hqueue := congrArg List.length (Fifo.recv_some hrecv).1
    rw [List.length_cons] at hqueue
    refine ⟨⟨hs.control, hs.input⟩, ?_, Nat.le_succ _⟩
    simp only [rest]
    omega
  · obtain rfl := Option.some.inj heq
    rw [if_pos hs.input]
    exact finish_lowers hs (by rw [hphase]; decide)

theorem readLine_lowers {result : ReadResult} (hs : s.Dropped)
    (h : s.readLine result = some t) : Lowers s t := by
  obtain ⟨hphase, heq⟩ := Option.ite_none_right_eq_some.mp h
  have hnext : ∃ phase, t = { s with phase := phase } ∧ phase.rank < SerialPhase.reading.rank := by
    cases result with
    | data bytes =>
        dsimp only at heq
        split at heq
        · exact ⟨_, (Option.some.inj heq).symm, by decide⟩
        · obtain ⟨-, heq⟩ := Option.ite_none_right_eq_some.mp heq
          exact ⟨_, (Option.some.inj heq).symm, Nat.lt_succ_self 3⟩
    | timedOut | interrupted | failed => exact ⟨_, (Option.some.inj heq).symm, by decide⟩
  obtain ⟨phase, rfl, hrank⟩ := hnext
  refine ⟨⟨hs.control, hs.input⟩, ?_, Nat.le_succ _⟩
  simp only [rest, hphase]
  omega

theorem relay_lowers (hs : s.Dropped) (h : s.relay = some t) : Lowers s t := by
  unfold relay at h
  split at h
  · rename_i bytes hphase
    obtain ⟨r, hr, rfl⟩ := Option.map_eq_some_iff.mp h
    rcases TransportPair.deliver_cases hr with ⟨output, rfl, hqueue⟩ | rfl
    · refine ⟨⟨hs.control, hs.input⟩, ?_, ?_⟩
      · simp [rest, SerialPhase.rank, hphase]
      · simp [untaken, hqueue]
        omega
    · exact finish_lowers hs (by rw [hphase]; exact Nat.succ_pos 2)
  · cases h

theorem awaitReconnect_lowers {reopened : Bool} (hs : s.Dropped)
    (h : s.awaitReconnect reopened = some t) : Lowers s t := by
  obtain ⟨hphase, heq⟩ := Option.ite_none_right_eq_some.mp h
  split at heq
  · rename_i msg control hrecv
    obtain rfl := Option.some.inj heq
    have hqueue := congrArg List.length (Fifo.recv_some hrecv).1
    rw [List.length_cons] at hqueue
    cases msg with
    | reconnect =>
        cases reopened with
        | true =>
            refine ⟨⟨hs.control, hs.input⟩, ?_, Nat.le_succ _⟩
            simp only [rest, if_true, reopen, SerialPhase.rank, hphase]
            omega
        | false =>
            refine ⟨⟨hs.control, hs.input⟩, ?_, Nat.le_succ _⟩
            simp only [rest, Bool.false_eq_true, if_false, SerialPhase.rank, hphase]
            omega
    | disconnect =>
        exact ⟨⟨hs.control, hs.input⟩, rest_pos (by rw [hphase]; decide), Nat.le_succ _⟩
    | _ =>
        refine ⟨⟨hs.control, hs.input⟩, ?_, Nat.le_succ _⟩
        simp only [rest, SerialPhase.rank, hphase]
        omega
  · obtain ⟨-, heq⟩ := Option.ite_none_right_eq_some.mp heq
    obtain rfl := Option.some.inj heq
    exact finish_lowers hs (by rw [hphase]; decide)

/-- Every step of the loop brings it nearer to its end. -/
theorem step_lowers (hs : s.Dropped) (h : s.step l = some t) (hmoves : s.moves l = true) :
    Lowers s t := by
  cases l with
  | ui | tick => cases hmoves
  | emit => exact emit_lowers hs h
  | readControl => exact readControl_lowers hs h
  | housekeep lines => exact housekeep_lowers hs h
  | readInput results => exact readInput_lowers hs h
  | readLine result => exact readLine_lowers hs h
  | relay => exact relay_lowers hs h
  | awaitReconnect reopened => exact awaitReconnect_lowers hs h

theorem step_idles (hs : s.Dropped) (h : s.step l = some t) (hmoves : s.moves l = false) :
    t.Dropped ∧ t.rest = s.rest := by
  cases l with
  | ui move =>
      obtain ⟨pair, hpair, rfl⟩ := Option.map_eq_some_iff.mp h
      cases move with
      | input bytes => simp [TransportPair.ui, hs.input] at hpair
      | control msg => simp [TransportPair.ui, hs.control] at hpair
      | takeOutput | takeEvent =>
          obtain ⟨r, -, rfl⟩ := Option.map_eq_some_iff.mp hpair
          exact ⟨⟨hs.control, hs.input⟩, rfl⟩
      | dropInput =>
          obtain rfl := Option.some.inj hpair
          exact ⟨⟨hs.control, rfl⟩, rfl⟩
      | dropControl =>
          obtain rfl := Option.some.inj hpair
          exact ⟨⟨rfl, hs.input⟩, rfl⟩
      | dropOutput | dropEvents =>
          obtain rfl := Option.some.inj hpair
          exact ⟨⟨hs.control, hs.input⟩, rfl⟩
  | tick elapsed => exact Option.some.inj h ▸ ⟨⟨hs.control, hs.input⟩, rfl⟩
  | _ => cases hmoves

theorem step_dropped (hs : s.Dropped) (h : s.step l = some t) : t.Dropped := by
  cases hmoves : s.moves l with
  | true => exact (step_lowers hs h hmoves).dropped
  | false => exact (step_idles hs h hmoves).1

/-! ## Room -/

/-- The channels are those of `newPair`, whatever is in them. -/
def Roomy (s : Serial) : Prop := TransportPair.newPair.SameRoom s.pair

theorem relay_room (h : s.relay = some t) : s.pair.SameRoom t.pair := by
  unfold relay at h
  split at h
  · obtain ⟨r, hr, rfl⟩ := Option.map_eq_some_iff.mp h
    have hroom := TransportPair.deliver_room hr
    dsimp only
    split
    · exact hroom
    · exact ⟨hroom.output, hroom.input, hroom.control, hroom.events⟩
  · cases h

theorem step_room (h : s.step l = some t) : s.pair.SameRoom t.pair := by
  have hfinish : ∀ p : TransportPair, p.SameRoom p.finish := fun p => ⟨rfl, rfl, rfl, rfl⟩
  cases l with
  | ui move =>
      obtain ⟨pair, hpair, rfl⟩ := Option.map_eq_some_iff.mp h
      exact TransportPair.ui_room hpair
  | tick elapsed => exact Option.some.inj h ▸ .refl _
  | emit =>
      obtain ⟨e, pair, -, hsend, rfl⟩ := emit_cases h
      have hroom := TransportPair.send_room hsend
      unfold announced
      split <;> exact ⟨hroom.output, hroom.input, hroom.control, hroom.events⟩
  | readControl =>
      obtain ⟨-, heq⟩ := Option.ite_none_right_eq_some.mp h
      split at heq
      · rename_i msg control hrecv
        obtain rfl := Option.some.inj heq
        have hcapacity := Fifo.recv_capacity hrecv
        cases msg <;> exact ⟨rfl, rfl, hcapacity, rfl⟩
      · obtain rfl := Option.some.inj heq
        split
        · exact hfinish _
        · exact .refl _
  | housekeep lines =>
      obtain ⟨-, heq⟩ := Option.ite_none_right_eq_some.mp h
      obtain rfl := Option.some.inj heq
      rw [(pollModem_eq s.clearBreak lines).1, (clearBreak_eq s).1]
      exact .refl _
  | readInput results =>
      obtain ⟨-, heq⟩ := Option.ite_none_right_eq_some.mp h
      split at heq
      · rename_i bytes input hrecv
        obtain ⟨r, -, rfl⟩ := Option.map_eq_some_iff.mp heq
        exact ⟨rfl, Fifo.recv_capacity hrecv, rfl, rfl⟩
      · obtain rfl := Option.some.inj heq
        split
        · exact hfinish _
        · exact .refl _
  | readLine result =>
      obtain ⟨-, heq⟩ := Option.ite_none_right_eq_some.mp h
      cases result with
      | data bytes =>
          dsimp only at heq
          split at heq
          · exact Option.some.inj heq ▸ .refl _
          · obtain ⟨-, heq⟩ := Option.ite_none_right_eq_some.mp heq
            exact Option.some.inj heq ▸ .refl _
      | timedOut | interrupted | failed => exact Option.some.inj heq ▸ .refl _
  | relay => exact relay_room h
  | awaitReconnect reopened =>
      obtain ⟨-, heq⟩ := Option.ite_none_right_eq_some.mp h
      split at heq
      · rename_i msg control hrecv
        obtain rfl := Option.some.inj heq
        have hcapacity := Fifo.recv_capacity hrecv
        cases msg with
        | reconnect => cases reopened <;> exact ⟨rfl, rfl, hcapacity, rfl⟩
        | _ => exact ⟨rfl, rfl, hcapacity, rfl⟩
      · obtain ⟨-, heq⟩ := Option.ite_none_right_eq_some.mp heq
        exact Option.some.inj heq ▸ hfinish _

theorem Roomy.step (hs : s.Roomy) (h : s.step l = some t) : t.Roomy := by
  have hroom := step_room h
  exact ⟨hroom.output.trans hs.output, hroom.input.trans hs.input,
    hroom.control.trans hs.control, hroom.events.trans hs.events⟩

theorem rest_le (hs : s.Roomy) : s.rest ≤ 327 := by
  have hrank : s.phase.rank ≤ 7 := by
    cases s.phase <;> simp [SerialPhase.rank]
  have hcontrols : s.pair.control.queue.length ≤ 16 := s.pair.control.bounded.trans_eq hs.control
  have hinputs : s.pair.input.queue.length ≤ 256 := s.pair.input.bounded.trans_eq hs.input
  unfold rest
  omega

/-! ## The end -/

/-- What can be counted on: the loop's own steps, and that the relays take. -/
def Owed (_ : Serial) : SerialLabel → Prop
  | .ui .takeOutput | .ui .takeEvent => True
  | .ui _ | .tick _ => False
  | _ => True

/-- A step of the loop can fill one place that a relay is to empty. -/
def weight (s : Serial) : Nat := 2 * s.rest + s.untaken

/-- An owed step gets on with the end. -/
def Goes (s : Serial) : Prop := ∃ l t, s.Owed l ∧ s.step l = some t ∧ t.weight < s.weight

theorem goes_of_step (hs : s.Dropped) (hmoves : s.moves l = true) (h : s.step l = some t) :
    s.Goes := by
  have howed : s.Owed l := by
    cases l with
    | ui | tick => cases hmoves
    | _ => trivial
  have hlowers := step_lowers hs h hmoves
  refine ⟨l, t, howed, h, ?_⟩
  have hrest := hlowers.rest
  have huntaken := hlowers.untaken
  unfold weight
  omega

theorem goes_of_takeEvent {pair : TransportPair} (h : s.pair.ui .takeEvent = some pair) :
    s.Goes := by
  have hstep : s.step (.ui .takeEvent) = some { s with pair := pair } := by
    rw [step, h]
    rfl
  refine ⟨.ui .takeEvent, _, trivial, hstep, ?_⟩
  obtain ⟨⟨e, events⟩, hrecv, rfl⟩ := Option.map_eq_some_iff.mp h
  have hqueue := congrArg List.length (Fifo.recv_some hrecv).1
  simp only [List.length_cons] at hqueue
  simp only [weight, rest, untaken]
  omega

theorem goes_of_takeOutput {pair : TransportPair} (h : s.pair.ui .takeOutput = some pair) :
    s.Goes := by
  have hstep : s.step (.ui .takeOutput) = some { s with pair := pair } := by
    rw [step, h]
    rfl
  refine ⟨.ui .takeOutput, _, trivial, hstep, ?_⟩
  obtain ⟨⟨bytes, output⟩, hrecv, rfl⟩ := Option.map_eq_some_iff.mp h
  have hqueue := congrArg List.length (Fifo.recv_some hrecv).1
  simp only [List.length_cons] at hqueue
  simp only [weight, rest, untaken]
  omega

theorem goes_of_announces (hs : s.Dropped) (hroom : s.Roomy) {e : TransportEvent}
    (he : s.phase.announces = some e) : s.Goes := by
  cases hsend : s.pair.send e with
  | some pair =>
      have hemit : s.step .emit = some ({ s with pair := pair } : Serial).announced := by
        rw [step, emit, he, Option.bind_some, hsend]
        rfl
      exact goes_of_step hs rfl hemit
  | none =>
      obtain ⟨q, -, htake, -⟩ := TransportPair.send_waits hroom.events hsend
      exact goes_of_takeEvent htake

/-- Every chunk can be dealt with: at worst the port refuses it. -/
theorem writeAll_isSome (bytes : Bytes) : ∃ results r, writeAll bytes results = some r := by
  cases bytes with
  | nil => exact ⟨[], _, rfl⟩
  | cons b bytes => exact ⟨[.failed], _, rfl⟩

/-- Until it has ended the loop can go on, or a relay can take what it waits to
have taken. -/
theorem goes_on (hs : s.Dropped) (hroom : s.Roomy) (hphase : s.phase ≠ .ended) : s.Goes := by
  have hgoes : ∀ {l : SerialLabel}, s.moves l = true → (s.step l).isSome → s.Goes := by
    intro l hmoves hsome
    obtain ⟨t, ht⟩ := Option.isSome_iff_exists.mp hsome
    exact goes_of_step hs hmoves ht
  cases hp : s.phase with
  | opened | reporting | closing | removed | reopened =>
      exact goes_of_announces hs hroom (by rw [hp]; rfl)
  | control =>
      refine hgoes (l := .readControl) rfl ?_
      rw [step, readControl, if_pos hp]
      split <;> rfl
  | housekeeping =>
      refine hgoes (l := .housekeep none) rfl ?_
      rw [step, housekeep, if_pos hp]
      rfl
  | input =>
      cases hrecv : s.pair.input.recv with
      | none =>
          refine hgoes (l := .readInput []) rfl ?_
          rw [step, readInput, if_pos hp, hrecv]
          rfl
      | some r =>
          obtain ⟨results, w, hw⟩ := writeAll_isSome r.1
          refine hgoes (l := .readInput results) rfl ?_
          rw [step, readInput, if_pos hp, hrecv]
          dsimp only
          rw [hw]
          rfl
  | reading =>
      refine hgoes (l := .readLine .timedOut) rfl ?_
      rw [step, readLine, if_pos hp]
      rfl
  | relaying bytes =>
      cases hdeliver : s.pair.deliver bytes with
      | some r =>
          refine hgoes (l := .relay) rfl ?_
          simp only [step, relay, hp, hdeliver]
          rfl
      | none =>
          have hpos : 0 < s.pair.output.capacity := by rw [hroom.output]; decide
          obtain ⟨pair, htake⟩ := TransportPair.deliver_waits hpos hdeliver
          exact goes_of_takeOutput htake
  | waiting =>
      refine hgoes (l := .awaitReconnect false) rfl ?_
      rw [step, awaitReconnect, if_pos hp]
      split
      · rfl
      · rw [if_pos hs.control]
        rfl
  | ended => exact absurd hp hphase

/-- Once the pane is gone, whatever was sent before and wherever the loop is, no more
than 327 of its steps are left. It ends by these and by what the relays still take
alone: a thread is not left behind. -/
theorem line_ends {labels more : List SerialLabel} (hrun : run step start labels = some s)
    (hdropped : s.Dropped) (hmore : run step s more = some t) :
    (moved step moves s more).length ≤ 327 ∧
      ∃ ending u, run step t ending = some u ∧ Along step Owed t ending ∧ u.phase = .ended := by
  have hstart : start.Roomy := ⟨rfl, rfl, rfl, rfl⟩
  have hroom : s.Roomy := invariant (fun _ _ _ hs h => hs.step h) hstart hrun
  have hkeep : ∀ s l t, s.Dropped ∧ s.Roomy → step s l = some t → t.Dropped ∧ t.Roomy :=
    fun s l t hs h => ⟨step_dropped hs.1 h, hs.2.step h⟩
  constructor
  · have hmoved := moves_le hkeep (fun s l t hs h hm => (step_lowers hs.1 h hm).rest)
      (fun s l t hs h hm => (step_idles hs.1 h hm).2.le) ⟨hdropped, hroom⟩ hmore
    have hbound := rest_le hroom
    omega
  · have hgo : ∀ s, s.Dropped ∧ s.Roomy → ¬s.phase = .ended →
        ∃ l u, s.Owed l ∧ step s l = some u ∧ (u.Dropped ∧ u.Roomy) ∧ u.weight < s.weight := by
      intro s hs hphase
      obtain ⟨l, u, howed, hu, hless⟩ := goes_on hs.1 hs.2 hphase
      exact ⟨l, u, howed, hu, hkeep s l u hs hu, hless⟩
    obtain ⟨ending, u, hending, howed, -, hended⟩ :=
      exists_final hgo (invariant hkeep ⟨hdropped, hroom⟩ hmore)
    exact ⟨ending, u, hending, howed, hended⟩

/-- The pane is closed while a chunk is on its way in and a reconnect is asked for. -/
def closedWhileReading : List SerialLabel :=
  [.emit, .readControl, .housekeep none, .readInput [], .ui (.input [97]),
    .ui (.control .reconnect), .ui .dropInput, .ui .dropControl]

theorem line_ends_whileReading : ∃ s t, run step start closedWhileReading = some s ∧
    run step s [.readLine (.data [98]), .relay, .readControl, .readControl] = some t ∧
    (moved step moves s [.readLine (.data [98]), .relay, .readControl, .readControl]).length ≤ 327 ∧
    t.phase = .ended := by
  have hrun : (run step start (closedWhileReading ++
      [.readLine (.data [98]), .relay, .readControl, .readControl])).map (·.phase) =
        some .ended := rfl
  have hstate : (run step start closedWhileReading).map (fun s => (s.pair.controlEnded,
      s.pair.inputEnded)) = some (true, true) := rfl
  obtain ⟨t, ht, hended⟩ := Option.map_eq_some_iff.mp hrun
  obtain ⟨s, hs, hall⟩ := Option.map_eq_some_iff.mp hstate
  rw [run_append, hs, Option.bind_some] at ht
  have hdropped : s.Dropped := ⟨(Prod.mk.inj hall).1, (Prod.mk.inj hall).2⟩
  exact ⟨s, t, hs, ht, (line_ends hs hdropped ht).1, hended⟩

end Serial

end PolyTerm
